import Mathlib.Data.List.Basic

/-!
# Buffered reading

A stream opened on a descriptor from which elements can be read at once: it reads from the
descriptor a buffer at a time, and hands the elements of the buffer to the program one by one.
Closing the stream forgets the buffer, so that what was read ahead of the program is lost.

## Main definitions

* `File`: what has been read ahead, and what is still in the descriptor.
* `fopen`, `getc`, `peek`, `fread`, `fclose`: the operations, for a buffer of a given size.

## Main results

* `fread_eq`: reading takes elements off the front of the content.
* `fclose_fread_iff`, `fclose_peek_fread_iff`: when closing loses nothing.
-/

namespace BufferedFile

variable {β : Type*}

/-- A stream that reads from a descriptor. -/
@[ext]
structure File (β : Type*) where
  /-- What is in the buffer and has not been handed to the program. -/
  ahead : List β
  /-- What can still be read from the descriptor. -/
  queue : List β
  deriving Repr

namespace File

/-- What the program has not read. -/
def content (f : File β) : List β := f.ahead ++ f.queue

/-- A new stream: opening it reads nothing. -/
def fopen (queue : List β) : File β := { ahead := [], queue }

/-- An empty buffer is filled from the descriptor. -/
def refill (size : ℕ) (f : File β) : File β :=
  match f.ahead with
  | [] => { ahead := f.queue.take size, queue := f.queue.drop size }
  | _ :: _ => f

/-- The next element, none if there is no more. -/
def getc (size : ℕ) (f : File β) : Option β × File β :=
  let f := f.refill size
  match f.ahead with
  | [] => (none, f)
  | b :: ahead => (some b, { f with ahead })

/-- The next element is read and given back: it stays the next one. -/
def peek (size : ℕ) (f : File β) : Option β × File β :=
  let f := f.refill size
  (f.ahead.head?, f)

/-- The next `n` elements, or fewer if there are no more. -/
def fread (size : ℕ) : ℕ → File β → List β × File β
  | 0, f => ([], f)
  | n + 1, f =>
    match f.getc size with
    | (none, f) => ([], f)
    | (some b, f) => (b :: (fread size n f).1, (fread size n f).2)

/-- What is left in the descriptor when the stream is closed. -/
def fclose (f : File β) : List β := f.queue

@[simp]
theorem content_fopen (queue : List β) : (fopen queue).content = queue := rfl

@[simp]
theorem content_refill (size : ℕ) (f : File β) : (f.refill size).content = f.content := by
  obtain ⟨ahead, queue⟩ := f
  cases ahead with
  | nil => simp [refill, content]
  | cons b ahead => rfl

/-- With a buffer at all, a stream that has elements left has one in the buffer once that has
been filled. -/
theorem ahead_refill_eq_nil_iff {size : ℕ} (hsize : 0 < size) {f : File β} :
    (f.refill size).ahead = [] ↔ f.content = [] := by
  obtain ⟨ahead, queue⟩ := f
  cases ahead with
  | nil => simp [refill, content, Nat.ne_of_gt hsize]
  | cons b ahead => simp [refill, content]

theorem getc_nil {size : ℕ} (hsize : 0 < size) {f : File β} (h : f.content = []) :
    f.getc size = (none, f.refill size) := by
  rw [getc, (ahead_refill_eq_nil_iff hsize).2 h]

theorem getc_cons {size : ℕ} (hsize : 0 < size) {f : File β} {b : β} {rest : List β}
    (h : f.content = b :: rest) :
    ∃ f', f.getc size = (some b, f') ∧ f'.content = rest ∧
      f'.queue = (f.refill size).queue := by
  have hahead : (f.refill size).ahead ≠ [] := by
    rw [Ne, ahead_refill_eq_nil_iff hsize, h]
    exact List.cons_ne_nil _ _
  obtain ⟨c, ahead, hc⟩ := List.exists_cons_of_ne_nil hahead
  have hcontent := content_refill size f
  rw [h, content, hc, List.cons_append, List.cons.injEq] at hcontent
  refine ⟨{ f.refill size with ahead }, ?_, hcontent.2, rfl⟩
  rw [getc, hc, hcontent.1]

/-- Reading takes elements off the front of the content. -/
theorem fread_eq {size : ℕ} (hsize : 0 < size) (n : ℕ) (f : File β) :
    (f.fread size n).1 = f.content.take n ∧ (f.fread size n).2.content = f.content.drop n := by
  induction n generalizing f with
  | zero => exact ⟨rfl, rfl⟩
  | succ n ih =>
    cases hcontent : f.content with
    | nil => simp [fread, getc_nil hsize hcontent, hcontent]
    | cons b rest =>
      obtain ⟨f', hgetc, hrest, -⟩ := getc_cons hsize hcontent
      simp only [fread, hgetc, List.take_succ_cons, List.drop_succ_cons]
      exact ⟨by rw [(ih f').1, hrest], by rw [(ih f').2, hrest]⟩

/-- No more elements are read than asked for. -/
theorem length_fread_le (size n : ℕ) (f : File β) : (f.fread size n).1.length ≤ n := by
  induction n generalizing f with
  | zero => exact Nat.le_refl _
  | succ n ih =>
    match hgetc : f.getc size with
    | (none, f') => simp [fread, hgetc]
    | (some b, f') =>
      simp only [fread, hgetc, List.length_cons]
      exact Nat.succ_le_succ (ih f')

/-- Closing loses exactly what has been read ahead. -/
theorem fclose_eq_content_iff (f : File β) : f.fclose = f.content ↔ f.ahead = [] := by
  rw [fclose, content, eq_comm, List.append_left_eq_self]

section ReadAhead

variable {size n : ℕ}

/-- What has been read from the descriptor for the first `n` elements of `queue`: the buffer has
been filled as often as needed, and not once more. -/
structure Drawn (size : ℕ) (queue : List β) (n : ℕ) (f : File β) : Prop where
  content : f.content = queue.drop n
  /-- The buffer has been filled `k` times. -/
  queue : ∃ k, f.queue = queue.drop (size * k) ∧ n ≤ size * k ∧ size * k < n + size

theorem Drawn.fopen (hsize : 0 < size) (queue : List β) : Drawn size queue 0 (fopen queue) :=
  ⟨rfl, 0, rfl, Nat.zero_le _, by omega⟩

/-- One more element is read while there are some. -/
theorem Drawn.getc (hsize : 0 < size) {queue : List β} {f : File β} (h : Drawn size queue n f)
    (hn : n < queue.length) :
    ∃ b f', f.getc size = (some b, f') ∧ Drawn size queue (n + 1) f' := by
  have hcontent : f.content = queue[n] :: queue.drop (n + 1) := by
    rw [h.content, List.drop_eq_getElem_cons hn]
  obtain ⟨f', hgetc, hrest, hqueue⟩ := getc_cons hsize hcontent
  refine ⟨_, f', hgetc, hrest, ?_⟩
  obtain ⟨k, hk, hle, hlt⟩ := h.queue
  by_cases hahead : f.ahead = []
  · -- the buffer is empty: all that was drawn has been read
    have hnk : n = size * k := by
      have hlength := congrArg List.length hcontent
      rw [File.content, hahead, hk] at hlength
      simp only [List.nil_append, List.length_drop, List.length_cons] at hlength
      omega
    refine ⟨k + 1, ?_, ?_, ?_⟩
    · rw [hqueue, refill, hahead, hk]
      simp [List.drop_drop, Nat.mul_succ]
    · rw [Nat.mul_succ]; omega
    · rw [Nat.mul_succ]; omega
  · obtain ⟨b, ahead, hb⟩ := List.exists_cons_of_ne_nil hahead
    have hlength := congrArg List.length h.content
    rw [File.content, hb, hk] at hlength
    simp only [List.cons_append, List.length_cons, List.length_append, List.length_drop] at hlength
    refine ⟨k, ?_, by omega, by omega⟩
    rw [hqueue, refill, hb, hk]

/-- What has been drawn while the elements that are there are read. -/
theorem Drawn.fread (hsize : 0 < size) {queue : List β} {f : File β} {m : ℕ}
    (h : Drawn size queue m f) (hn : m + n ≤ queue.length) :
    Drawn size queue (m + n) (f.fread size n).2 := by
  induction n generalizing m f with
  | zero => exact h
  | succ n ih =>
    obtain ⟨b, f', hgetc, hf'⟩ := h.getc hsize (by omega)
    simp only [File.fread, hgetc]
    rw [show m + (n + 1) = m + 1 + n by omega]
    exact ih hf' (by omega)

/-- Reading `n` elements and closing leaves the others in the descriptor exactly if there are no
others, or the buffer was used up. -/
theorem fclose_fread_iff (hsize : 0 < size) (queue : List β) :
    ((fopen queue).fread size n).2.fclose = queue.drop n ↔
      queue.length ≤ n ∨ size ∣ n := by
  obtain ⟨-, hcontent⟩ := fread_eq hsize n (fopen queue)
  rw [content_fopen] at hcontent
  by_cases hn : n < queue.length
  · have hdrawn := (Drawn.fopen hsize queue).fread hsize (n := n) (by omega)
    rw [Nat.zero_add] at hdrawn
    obtain ⟨k, hk, hle, hlt⟩ := hdrawn.queue
    rw [fclose, hk]
    constructor
    · intro heq
      -- lists of the same length: nothing lies between the two
      have hlength := congrArg List.length heq
      simp only [List.length_drop] at hlength
      exact .inr ⟨k, by omega⟩
    · rintro (hle' | ⟨j, rfl⟩)
      · omega
      · have hjk : j = k := by
          have h1 : size * j ≤ size * k := hle
          have h2 : size * k < size * (j + 1) := by rw [Nat.mul_succ]; exact hlt
          have h3 := Nat.le_of_mul_le_mul_left h1 hsize
          have h4 := Nat.lt_of_mul_lt_mul_left h2
          omega
        rw [hjk]
  · -- all is read
    have hnil : queue.drop n = [] := List.drop_eq_nil_of_le (by omega)
    rw [hnil] at hcontent ⊢
    exact iff_of_true (List.append_eq_nil_iff.1 hcontent).2 (.inl (by omega))

/-- Where the next element was looked at, closing leaves what was not read in the descriptor only
if there is nothing left. -/
theorem fclose_peek_fread_iff (hsize : 0 < size) (queue : List β) :
    ((((fopen queue).fread size n).2.peek size).2).fclose = queue.drop n ↔
      queue.length ≤ n := by
  obtain ⟨-, hcontent⟩ := fread_eq hsize n (fopen queue)
  rw [content_fopen] at hcontent
  have hpeek := content_refill size ((fopen queue).fread size n).2
  rw [hcontent] at hpeek
  rw [peek, ← hpeek, fclose_eq_content_iff, ahead_refill_eq_nil_iff hsize, hcontent,
    List.drop_eq_nil_iff]

end ReadAhead

end File

end BufferedFile
