import Qkmetisc.Bstream.Callbacks
import Qkmetisc.Bstream.Length

/-!
# Streams with the right length

As long as no write leaves its bytes in a buffer that has free space, the counter of a stream is
right, and the test for emptiness with it. A text that is borrowed into an empty stream, followed
by a prompt that is copied, is such a stream.

## Main definitions

* `Bstream.Exact`: a valid stream whose counter is right.
* `Bstream.TakesAll`: the descriptor takes all that is in the stream.

## Main results

* `Exact.writeBorrow`, `Exact.writeMem_of_full`, `Exact.readFd`: operations that keep the counter
  right.
* `content_writeBorrow`, `content_writeMem_of_full`: what these writes add.
* `Exact.readFd_content_eq_nil_iff`: when nothing is left after `bstream_read_fd`.
-/

namespace Qkmetisc

namespace Bstream

variable {β : Type} {bs : Bstream β}

/-- A valid stream whose counter is right. -/
structure Exact (bs : Bstream β) : Prop where
  valid : bs.Valid
  totalLen_eq : bs.totalLen = bs.content.length

theorem exact_create : (create : Bstream β).Exact := ⟨valid_create, rfl⟩

/-- In an exact stream the test for emptiness is right. -/
theorem Exact.content_eq_nil_iff (h : bs.Exact) :
    bs.content = [] ↔ bs.len = 0 := by
  rw [len, h.totalLen_eq, List.length_eq_zero_iff]

theorem Exact.exec (h : bs.Exact) (op : StreamOp β) (hcounts : bs.CountsWrite op) :
    (bs.exec op).Exact := by
  have hright : bs.LengthRight := (lengthRight_iff h.valid.wf).2 h.totalLen_eq
  obtain ⟨hvalid, hright'⟩ := (exec_lengthRight_iff bs op ⟨h.valid, hright⟩).2 hcounts
  exact ⟨hvalid, hright'.len_eq⟩

theorem Exact.flush (h : bs.Exact) : bs.flush.Exact := h.exec .flush trivial

theorem Exact.writeBorrow (h : bs.Exact) (buf : List β) (mem : Bool) :
    (bs.writeBorrow buf mem).2.Exact := h.exec (.writeBorrow buf mem) trivial

/-- A write from memory that finds no free space in the last buffer. -/
theorem Exact.writeMem_of_full (h : bs.Exact) (src : List β) (mem : ℕ → Malloc β)
    (hfull : bs.tailFree = 0) : (bs.writeMem src mem).2.Exact := by
  refine h.exec (.write memreader src src.length mem) fun hu => ?_
  exact absurd hu.2.1 (by omega)

theorem Exact.readFd (h : bs.Exact) (written : ℕ → Option ℕ) (len : ℕ) :
    (bs.readFd written len).2.1.Exact := h.exec (.read (fdwriter written) (0, []) len) trivial

/-- After borrowing for an empty stream, the last buffer has no free space. -/
theorem tailFree_writeBorrow_create (buf : List β) (mem : Bool) :
    ((create : Bstream β).writeBorrow buf mem).2.tailFree = 0 := by
  unfold writeBorrow
  split
  · rfl
  · cases mem with
    | false => rfl
    | true => rfl

/-! ## What is written -/

/-- Borrowing adds all of the memory, unless the lengths do not fit or nothing is allocated. -/
theorem content_writeBorrow (bs : Bstream β) (buf : List β) (mem : Bool) :
    (bs.writeBorrow buf mem).2.content =
      bs.content ++ if mem ∧ bs.totalLen + buf.length < SIZE_T_RANGE then buf else [] := by
  unfold writeBorrow
  split
  next hover => simp [Nat.not_lt.2 hover]
  next hfits =>
    cases mem with
    | false => simp [BufferBorrowed.create]
    | true =>
      have hlt : bs.totalLen + buf.length < SIZE_T_RANGE := by omega
      simp [BufferBorrowed.create, content, Buffer.unread, loadAt, hlt]

/-- The loop of `bstream_write_mem`, when one block is enough. -/
theorem content_writeLoop_memreader (bs : Bstream β) (src : List β) (mem : ℕ → Malloc β)
    (hlen : src.length ≤ BSTREAM_BUFFER_COPIED_SIZE) :
    (bs.writeLoop memreader src 0 src.length mem 0).2.1.content =
      bs.content ++ if (mem 0).isSome then src else [] := by
  rw [writeLoop]
  split
  next hnone =>
    have hmem : mem 0 = none := by simpa [BufferCopied.create] using hnone
    simp [hmem]
  next bb hsome =>
    obtain ⟨hwf, hempty, hfree⟩ := Buffer.wf_create hsome
    have hmem : (mem 0).isSome = true := by
      simp only [BufferCopied.create, Option.map_eq_some_iff] at hsome
      obtain ⟨block, hblock, -⟩ := hsome
      rw [hblock]
      rfl
    -- the new block takes the whole source at once
    have hpos : 0 < bb.freeSpace := by rw [hfree]; decide
    have hwrite : bb.write memreader src src.length = (src.length, bb.push src, []) := by
      rw [BufferCopied.write_of_free hpos, Nat.min_eq_left (by omega)]
      simp [memreader]
    have hpush := (BufferCopied.push_spec hwf (hlen.trans hfree.ge)).2
    have hunread : Buffer.unread (.copied bb) = [] := by simp [Buffer.unread, loadAt, hempty]
    rw [hwrite]
    simp [content, hpush, hunread, hmem]

/-- A write from memory of no more than a block, when the last buffer has no free space: it takes
all, unless the lengths do not fit or nothing is allocated. -/
theorem content_writeMem_of_full (bs : Bstream β) (src : List β) (mem : ℕ → Malloc β)
    (hfull : bs.tailFree = 0) (hne : src ≠ []) (hlen : src.length ≤ BSTREAM_BUFFER_COPIED_SIZE) :
    (bs.writeMem src mem).2.content = bs.content ++
      if (mem 0).isSome ∧ bs.totalLen + src.length < SIZE_T_RANGE then src else [] := by
  unfold writeMem write
  split
  next hover => simp [Nat.not_lt.2 hover]
  next hfits =>
    have hlt : bs.totalLen + src.length < SIZE_T_RANGE := by omega
    simp only [hlt, and_true]
    split
    next hnone => exact content_writeLoop_memreader bs src mem hlen
    next lbb hlast =>
      have hfree : lbb.freeSpace = 0 := by simpa [tailFree, hlast] using hfull
      -- the last buffer takes nothing, and the loop starts with the stream as it was
      have hwrite : lbb.write memreader src src.length = (0, lbb, src) := by
        cases lbb with
        | borrowed bbb => rfl
        | copied bbc =>
          have hzero : bbc.freeSpace = 0 := hfree
          rw [Buffer.write, BufferCopied.write_of_full hzero]
      have hgo : ¬ (lbb.writable = true ∨ 0 = src.length) := by
        rw [Buffer.writable_iff, hfree]
        have := List.length_pos_iff.2 hne
        omega
      have hchain : bs.chain.dropLast ++ [lbb] = bs.chain := by
        obtain ⟨front, hfront⟩ := List.getLast?_eq_some_iff.1 hlast
        rw [hfront, List.dropLast_concat]
      simp only [hwrite, hchain, Bool.or_eq_true, decide_eq_true_eq, if_neg hgo, Nat.sub_zero]
      exact content_writeLoop_memreader bs src mem hlen

/-! ## What is sent -/

/-- Each call of `write` takes the whole buffer it is offered. -/
def TakesAll (bs : Bstream β) (written : ℕ → Option ℕ) : Prop :=
  ∀ entry ∈ bs.chain.zipIdx, entry.1.len ≤ (written entry.2).getD 0

instance (bs : Bstream β) (written : ℕ → Option ℕ) : Decidable (bs.TakesAll written) :=
  inferInstanceAs (Decidable (∀ entry ∈ bs.chain.zipIdx, _))

/-- One call of `write`, for a whole buffer. -/
theorem read_fdwriter {bb : Buffer β} (h : bb.WF) (written : ℕ → Option ℕ) (k : ℕ) (sent : List β)
    {remain : ℕ} (hle : bb.len ≤ remain) :
    (bb.read (fdwriter written) (k, sent) remain).1 = min ((written k).getD 0) bb.len ∧
      (bb.read (fdwriter written) (k, sent) remain).2.2.1 = k + 1 := by
  have hlen := h.length_unread
  cases bb with
  | borrowed bbb =>
    simp only [Buffer.len, Buffer.unread] at hle hlen
    simp [Buffer.read, BufferBorrowed.read, fdwriter, Nat.min_eq_right hle, hlen, Buffer.len]
  | copied bbc =>
    simp only [Buffer.len, Buffer.unread] at hle hlen
    simp [Buffer.read, BufferCopied.read, fdwriter, Nat.min_eq_right hle, hlen, Buffer.len]

/-- The loop of `bstream_read_fd`, when it may read all. The induction is on the chain. -/
theorem readLoop_fdwriter (written : ℕ → Option ℕ) {remain : ℕ} {chain : List (Buffer β)}
    (h : ∀ bb ∈ chain, bb.WF) (hle : (chain.map Buffer.len).sum ≤ remain) (k : ℕ) (sent : List β) :
    ((readLoop (fdwriter written) remain chain (k, sent)).2.1.map Buffer.len).sum = 0 ↔
      ∀ entry ∈ chain.zipIdx k, entry.1.len ≤ (written entry.2).getD 0 := by
  induction chain generalizing k sent with
  | nil => simp [readLoop]
  | cons bb rest ih =>
    have hbb : bb.WF := h bb List.mem_cons_self
    simp only [List.map_cons, List.sum_cons] at hle
    obtain ⟨hres, hnext⟩ := read_fdwriter hbb written k sent (show bb.len ≤ remain by omega)
    have hspec := Buffer.read_spec hbb (fdwriter written) (k, sent) remain
    have hlen := hspec.len
    set out := bb.read (fdwriter written) (k, sent) remain with hout
    simp only [readLoop, ← hout, List.zipIdx_cons, List.forall_mem_cons, Buffer.readable_iff]
    split
    next hreadable =>
      -- a buffer that was not taken as a whole stays
      simp only [List.map_cons, List.sum_cons]
      constructor
      · intro hsum
        omega
      · intro htakes
        have := htakes.1
        omega
    next hdrained =>
      have hfirst : bb.len ≤ (written k).getD 0 := by omega
      split
      next hdone =>
        -- nothing else was there
        have hrest : (rest.map Buffer.len).sum = 0 := by omega
        refine iff_of_true hrest ⟨hfirst, fun entry hentry => ?_⟩
        rw [List.sum_eq_zero_iff_forall_eq_nat] at hrest
        rw [hrest _ (List.mem_map_of_mem (List.fst_mem_of_mem_zipIdx hentry))]
        exact Nat.zero_le _
      next hgo =>
        rw [and_iff_right hfirst, ← ih (fun b hb => h b (List.mem_cons_of_mem _ hb)) (by omega)
          (k + 1) out.2.2.2]
        rw [← hnext]

/-- Nothing is left exactly if each call takes the whole buffer. -/
theorem Exact.readFd_content_eq_nil_iff (h : bs.Exact) (written : ℕ → Option ℕ) :
    (bs.readFd written bs.len).2.1.content = [] ↔ bs.TakesAll written := by
  have hwf := (h.readFd written bs.len).valid.wf
  have hle : (bs.chain.map Buffer.len).sum ≤ bs.len := by
    rw [len, h.totalLen_eq, h.valid.wf.length_content]
  rw [← List.length_eq_zero_iff, hwf.length_content]
  exact readLoop_fdwriter written h.valid.wf hle 0 []

end Bstream

end Qkmetisc
