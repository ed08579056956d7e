import Qkmetisc.Bstream.Defs
import Mathlib.Algebra.Ring.Nat
import Mathlib.Tactic.Common

/-!
# Observed callbacks

The calls an operation of the stream makes are observed through its callback: `Reader.logged`
and `Writer.logged` behave as the callback they wrap and keep a list of the calls, so that what
was asked for, stored, offered and accepted can be read off their state.

## Main definitions

* `Reader.logged`, `Writer.logged`.
* `storedBytes`, `deliveredBytes`, `offeredLen`: what a log of calls says.

## Main results

* `Bstream.write_logged`, `Bstream.read_logged`: observing the callback changes neither the
  result nor the stream.
-/

namespace Qkmetisc

variable {β σ τ : Type*}

/-- A call of a reader: how many bytes it was asked for and which it stored. -/
abbrev ReaderCall (β : Type*) := ℕ × List β

/-- A call of a writer: the bytes it was offered and how many it accepted. -/
abbrev WriterCall (β : Type*) := List β × ℕ

/-- A reader together with the list of its calls. -/
def Reader.logged (r : Reader σ β) : Reader (σ × List (ReaderCall β)) β where
  call s len :=
    ((r.call s.1 len).1, ((r.call s.1 len).2, s.2 ++ [(len, (r.call s.1 len).1)]))
  length_le s len := r.length_le s.1 len

/-- A writer together with the list of its calls. -/
def Writer.logged (w : Writer σ β) : Writer (σ × List (WriterCall β)) β where
  call s src :=
    ((w.call s.1 src).1, ((w.call s.1 src).2, s.2 ++ [(src, (w.call s.1 src).1)]))
  le_length s src := w.le_length s.1 src

/-- The bytes stored by the reader in the calls, in order. -/
def storedBytes (calls : List (ReaderCall β)) : List β := calls.flatMap Prod.snd

/-- The bytes accepted by the writer in the calls, in order. -/
def deliveredBytes (calls : List (WriterCall β)) : List β :=
  calls.flatMap fun call => call.1.take call.2

/-- The number of bytes offered to the writer in the calls. -/
def offeredLen (calls : List (WriterCall β)) : ℕ := (calls.map fun call => call.1.length).sum

@[simp]
theorem storedBytes_nil : storedBytes ([] : List (ReaderCall β)) = [] := rfl

@[simp]
theorem storedBytes_append (l l' : List (ReaderCall β)) :
    storedBytes (l ++ l') = storedBytes l ++ storedBytes l' := by
  simp [storedBytes]

@[simp]
theorem storedBytes_singleton (call : ReaderCall β) : storedBytes [call] = call.2 := by
  simp [storedBytes]

@[simp]
theorem deliveredBytes_nil : deliveredBytes ([] : List (WriterCall β)) = [] := rfl

@[simp]
theorem deliveredBytes_append (l l' : List (WriterCall β)) :
    deliveredBytes (l ++ l') = deliveredBytes l ++ deliveredBytes l' := by
  simp [deliveredBytes]

@[simp]
theorem deliveredBytes_singleton (call : WriterCall β) :
    deliveredBytes [call] = call.1.take call.2 := by
  simp [deliveredBytes]

theorem deliveredBytes_cons (call : WriterCall β) (l : List (WriterCall β)) :
    deliveredBytes (call :: l) = call.1.take call.2 ++ deliveredBytes l := rfl

@[simp]
theorem offeredLen_nil : offeredLen ([] : List (WriterCall β)) = 0 := rfl

@[simp]
theorem offeredLen_append (l l' : List (WriterCall β)) :
    offeredLen (l ++ l') = offeredLen l + offeredLen l' := by
  simp [offeredLen]

@[simp]
theorem offeredLen_singleton (call : WriterCall β) : offeredLen [call] = call.1.length := by
  simp [offeredLen]

theorem offeredLen_cons (call : WriterCall β) (l : List (WriterCall β)) :
    offeredLen (call :: l) = call.1.length + offeredLen l := by
  simp [offeredLen]

/-! ## Observing changes nothing

`f` maps the states of the callback `r'` to those of `r`, and a call of `r'` answers what `r`
answers in the state mapped to. -/

/-- `r'` behaves as `r` once its states are mapped by `f`. -/
def Reader.Behaves (r' : Reader τ β) (r : Reader σ β) (f : τ → σ) : Prop :=
  ∀ t len, r.call (f t) len = ((r'.call t len).1, f (r'.call t len).2)

/-- `w'` behaves as `w` once its states are mapped by `f`. -/
def Writer.Behaves (w' : Writer τ β) (w : Writer σ β) (f : τ → σ) : Prop :=
  ∀ t src, w.call (f t) src = ((w'.call t src).1, f (w'.call t src).2)

theorem Reader.logged_behaves (r : Reader σ β) : r.logged.Behaves r Prod.fst :=
  fun _ _ => rfl

theorem Writer.logged_behaves (w : Writer σ β) : w.logged.Behaves w Prod.fst :=
  fun _ _ => rfl

section Reader

variable {r' : Reader τ β} {r : Reader σ β} {f : τ → σ}

theorem BufferCopied.write_behaves (h : r'.Behaves r f) (bbc : BufferCopied β) (t : τ) (len : ℕ) :
    bbc.write r (f t) len =
      ((bbc.write r' t len).1, (bbc.write r' t len).2.1, f (bbc.write r' t len).2.2) := by
  rcases Nat.eq_zero_or_pos bbc.freeSpace with hfull | hfree
  · simp only [write_of_full hfull]
  · simp only [write_of_free hfree, h t]

theorem Buffer.write_behaves (h : r'.Behaves r f) (bb : Buffer β) (t : τ) (len : ℕ) :
    bb.write r (f t) len =
      ((bb.write r' t len).1, (bb.write r' t len).2.1, f (bb.write r' t len).2.2) := by
  cases bb with
  | borrowed bbb => rfl
  | copied bbc => simp only [write, BufferCopied.write_behaves h]

theorem Bstream.writeLoop_behaves (h : r'.Behaves r f) (mem : ℕ → Malloc β) (bs : Bstream β)
    (t : τ) (written remain k : ℕ) :
    bs.writeLoop r (f t) written remain mem k =
      ((bs.writeLoop r' t written remain mem k).1, (bs.writeLoop r' t written remain mem k).2.1,
        f (bs.writeLoop r' t written remain mem k).2.2) := by
  -- the states of the two loops stay related by `f`, and both get the same blocks
  fun_induction writeLoop bs r' t written remain mem k with
  | case1 bs t written remain k hnone =>
    rw [writeLoop]
    split
    next => rfl
    next bb hsome => simp [hnone] at hsome
  | case2 bs t written remain k bb hsome out bs' hstop =>
    rw [writeLoop]
    split
    next hnone => simp [hsome] at hnone
    next bb' hsome' =>
      obtain rfl : bb = bb' := Option.some.inj (hsome.symm.trans hsome')
      simp only [BufferCopied.write_behaves h]
      exact if_pos hstop
  | case3 bs t written remain k bb hsome out bs' hgo ih =>
    rw [writeLoop]
    split
    next hnone => simp [hsome] at hnone
    next bb' hsome' =>
      obtain rfl : bb = bb' := Option.some.inj (hsome.symm.trans hsome')
      simp only [BufferCopied.write_behaves h]
      exact (if_neg hgo).trans ih

theorem Bstream.write_behaves (h : r'.Behaves r f) (mem : ℕ → Malloc β) (bs : Bstream β) (t : τ)
    (len : ℕ) :
    bs.write r (f t) len mem =
      ((bs.write r' t len mem).1, (bs.write r' t len mem).2.1,
        f (bs.write r' t len mem).2.2) := by
  unfold write
  split
  · rfl
  · split
    · exact writeLoop_behaves h mem bs t 0 len 0
    · simp only [Buffer.write_behaves h]
      split
      · rfl
      · exact writeLoop_behaves h mem _ _ _ _ 0

/-- Observing the reader changes neither the result of a write nor the stream. -/
theorem Bstream.write_logged (r : Reader σ β) (mem : ℕ → Malloc β) (bs : Bstream β) (s : σ)
    (log : List (ReaderCall β)) (len : ℕ) :
    bs.write r s len mem =
      ((bs.write r.logged (s, log) len mem).1, (bs.write r.logged (s, log) len mem).2.1,
        (bs.write r.logged (s, log) len mem).2.2.1) :=
  write_behaves r.logged_behaves mem bs (s, log) len

end Reader

section Writer

variable {w' : Writer τ β} {w : Writer σ β} {f : τ → σ}

theorem Buffer.read_behaves (h : w'.Behaves w f) (bb : Buffer β) (t : τ) (len : ℕ) :
    bb.read w (f t) len =
      ((bb.read w' t len).1, (bb.read w' t len).2.1, f (bb.read w' t len).2.2) := by
  cases bb with
  | borrowed bbb => simp only [read, BufferBorrowed.read, h t]
  | copied bbc => simp only [read, BufferCopied.read, h t]

theorem Bstream.readLoop_behaves (h : w'.Behaves w f) (remain : ℕ) (chain : List (Buffer β))
    (t : τ) :
    readLoop w remain chain (f t) =
      ((readLoop w' remain chain t).1, (readLoop w' remain chain t).2.1,
        f (readLoop w' remain chain t).2.2) := by
  induction chain generalizing t with
  | nil => rfl
  | cons bb rest ih =>
    simp only [readLoop, Buffer.read_behaves h, ih]
    split
    · rfl
    · split <;> rfl

/-- Observing the writer changes neither the result of a read nor the stream. -/
theorem Bstream.read_logged (w : Writer σ β) (bs : Bstream β) (s : σ)
    (log : List (WriterCall β)) (len : ℕ) :
    bs.read w s len =
      ((bs.read w.logged (s, log) len).1, (bs.read w.logged (s, log) len).2.1,
        (bs.read w.logged (s, log) len).2.2.1) := by
  have hloop := readLoop_behaves w.logged_behaves len bs.chain (s, log)
  simp only [read, hloop]

end Writer

section Preserved

variable {P : σ → Prop} {r : Reader σ β} {w : Writer σ β}

theorem Buffer.write_preserves (h : ∀ s len, P s → P (r.call s len).2) (bb : Buffer β) (s : σ)
    (len : ℕ) (hs : P s) : P (bb.write r s len).2.2 := by
  cases bb with
  | borrowed bbb => exact hs
  | copied bbc =>
    simp only [write, BufferCopied.write]
    split
    · exact hs
    · exact h s _ hs

theorem Bstream.writeLoop_preserves (h : ∀ s len, P s → P (r.call s len).2)
    (mem : ℕ → Malloc β) (bs : Bstream β) (s : σ) (written remain k : ℕ) (hs : P s) :
    P (bs.writeLoop r s written remain mem k).2.2 := by
  -- the only call of an iteration is the write to its new buffer
  fun_induction writeLoop bs r s written remain mem k with
  | case1 => exact hs
  | case2 bs s written remain k bb hsome out bs' hstop =>
    exact Buffer.write_preserves h (.copied bb) s remain hs
  | case3 bs s written remain k bb hsome out bs' hgo ih =>
    exact ih (Buffer.write_preserves h (.copied bb) s remain hs)

/-- A property of the reader's state that its calls keep is kept by `bstream_write`. -/
theorem Bstream.write_preserves (h : ∀ s len, P s → P (r.call s len).2) (bs : Bstream β)
    (s : σ) (len : ℕ) (mem : ℕ → Malloc β) (hs : P s) : P (bs.write r s len mem).2.2 := by
  simp only [write]
  split
  · exact hs
  · split
    · exact writeLoop_preserves h mem _ _ _ _ _ hs
    · next lbb htail =>
      -- the last buffer calls the reader first, then the loop does
      have hlbb := Buffer.write_preserves h lbb s len hs
      split
      · exact hlbb
      · exact writeLoop_preserves h mem _ _ _ _ _ hlbb

theorem Buffer.read_preserves (h : ∀ s src, P s → P (w.call s src).2) (bb : Buffer β) (s : σ)
    (len : ℕ) (hs : P s) : P (bb.read w s len).2.2 := by
  cases bb with
  | borrowed bbb => exact h s _ hs
  | copied bbc => exact h s _ hs

/-- A property of the writer's state that its calls keep is kept by the loop of
`bstream_read`. -/
theorem Bstream.readLoop_preserves (h : ∀ s src, P s → P (w.call s src).2) (remain : ℕ)
    (chain : List (Buffer β)) (s : σ) (hs : P s) : P (readLoop w remain chain s).2.2 := by
  induction chain generalizing s with
  | nil => exact hs
  | cons bb rest ih =>
    have hbb := Buffer.read_preserves h bb s remain hs
    simp only [readLoop]
    split
    · exact hbb
    · split
      · exact hbb
      · exact ih _ hbb

end Preserved

end Qkmetisc
