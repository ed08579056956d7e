import Qkmetisc.Bstream.Queue

/-!
# The length counter

`total_len` is meant to be the number of bytes that can be read. It is in every state of a run
exactly when no call of `bstream_write` leaves its bytes in the last buffer alone: there the
source returns without adding them (`Bstream.UncountedWrite`).

## Main definitions

* `LengthRight`: the counter, `bstream_len` and `bstream_empty` are right, and no read takes
  more than the counter says.
* `CountsWrite`: the condition on one call.

## Main results

* `exec_lengthRight_iff`: from a state with the right length, one call keeps it iff it counts.
* `lengthRight_throughout_iff`: the same over runs.
* `not_lengthRight_two_writes`: two writes of one byte each.
-/

namespace Qkmetisc

variable {β : Type}

namespace Bstream

/-- The lengths of a stream are right. -/
structure LengthRight (bs : Bstream β) : Prop where
  /-- `total_len` is the sum of the unread lengths of the buffers. -/
  sum : bs.totalLen = (bs.chain.map Buffer.len).sum
  /-- `bstream_len` is the number of readable bytes. -/
  len_eq : bs.len = bs.content.length
  /-- `bstream_empty` says whether nothing can be read. -/
  empty_iff : bs.empty = true ↔ bs.content = []
  /-- No read subtracts more than there is. -/
  no_wrap : ∀ {σ : Type} (w : Writer σ β) (s : σ) (n : ℕ),
    (readLoop w n bs.chain s).1 ≤ bs.totalLen

/-- The call is not a write that leaves its bytes uncounted in the last buffer. -/
def CountsWrite (bs : Bstream β) : StreamOp β → Prop
  | .write r s len _ => ¬ bs.UncountedWrite r s len
  | _ => True

/-- No read takes more than the content. -/
theorem readLoop_le_content {σ : Type} {bs : Bstream β} (h : bs.WF) (w : Writer σ β) (s : σ)
    (n : ℕ) : (readLoop w n bs.chain s).1 ≤ bs.content.length := by
  obtain ⟨calls, -, hspec⟩ := readLoop_spec w n h s []
  rw [readLoop_behaves w.logged_behaves n bs.chain (s, []), hspec.res_eq, content,
    ← hspec.content, List.length_append]
  exact Nat.le_add_right _ _

/-- In a valid stream the counter decides whether all lengths are right. -/
theorem lengthRight_iff {bs : Bstream β} (h : bs.WF) :
    bs.LengthRight ↔ bs.totalLen = bs.content.length := by
  constructor
  · exact fun hr => hr.len_eq
  · intro htotal
    refine ⟨htotal.trans h.length_content, htotal, ?_, ?_⟩
    · simp [empty, htotal]
    · intro σ w s n
      rw [htotal]
      exact readLoop_le_content h w s n

/-- From a stream with the right length, one call keeps the length right iff it counts what it
writes. -/
theorem exec_lengthRight_iff (bs : Bstream β) (op : StreamOp β)
    (h : bs.Valid ∧ bs.LengthRight) :
    ((bs.exec op).Valid ∧ (bs.exec op).LengthRight) ↔ bs.CountsWrite op := by
  obtain ⟨hvalid, hright⟩ := h
  have hvalid' := exec_valid bs op hvalid
  have htotal := (lengthRight_iff hvalid.wf).1 hright
  have hlt := hvalid.lt
  have hlt' := hvalid'.lt
  -- what is left to show is about the counter alone
  rw [and_iff_right hvalid', lengthRight_iff hvalid'.wf]
  cases op with
  | writeBorrow buf mem =>
    have hspec := writeBorrow_spec hvalid.wf hlt buf mem
    simp only [exec, CountsWrite, iff_true]
    rw [hspec.totalLen, hspec.content, List.length_append, ← hspec.res_eq, htotal]
    exact Nat.mod_eq_of_lt (htotal ▸ hspec.fits)
  | write r s len mem =>
    have hspec := write_calls hvalid.wf hlt r s len mem
    have hlen : (bs.write r s len mem).2.1.content.length =
        bs.content.length + (bs.write r s len mem).1 := by
      rw [hspec.content, List.length_append, hspec.res_eq]
    simp only [exec, CountsWrite]
    rw [hlen]
    -- an uncounted write makes the content longer than the counter
    by_cases hu : bs.UncountedWrite r s len
    · obtain ⟨hsame, hpos⟩ := hspec.not_counted hu
      rw [hsame, htotal]
      simp only [hu, not_true_eq_false, iff_false]
      omega
    · rw [hspec.counted hu, htotal]
      simp only [hu, not_false_eq_true, iff_true]
      exact Nat.mod_eq_of_lt (htotal ▸ hspec.fits)
  | read w s len =>
    have hspec := read_calls hvalid.wf w s len
    have hsplit : bs.content.length =
        (deliveredBytes (bs.writerCalls w s len)).length +
          (bs.read w s len).2.1.content.length := by
      rw [← hspec.content, List.length_append]
    simp only [exec, CountsWrite, iff_true]
    -- no reduction takes place, since less is read than there is
    have hres : (bs.read w s len).1 = (deliveredBytes (bs.writerCalls w s len)).length := by
      rw [hspec.res_eq]
      exact Nat.mod_eq_of_lt (by omega)
    rw [hspec.totalLen, hres]
    have hsub : bs.totalLen + (SIZE_T_RANGE - (deliveredBytes (bs.writerCalls w s len)).length) =
        (bs.read w s len).2.1.content.length + SIZE_T_RANGE := by omega
    rw [hsub, Nat.add_mod_right]
    exact Nat.mod_eq_of_lt (by omega)
  | flush => simp [exec, flush, content, CountsWrite]

end Bstream

/-- The lengths of the stream are right in every state of a run exactly when every call of the
run counts what it writes. -/
theorem lengthRight_throughout_iff (ops : List (StreamOp β)) :
    InputMachine.Always Bstream.exec Bstream.LengthRight Bstream.create ops ↔
      InputMachine.Meets Bstream.exec Bstream.CountsWrite Bstream.create ops := by
  have hvalid : InputMachine.Always Bstream.exec Bstream.Valid Bstream.create ops :=
    InputMachine.always_of_step Bstream.exec_valid ops Bstream.valid_create
  have hcreate : (Bstream.create : Bstream β).LengthRight :=
    (Bstream.lengthRight_iff Bstream.wf_create).2 rfl
  rw [← InputMachine.always_iff_meets Bstream.exec_lengthRight_iff ops
    ⟨Bstream.valid_create, hcreate⟩]
  exact ⟨fun h => hvalid.and Bstream.exec h, fun h => h.mono Bstream.exec fun _ hs => hs.2⟩

/-- A block of zeros for every allocation. -/
def zeroBlocks : ℕ → Malloc ℕ :=
  fun _ => some ⟨List.replicate BSTREAM_BUFFER_COPIED_SIZE 0, List.length_replicate⟩

/-- Two writes of one byte each. -/
def twoWrites : List (StreamOp ℕ) :=
  [.write memreader [1] 1 zeroBlocks, .write memreader [2] 1 zeroBlocks]

/-- After two writes of one byte each, two bytes can be read and the counter says one. -/
theorem not_lengthRight_two_writes :
    ¬ (InputMachine.run Bstream.exec Bstream.create twoWrites).LengthRight := by
  intro h
  have hlen := h.len_eq
  revert hlen
  decide +kernel

end Qkmetisc
