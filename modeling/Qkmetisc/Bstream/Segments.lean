import Qkmetisc.Bstream.Content

/-!
# Borrowed segments

Which bytes of a stream still lie in borrowed memory. Only `bstream_write_borrow` adds such bytes;
reads and flushes take them away, and a copying write leaves them alone.

## Main definitions

* `Bstream.lent`: the unread bytes of the borrowed buffers.

## Main results

* `lent_writeBorrow`, `lent_write`, `lent_readFd`: what the operations do to the borrowed bytes.
-/

namespace Qkmetisc

variable {β σ : Type}

/-- The unread bytes of a buffer that lie in borrowed memory. -/
def Buffer.lent : Buffer β → List β
  | .borrowed bbb => loadAt bbb.borrowedBytes bbb.offset bbb.len
  | .copied _ => []

/-- The unread bytes of a stream that lie in borrowed memory. -/
def Bstream.lent (bs : Bstream β) : List β := bs.chain.flatMap Buffer.lent

/-- What is left of a part of a block after its first bytes. -/
theorem loadAt_drop (block : List β) (pos n len : ℕ) :
    loadAt block (pos + n) (len - n) = (loadAt block pos len).drop n := by
  rw [loadAt, loadAt, List.drop_take, List.drop_drop]

/-- A write to a buffer leaves what it has borrowed alone. -/
theorem Buffer.lent_write (bb : Buffer β) (r : Reader σ β) (s : σ) (len : ℕ) :
    (bb.write r s len).2.1.lent = bb.lent := by
  cases bb with
  | borrowed bbb => rfl
  | copied bbc => rfl

/-- A read leaves a part of what was borrowed. -/
theorem Buffer.lent_read (bb : Buffer β) (w : Writer σ β) (s : σ) (len : ℕ) :
    (bb.read w s len).2.1.lent ⊆ bb.lent := by
  cases bb with
  | borrowed bbb =>
    show loadAt bbb.borrowedBytes (bbb.offset + (bbb.read w s len).1)
      (bbb.len - (bbb.read w s len).1) ⊆ loadAt bbb.borrowedBytes bbb.offset bbb.len
    rw [loadAt_drop]
    exact List.drop_subset _ _
  | copied bbc => exact List.Subset.refl []

namespace Bstream

/-- Borrowed bytes are among the bytes that can be read. -/
theorem lent_subset_content (bs : Bstream β) : bs.lent ⊆ bs.content := by
  intro x hx
  obtain ⟨bb, hbb, hx⟩ := List.mem_flatMap.1 hx
  refine List.mem_flatMap.2 ⟨bb, hbb, ?_⟩
  cases bb with
  | borrowed bbb => exact hx
  | copied bbc => exact absurd hx List.not_mem_nil

/-- Borrowing adds the bytes of the new segment at most. -/
theorem lent_writeBorrow (bs : Bstream β) (buf : List β) (mem : Bool) :
    (bs.writeBorrow buf mem).2.lent ⊆ bs.lent ++ buf := by
  unfold writeBorrow
  split
  · exact List.subset_append_left _ _
  · cases mem with
    | false => exact List.subset_append_left _ _
    | true =>
      simp [BufferBorrowed.create, lent, Buffer.lent, loadAt]

/-- A new copied buffer at the end adds nothing that is borrowed. -/
theorem lent_append_copied (bs : Bstream β) (bbc : BufferCopied β) :
    lent { bs with chain := bs.chain ++ [.copied bbc] } = bs.lent := by
  simp [lent, Buffer.lent]

/-- The buffers the loop of `bstream_write` appends have nothing borrowed. -/
theorem lent_writeLoop (bs : Bstream β) (r : Reader σ β) (s : σ) (written remain : ℕ)
    (mem : ℕ → Malloc β) (k : ℕ) : (bs.writeLoop r s written remain mem k).2.1.lent = bs.lent := by
  fun_induction writeLoop bs r s written remain mem k with
  | case1 bs s written remain k hnone => rfl
  | case2 bs s written remain k bb hsome out bs' hstop => exact lent_append_copied bs out.2.1
  | case3 bs s written remain k bb hsome out bs' hgo ih =>
    exact ih.trans (lent_append_copied bs out.2.1)

/-- A copying write leaves the borrowed bytes alone. -/
theorem lent_write (bs : Bstream β) (r : Reader σ β) (s : σ) (len : ℕ) (mem : ℕ → Malloc β) :
    (bs.write r s len mem).2.1.lent = bs.lent := by
  unfold write
  split
  · rfl
  · split
    next hnone => exact lent_writeLoop bs r s 0 len mem 0
    next lbb hlast =>
      obtain ⟨front, hchain⟩ := List.getLast?_eq_some_iff.1 hlast
      -- the last buffer keeps what it has borrowed
      have htail : lent { bs with
          chain := bs.chain.dropLast ++ [(lbb.write r s len).2.1] } = bs.lent := by
        simp [lent, hchain, Buffer.lent_write]
      simp only
      split
      · exact htail
      · exact (lent_writeLoop _ _ _ _ _ _ _).trans htail

theorem lent_writeMem (bs : Bstream β) (src : List β) (mem : ℕ → Malloc β) :
    (bs.writeMem src mem).2.lent = bs.lent := lent_write _ _ _ _ _

/-- The loop of `bstream_read` leaves a part of what was borrowed. -/
theorem lent_readLoop (w : Writer σ β) (remain : ℕ) (chain : List (Buffer β)) (s : σ) :
    (readLoop w remain chain s).2.1.flatMap Buffer.lent ⊆ chain.flatMap Buffer.lent := by
  induction chain generalizing s with
  | nil => exact List.Subset.refl []
  | cons bb rest ih =>
    have hrest : rest.flatMap Buffer.lent ⊆ (bb :: rest).flatMap Buffer.lent := by
      simp only [List.flatMap_cons]
      exact List.subset_append_right _ _
    unfold readLoop
    dsimp only
    split
    · simp only [List.flatMap_cons]
      exact List.append_subset.2 ⟨List.Subset.trans (Buffer.lent_read bb w s remain)
        (List.subset_append_left _ _), List.subset_append_right _ _⟩
    · split
      · exact hrest
      · exact List.Subset.trans (ih _) hrest

theorem lent_readFd (bs : Bstream β) (written : ℕ → Option ℕ) (len : ℕ) :
    (bs.readFd written len).2.1.lent ⊆ bs.lent := lent_readLoop _ _ _ _

end Bstream

end Qkmetisc
