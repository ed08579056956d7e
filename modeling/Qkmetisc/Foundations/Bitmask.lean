import Mathlib.Data.List.Nodup
import Mathlib.Logic.Function.Iterate

/-!
# Bit masks as sets of positions

The compiler's `popcount` and `ffs`, and the idiom that clears the lowest set bit, read as
operations on the ascending list `bits x` of the positions set in a mask `x`.

Main results: `bits_clearLowest` (clearing the lowest bit drops the head of the list) and
`ffs_clearLowest_iterate` (after `k` rounds the lowest bit is the `k`-th one).
-/

namespace Bitmask

variable {w : ℕ}

/-- The positions set in a mask, in ascending order. -/
def bits (x : BitVec w) : List ℕ := (List.range w).filter x.getLsbD

/-- The number of bits set. -/
def popcount (x : BitVec w) : ℕ := (List.range w).countP x.getLsbD

/-- One more than the lowest position set, and 0 for the empty mask. -/
def ffs (x : BitVec w) : ℕ :=
  match (List.range w).find? x.getLsbD with
  | some i => i + 1
  | none => 0

/-- The mask without its lowest bit. -/
def clearLowest (x : BitVec w) : BitVec w := x &&& ~~~(1#w <<< (ffs x - 1))

theorem mem_bits {x : BitVec w} {i : ℕ} : i ∈ bits x ↔ i < w ∧ x.getLsbD i = true := by
  simp [bits]

theorem length_bits (x : BitVec w) : (bits x).length = popcount x :=
  List.countP_eq_length_filter.symm

theorem ffs_eq (x : BitVec w) : ffs x = ((bits x).head?.map (· + 1)).getD 0 := by
  unfold ffs bits
  rw [List.head?_filter]
  cases (List.range w).find? x.getLsbD <;> rfl

theorem bits_nodup (x : BitVec w) : (bits x).Nodup :=
  List.Nodup.filter _ List.nodup_range

/-- Only the empty mask has no bits. -/
theorem popcount_pos {x : BitVec w} (h : x ≠ 0) : 0 < popcount x := by
  by_contra hzero
  apply h
  have hnil : bits x = [] := by
    apply List.length_eq_zero_iff.1
    rw [length_bits]
    omega
  -- a mask without positions has all bits clear
  apply BitVec.eq_of_getLsbD_eq
  intro i hi
  have : i ∉ bits x := by simp [hnil]
  simpa [mem_bits, hi] using this

theorem getLsbD_one_shiftLeft (k i : ℕ) :
    (1#w <<< k).getLsbD i = (decide (k < w) && decide (k = i)) := by
  rw [← BitVec.twoPow_eq, BitVec.getLsbD_twoPow]

/-- Clearing the lowest bit drops the first position. -/
theorem bits_clearLowest (x : BitVec w) : bits (clearLowest x) = (bits x).tail := by
  unfold clearLowest
  rw [ffs_eq]
  cases hx : bits x with
  | nil =>
    -- an empty mask stays empty
    apply List.eq_nil_iff_forall_not_mem.2
    intro i hi
    obtain ⟨hw, hset⟩ := mem_bits.1 hi
    rw [BitVec.getLsbD_and, Bool.and_eq_true] at hset
    have : i ∈ bits x := mem_bits.2 ⟨hw, hset.1⟩
    simp [hx] at this
  | cons j js =>
    have hnodup : (j :: js).Nodup := hx ▸ bits_nodup x
    have hj : j < w := (mem_bits.1 (hx ▸ List.mem_cons_self : j ∈ bits x)).1
    -- clearing removes exactly the position `j`, the head of the list
    have hcleared : bits (x &&& ~~~(1#w <<< j)) = (bits x).filter (· != j) := by
      unfold bits
      rw [List.filter_filter]
      apply List.filter_congr
      intro i hi
      have hi : i < w := List.mem_range.1 hi
      rw [BitVec.getLsbD_and, BitVec.getLsbD_not, getLsbD_one_shiftLeft]
      by_cases hij : i = j
      · simp [hij, hj]
      · simp [hi, hij, Ne.symm hij]
    have hne : ∀ i ∈ js, i ≠ j := fun i hi hij => (List.nodup_cons.1 hnodup).1 (hij ▸ hi)
    show bits (x &&& ~~~(1#w <<< j)) = js
    rw [hcleared, hx, List.filter_cons_of_neg (by simp), List.filter_eq_self]
    intro i hi
    simpa using hne i hi

theorem bits_clearLowest_iterate (x : BitVec w) (k : ℕ) :
    bits (clearLowest^[k] x) = (bits x).drop k := by
  induction k with
  | zero => rfl
  | succ k ih => rw [Function.iterate_succ_apply', bits_clearLowest, ih, List.tail_drop]

/-- After `k` rounds the lowest bit is the `k`-th position set. -/
theorem ffs_clearLowest_iterate {x : BitVec w} {k : ℕ} (hk : k < popcount x) :
    ∃ i, i < w ∧ x.getLsbD i = true ∧ ffs (clearLowest^[k] x) = i + 1 := by
  have hlen : k < (bits x).length := by rwa [length_bits]
  obtain ⟨hi, hset⟩ := mem_bits.1 (List.getElem_mem hlen)
  refine ⟨(bits x)[k], hi, hset, ?_⟩
  rw [ffs_eq, bits_clearLowest_iterate, List.head?_drop, List.getElem?_eq_getElem hlen]
  rfl

end Bitmask
