import Mathlib.Order.Lattice
import Mathlib.Order.Nat

/-!
# Giving work to a least loaded place

Places that carry loads, in any type of loads with a linear order. One more unit of work goes to a
place that carries least, which a search finds by going through all places once.

## Main definitions

* `scan`: the search.
* `Near`: loads that differ by at most one.
* `RaisesMax`: a change makes a load exceed all loads before it.
* `AddedTo`: work for a least loaded place.

## Main results

* `scan_le`: the search finds a least load.
* `AddedTo.raisesMax`: the greatest load only grows when all loads are the same.
* `AddedTo.near`: loads that differ by at most one still do.
-/

namespace LeastLoaded

variable {ι α : Type*}

section Scan

variable [LinearOrder α]

/-- Going through the places, with the first least loaded one so far and its load. -/
def scan (load : ι → α) : List ι → ι → α → ι
  | [], least, _ => least
  | i :: places, least, minLoad =>
    if load i < minLoad then scan load places i (load i) else scan load places least minLoad

/-- No place gone through carries less than the one found. -/
theorem scan_le (load : ι → α) (places : List ι) (least : ι) :
    load (scan load places least (load least)) ≤ load least ∧
      ∀ i ∈ places, load (scan load places least (load least)) ≤ load i := by
  induction places generalizing least with
  | nil => exact ⟨le_refl _, fun i hi => absurd hi List.not_mem_nil⟩
  | cons j places ih =>
    rw [scan]
    by_cases hlt : load j < load least
    · rw [if_pos hlt]
      obtain ⟨hj, hrest⟩ := ih j
      refine ⟨hj.trans (le_of_lt hlt), fun i hi => ?_⟩
      rcases List.mem_cons.1 hi with rfl | hi
      · exact hj
      · exact hrest i hi
    · rw [if_neg hlt]
      obtain ⟨hleast, hrest⟩ := ih least
      refine ⟨hleast, fun i hi => ?_⟩
      rcases List.mem_cons.1 hi with rfl | hi
      · exact hleast.trans (le_of_not_gt hlt)
      · exact hrest i hi

end Scan

/-- The loads differ by at most one. -/
def Near (load : ι → ℕ) : Prop := ∀ i j, load i ≤ load j + 1

/-- The change makes a load exceed all loads before it. -/
def RaisesMax (load load' : ι → ℕ) : Prop := ∃ i, ∀ j, load j < load' i

/-- A least loaded place gets one more unit of work, and all others keep theirs. -/
structure AddedTo (load load' : ι → ℕ) (i : ι) : Prop where
  least : ∀ j, load i ≤ load j
  added : load' i = load i + 1
  kept : ∀ j, j ≠ i → load' j = load j

variable {load load' : ι → ℕ} {i : ι}

/-- Work for a least loaded place does not raise the greatest load, unless all places already
carry it. -/
theorem AddedTo.raisesMax (h : AddedTo load load' i) (hraises : RaisesMax load load') :
    ∀ j k, load j = load k := by
  obtain ⟨m, hm⟩ := hraises
  have hmi : m = i := by
    by_contra hne
    exact Nat.lt_irrefl _ (h.kept m hne ▸ hm m)
  subst hmi
  -- every load is the least one
  have hload (j : ι) : load j = load m := by
    have hlt := hm j
    rw [h.added] at hlt
    exact Nat.le_antisymm (Nat.le_of_lt_succ hlt) (h.least j)
  exact fun j k => (hload j).trans (hload k).symm

/-- Loads that differ by at most one still do after work for a least loaded place. -/
theorem AddedTo.near (h : AddedTo load load' i) (hnear : Near load) : Near load' := by
  intro j k
  by_cases hj : j = i
  · subst hj
    by_cases hk : k = j
    · subst hk
      exact Nat.le_succ _
    · rw [h.added, h.kept k hk]
      exact Nat.succ_le_succ (h.least k)
  · rw [h.kept j hj]
    by_cases hk : k = i
    · subst hk
      rw [h.added]
      exact (hnear j k).trans (Nat.le_succ _)
    · rw [h.kept k hk]
      exact hnear j k

end LeastLoaded
