import Mathlib.Data.List.Basic

/-!
# Stores that are checked

Elements are stored in a buffer one after the other. A store at a position that the buffer does
not have ends the program.

* `store`, `storeAll`: one element, and one after the other.
* `storeAll_of_le`, `le_of_storeAll`: a piece can be stored exactly if it fits, and it then stands
  between what was before it and what was behind it.
-/

namespace CheckedStore

variable {β : Type*}

/-- The element at position `i` of a buffer is set, none if there is no such position. -/
def store (buf : List β) (i : ℕ) (b : β) : Option (List β) :=
  if i < buf.length then some (buf.set i b) else none

/-- Elements are stored one after the other, from position `i` on. -/
def storeAll (buf : List β) (i : ℕ) : List β → Option (List β)
  | [] => some buf
  | b :: bs => (store buf i b).bind fun buf => storeAll buf (i + 1) bs

variable {buf buf' data : List β} {i : ℕ}

theorem store_eq_some_iff {b : β} :
    store buf i b = some buf' ↔ i < buf.length ∧ buf.set i b = buf' := by
  unfold store
  split
  next hi => simp [hi]
  next hi => simp [hi]

theorem storeAll_singleton (b : β) : storeAll buf i [b] = store buf i b := by
  cases h : store buf i b with
  | none => simp [storeAll, h]
  | some next => simp [storeAll, h]

/-- Inside the buffer, storing one by one is storing the whole piece. -/
theorem storeAll_of_le (h : i + data.length ≤ buf.length) :
    storeAll buf i data = some (buf.take i ++ data ++ buf.drop (i + data.length)) := by
  induction data generalizing buf i with
  | nil => simp [storeAll]
  | cons b bs ih =>
    rw [List.length_cons] at h
    have hi : i < buf.length := by omega
    rw [storeAll, store_eq_some_iff.2 ⟨hi, rfl⟩, Option.bind_some]
    have hrest := ih (show i + 1 + bs.length ≤ (buf.set i b).length by rw [List.length_set]; omega)
    -- the first element stands where the rest of the piece begins
    have hlen : (buf.take i).length = i := List.length_take_of_le (Nat.le_of_lt hi)
    have htake : (buf.set i b).take (i + 1) = buf.take i ++ [b] := by
      rw [List.take_set, List.take_succ_eq_append_getElem hi,
        List.set_append_right _ _ (Nat.le_of_eq hlen), hlen, Nat.sub_self, List.set_cons_zero]
    have hdrop : (buf.set i b).drop (i + 1 + bs.length) = buf.drop (i + (bs.length + 1)) := by
      rw [List.drop_set_of_lt (by omega)]
      congr 1
      omega
    simpa [htake, hdrop] using hrest

/-- What could be stored fits. -/
theorem le_of_storeAll (hdata : data ≠ []) (h : storeAll buf i data = some buf') :
    i + data.length ≤ buf.length := by
  induction data generalizing buf i with
  | nil => exact absurd rfl hdata
  | cons b bs ih =>
    obtain ⟨next, hstore, hrest⟩ := Option.bind_eq_some_iff.1 h
    obtain ⟨hi, rfl⟩ := store_eq_some_iff.1 hstore
    by_cases hbs : bs = []
    · subst hbs
      exact hi
    · have hle := ih hbs hrest
      rw [List.length_set] at hle
      rw [List.length_cons]
      omega

end CheckedStore
