import Mathlib.Data.List.Perm.Basic
import Mathlib.Logic.Function.Basic

/-!
# Reference-counted blocks

Blocks of memory that are shared by any number of holders and freed with the last one. Blocks are
known by the order of their allocation, and who holds them is a list in which a block stands once
for each of its holders.

## Main definitions

* `Heap`: the allocated blocks, and the blocks freed so far.
* `Heap.Extends`: what is still allocated has kept a part of what it had.
* `Counts`: every block's counter is the number of its holders.

## Main results

* `Counts.allocate`, `Counts.take`, `Counts.drop`, `Counts.free`: what a new holder, and one holder
  less, ask of the counter.
* `Counts.freed_iff`: a block has been freed exactly if it has no holder left, and once.
-/

namespace RefCount

/-- Blocks in a memory. -/
structure Heap (α : Type*) where
  /-- The allocated blocks. -/
  blocks : ℕ → Option α
  /-- How many blocks have been allocated so far. -/
  made : ℕ
  /-- The blocks freed so far. -/
  freed : List ℕ

namespace Heap

variable {α : Type*}

/-- No blocks. -/
def empty : Heap α where
  blocks _ := none
  made := 0
  freed := []

/-- A new block, whose number is `made`. -/
def allocate (h : Heap α) (block : α) : Heap α where
  blocks := Function.update h.blocks h.made (some block)
  made := h.made + 1
  freed := h.freed

/-- The heap with another block in the place of `b`. -/
def set (h : Heap α) (b : ℕ) (block : α) : Heap α :=
  { h with blocks := Function.update h.blocks b (some block) }

/-- The heap without the block `b`. -/
def free (h : Heap α) (b : ℕ) : Heap α :=
  { h with blocks := Function.update h.blocks b none, freed := b :: h.freed }

variable {h : Heap α} {b c : ℕ} {block block' : α}

/-- Another block in the place of an allocated one leaves the same places allocated. -/
theorem exists_set (hblock : h.blocks b = some block) :
    (∃ other, (h.set b block').blocks c = some other) ↔ ∃ other, h.blocks c = some other := by
  by_cases heq : c = b
  · subst heq
    simp [set, hblock]
  · simp [set, heq]

theorem set_eq_none_iff (hblock : h.blocks b = some block) :
    (h.set b block').blocks c = none ↔ h.blocks c = none := by
  by_cases heq : c = b
  · subst heq
    simp [set, hblock]
  · simp [set, heq]

/-- A heap that comes later. A part of the blocks, which `part` reads, never changes: what is still
allocated of the blocks there were has it as before. -/
structure Extends {β : Type*} (part : α → β) (h h' : Heap α) : Prop where
  made : h.made ≤ h'.made
  block : ∀ b < h.made, ∀ block', h'.blocks b = some block' →
    ∃ block, h.blocks b = some block ∧ part block' = part block

namespace Extends

variable {β : Type*} {part : α → β} {h' h'' : Heap α}

theorem refl (h : Heap α) : Extends part h h where
  made := Nat.le_refl _
  block := fun _ _ block hblock => ⟨block, hblock, rfl⟩

theorem trans (hext : Extends part h h') (hext' : Extends part h' h'') : Extends part h h'' where
  made := Nat.le_trans hext.made hext'.made
  block := by
    intro b hb block'' hblock''
    obtain ⟨block', hblock', hpart'⟩ :=
      hext'.block b (Nat.lt_of_lt_of_le hb hext.made) block'' hblock''
    obtain ⟨block, hblock, hpart⟩ := hext.block b hb block' hblock'
    exact ⟨block, hblock, hpart'.trans hpart⟩

theorem allocate (h : Heap α) (block : α) : Extends part h (h.allocate block) where
  made := Nat.le_succ _
  block := by
    intro b hb block' hblock'
    have hsame : (h.allocate block).blocks b = h.blocks b :=
      Function.update_of_ne (Nat.ne_of_lt hb) _ _
    rw [hsame] at hblock'
    exact ⟨block', hblock', rfl⟩

/-- Another block may come into the place of one that has the same part. -/
theorem set (hblock : h.blocks b = some block) (hpart : part block' = part block) :
    Extends part h (h.set b block') where
  made := Nat.le_refl _
  block := by
    intro c _ other hother
    by_cases heq : c = b
    · subst heq
      obtain rfl : block' = other := by simpa [Heap.set] using hother
      exact ⟨block, hblock, hpart⟩
    · have hsame : (h.set b block').blocks c = h.blocks c := Function.update_of_ne heq _ _
      rw [hsame] at hother
      exact ⟨other, hother, rfl⟩

theorem free (h : Heap α) (b : ℕ) : Extends part h (h.free b) where
  made := Nat.le_refl _
  block := by
    intro c _ other hother
    by_cases heq : c = b
    · subst heq
      simp [Heap.free] at hother
    · have hsame : (h.free b).blocks c = h.blocks c := Function.update_of_ne heq _ _
      rw [hsame] at hother
      exact ⟨other, hother, rfl⟩

end Extends

end Heap

variable {α : Type*}

/-- The counters of the blocks are right for these holders. -/
structure Counts (counter : α → ℕ) (h : Heap α) (holders : List ℕ) : Prop where
  held : ∀ b ∈ holders, ∃ block, h.blocks b = some block
  counter : ∀ b block, h.blocks b = some block → b ∈ holders ∧ counter block = holders.count b
  made : ∀ b block, h.blocks b = some block → b < h.made
  freed : ∀ b, h.freed.count b = if b < h.made ∧ h.blocks b = none then 1 else 0

namespace Counts

variable {counter : α → ℕ} {h : Heap α} {holders : List ℕ} {b : ℕ} {block : α}

theorem empty (counter : α → ℕ) : Counts counter Heap.empty [] where
  held := by simp
  counter := by simp [Heap.empty]
  made := by simp [Heap.empty]
  freed := by simp [Heap.empty]

/-- The order of the holders does not matter. -/
theorem perm (hc : Counts counter h holders) {holders' : List ℕ} (hperm : holders.Perm holders') :
    Counts counter h holders' where
  held b hb := hc.held b (hperm.mem_iff.2 hb)
  counter b block hblock := by
    obtain ⟨hmem, hcount⟩ := hc.counter b block hblock
    exact ⟨hperm.mem_iff.1 hmem, hcount.trans (hperm.count_eq b)⟩
  made := hc.made
  freed := hc.freed

/-- A block that has not been allocated yet has no holder. -/
theorem notMem_of_le (hc : Counts counter h holders) (hb : h.made ≤ b) : b ∉ holders := by
  intro hmem
  obtain ⟨block, hblock⟩ := hc.held b hmem
  exact absurd (hc.made b block hblock) (Nat.not_lt.2 hb)

/-- A new block with counter 1 has its first holder. -/
theorem allocate (hc : Counts counter h holders) (hone : counter block = 1) :
    Counts counter (h.allocate block) (h.made :: holders) where
  held b hb := by
    by_cases hnew : b = h.made
    · exact ⟨block, by simp [Heap.allocate, hnew]⟩
    · obtain ⟨block', hblock'⟩ := hc.held b ((List.mem_cons.1 hb).resolve_left hnew)
      exact ⟨block', by simpa [Heap.allocate, hnew] using hblock'⟩
  counter b block' hblock' := by
    by_cases hnew : b = h.made
    · subst hnew
      obtain rfl : block = block' := by simpa [Heap.allocate] using hblock'
      have hnone : holders.count h.made = 0 :=
        List.count_eq_zero.2 (hc.notMem_of_le (Nat.le_refl _))
      exact ⟨List.mem_cons_self, by rw [List.count_cons_self, hnone, hone]⟩
    · have hold := hc.counter b block' (by simpa [Heap.allocate, hnew] using hblock')
      exact ⟨List.mem_cons_of_mem _ hold.1, by rw [List.count_cons_of_ne (Ne.symm hnew), hold.2]⟩
  made b block' hblock' := by
    by_cases hnew : b = h.made
    · exact hnew ▸ Nat.lt_succ_self _
    · exact Nat.lt_succ_of_lt (hc.made b block' (by simpa [Heap.allocate, hnew] using hblock'))
  freed b := by
    have hold := hc.freed b
    by_cases hnew : b = h.made
    · subst hnew
      simpa [Heap.allocate] using hold
    · -- every other block was allocated before exactly if it is now
      have hlt : b < h.made + 1 ↔ b < h.made := by omega
      simp [Heap.allocate, hnew, hlt, hold]

/-- One more holder of a block. -/
theorem take (hc : Counts counter h holders) (hblock : h.blocks b = some block) {block' : α}
    (hmore : counter block' = counter block + 1) :
    Counts counter (h.set b block') (b :: holders) where
  held c hmem := by
    rw [Heap.exists_set hblock]
    rcases List.mem_cons.1 hmem with rfl | hmem
    · exact ⟨block, hblock⟩
    · exact hc.held c hmem
  counter c other hother := by
    by_cases heq : c = b
    · subst heq
      obtain rfl : block' = other := by simpa [Heap.set] using hother
      exact ⟨List.mem_cons_self, by rw [List.count_cons_self, hmore, (hc.counter c block hblock).2]⟩
    · have hold := hc.counter c other (by simpa [Heap.set, heq] using hother)
      exact ⟨List.mem_cons_of_mem _ hold.1, by rw [List.count_cons_of_ne (Ne.symm heq), hold.2]⟩
  made c other hother := by
    obtain ⟨before, hbefore⟩ := (Heap.exists_set hblock).1 ⟨other, hother⟩
    exact hc.made c before hbefore
  freed c := by
    simp only [Heap.set_eq_none_iff hblock]
    exact hc.freed c

/-- One holder less of a block that has others. -/
theorem drop (hc : Counts counter h (b :: holders)) (hblock : h.blocks b = some block)
    (hothers : counter block ≠ 1) {block' : α} (hless : counter block' = counter block - 1) :
    Counts counter (h.set b block') holders := by
  have hcount := (hc.counter b block hblock).2
  rw [List.count_cons_self] at hcount
  refine ⟨fun c hmem => ?_, fun c other hother => ?_, fun c other hother => ?_, fun c => ?_⟩
  · rw [Heap.exists_set hblock]
    exact hc.held c (List.mem_cons_of_mem _ hmem)
  · by_cases heq : c = b
    · subst heq
      obtain rfl : block' = other := by simpa [Heap.set] using hother
      -- the counter was not 1, so that a holder is left
      exact ⟨List.count_pos_iff.1 (by omega), by omega⟩
    · have hold := hc.counter c other (by simpa [Heap.set, heq] using hother)
      rw [List.count_cons_of_ne (Ne.symm heq)] at hold
      exact ⟨(List.mem_cons.1 hold.1).resolve_left heq, hold.2⟩
  · obtain ⟨before, hbefore⟩ := (Heap.exists_set hblock).1 ⟨other, hother⟩
    exact hc.made c before hbefore
  · simp only [Heap.set_eq_none_iff hblock]
    exact hc.freed c

/-- The last holder of a block is gone, and the block with it. -/
theorem free (hc : Counts counter h (b :: holders)) (hblock : h.blocks b = some block)
    (hlast : counter block = 1) : Counts counter (h.free b) holders := by
  have hcount := (hc.counter b block hblock).2
  rw [List.count_cons_self] at hcount
  -- the counter was 1, so that no other holder is left
  have hnone : b ∉ holders := List.count_eq_zero.1 (by omega)
  refine ⟨fun c hmem => ?_, fun c other hother => ?_, fun c other hother => ?_, fun c => ?_⟩
  · have heq : c ≠ b := fun heq => hnone (heq ▸ hmem)
    obtain ⟨other, hother⟩ := hc.held c (List.mem_cons_of_mem _ hmem)
    exact ⟨other, by simpa [Heap.free, heq] using hother⟩
  · have heq : c ≠ b := by
      rintro rfl
      simp [Heap.free] at hother
    have hold := hc.counter c other (by simpa [Heap.free, heq] using hother)
    rw [List.count_cons_of_ne (Ne.symm heq)] at hold
    exact ⟨(List.mem_cons.1 hold.1).resolve_left heq, hold.2⟩
  · have heq : c ≠ b := by
      rintro rfl
      simp [Heap.free] at hother
    exact hc.made c other (by simpa [Heap.free, heq] using hother)
  · have hold := hc.freed c
    by_cases heq : c = b
    · subst heq
      have hmade := hc.made c block hblock
      simp_all [Heap.free]
    · simp [Heap.free, heq, Ne.symm heq, hold]

/-- A block that was allocated once is freed exactly if it has no holder any more. -/
theorem freed_iff (hc : Counts counter h holders) (hb : b < h.made) :
    (b ∉ holders ↔ h.blocks b = none) ∧ (b ∉ holders ↔ h.freed.count b = 1) := by
  have hnone : b ∉ holders ↔ h.blocks b = none := by
    rw [Option.eq_none_iff_forall_ne_some]
    constructor
    · exact fun hmem block hblock => hmem (hc.counter b block hblock).1
    · intro hblocks hmem
      obtain ⟨block, hblock⟩ := hc.held b hmem
      exact hblocks block hblock
  refine ⟨hnone, ?_⟩
  rw [hnone, hc.freed b]
  by_cases hblock : h.blocks b = none
  · simp [hb, hblock]
  · simp [hblock]

end Counts

end RefCount
