import Mathlib.Data.List.Chain
import Mathlib.Data.List.Nodup
import Mathlib.Logic.Function.Basic

/-!
# Circular doubly linked lists

Nodes with a link to the node before and the node behind them, as in a list that runs in a circle.
The links of all nodes are one store, and a ring is the list of its nodes from any of them on.

## Main definitions

* `Links`, with `init`, `insertBefore` and `unlink`: the store and the ways to change it.
* `IsRing`: some nodes are linked in a circle.
* `findFrom`: the first node that passes a test, going round once.
* `goRound`: the nodes that are met, going round once.

## Main results

* `IsRing.insertBefore`, `IsRing.unlink`: the changes are those of a list.
* `IsRing.insertBefore_frame`, `IsRing.unlink_frame`: all other nodes keep their links.
* `IsRing.linked_next`, `IsRing.linked_prev`: the links of a ring are inverse to each other.
* `IsRing.findFrom`: going round finds what a search of the list finds.
* `IsRing.goRound`: going round meets the nodes of the list.
-/

namespace LinkedRing

/-- The links of all nodes. -/
structure Links (ν : Type*) where
  prev : ν → ν
  next : ν → ν

variable {ν : Type*}

/-- One node comes right before the other. -/
def Links.Linked (links : Links ν) (x y : ν) : Prop := links.next x = y ∧ links.prev y = x

/-- The nodes are different and linked in a circle. -/
structure IsRing (links : Links ν) (l : List ν) : Prop where
  nodup : l.Nodup
  closed : ∀ h t, l = h :: t → (h :: (t ++ [h])).IsChain links.Linked

section Basic

variable {links links' : Links ν} {l l₁ l₂ : List ν} {h a b : ν}

theorem isRing_nil (links : Links ν) : IsRing links [] := ⟨List.nodup_nil, by simp⟩

/-- A chain, where the relation only has to be carried over between neighbours. -/
theorem isChain_mono {R S : ν → ν → Prop} (hl : l.IsChain R)
    (hRS : ∀ x ∈ l.dropLast, ∀ y ∈ l.tail, R x y → S x y) : l.IsChain S := by
  induction hl with
  | nil => exact .nil
  | singleton a => exact .singleton a
  | @cons_cons a b l hab hl ih =>
    rw [List.dropLast_cons_cons] at hRS
    refine .cons_cons (hRS a List.mem_cons_self b List.mem_cons_self hab) (ih ?_)
    exact fun x hx y hy => hRS x (List.mem_cons_of_mem _ hx) y (List.mem_cons_of_mem _ hy)

/-- A ring only depends on the links of its nodes. -/
theorem IsRing.congr (hring : IsRing links l)
    (heq : ∀ n ∈ l, links'.prev n = links.prev n ∧ links'.next n = links.next n) :
    IsRing links' l := by
  refine ⟨hring.nodup, ?_⟩
  rintro h t rfl
  refine List.IsChain.imp_of_mem_imp (fun x y hx hy hxy => ?_) (hring.closed h t rfl)
  have hmem {n : ν} (hn : n ∈ h :: (t ++ [h])) : n ∈ h :: t := by
    rw [← List.cons_append, List.mem_append, List.mem_singleton] at hn
    rcases hn with hn | rfl
    · exact hn
    · exact List.mem_cons_self
  exact ⟨(heq x (hmem hx)).2.trans hxy.1, (heq y (hmem hy)).1.trans hxy.2⟩

/-- A ring may be entered at its next node. -/
theorem IsRing.rotate_one (hring : IsRing links (h :: l)) : IsRing links (l ++ [h]) := by
  refine ⟨List.nodup_append_comm.1 hring.nodup, ?_⟩
  intro a t heq
  rcases l with _ | ⟨b, l⟩
  · obtain ⟨rfl, rfl⟩ : h = a ∧ [] = t := by simpa using heq
    exact hring.closed h [] rfl
  · obtain ⟨rfl, rfl⟩ : b = a ∧ l ++ [h] = t := by simpa using heq
    have hclosed := hring.closed h (b :: l) rfl
    rw [List.cons_append, List.isChain_cons_cons] at hclosed
    rw [List.append_assoc, List.singleton_append, ← List.cons_append, List.isChain_split]
    exact ⟨hclosed.2, List.isChain_pair.2 hclosed.1⟩

/-- A ring may be entered anywhere. -/
theorem IsRing.rotate (hring : IsRing links (l₁ ++ l₂)) : IsRing links (l₂ ++ l₁) := by
  induction l₁ generalizing l₂ with
  | nil => simpa using hring
  | cons a l₁ ih =>
    have hnext : IsRing links (l₁ ++ l₂ ++ [a]) := hring.rotate_one
    rw [List.append_assoc] at hnext
    simpa using ih hnext

/-- The node behind another one. -/
theorem IsRing.next_cons (hring : IsRing links (a :: b :: l)) : links.next a = b := by
  have hclosed := hring.closed a (b :: l) rfl
  rw [List.cons_append, List.isChain_cons_cons] at hclosed
  exact hclosed.1.1

theorem exists_last (h : ν) (l : List ν) : ∃ l₁ a, h :: l = l₁ ++ [a] :=
  ⟨_, _, (List.dropLast_append_getLast (List.cons_ne_nil h l)).symm⟩

/-- The last node is the one before the first. -/
theorem IsRing.last (hring : IsRing links (h :: l)) (hlast : h :: l = l₁ ++ [a]) :
    (h :: l).IsChain links.Linked ∧ links.Linked a h := by
  have hclosed := hring.closed h l rfl
  rw [← List.cons_append, hlast, List.append_assoc, List.singleton_append,
    List.isChain_split, ← hlast] at hclosed
  exact ⟨hclosed.1, List.isChain_pair.1 hclosed.2⟩

theorem IsRing.last_cons (hring : IsRing links (a :: h :: l)) (hlast : h :: l = l₁ ++ [b]) :
    (a :: h :: l).IsChain links.Linked ∧ links.Linked b a := by
  have heq : a :: h :: l = (a :: l₁) ++ [b] := by rw [hlast, List.cons_append]
  exact hring.last heq

/-- Only the node of a ring of one is linked to itself. -/
theorem IsRing.prev_eq_self (hring : IsRing links (a :: l)) : links.prev a = a ↔ l = [] := by
  rcases l with _ | ⟨b, l⟩
  · have hclosed := hring.closed a [] rfl
    exact iff_of_true (List.isChain_pair.1 hclosed).2 rfl
  · obtain ⟨l₀, z, hlast⟩ := exists_last b l
    obtain ⟨-, hlink⟩ := hring.last_cons hlast
    have hne : z ≠ a := fun heq => (List.nodup_cons.1 hring.nodup).1 (by rw [hlast, heq]; simp)
    rw [hlink.2]
    exact iff_of_false hne (by simp)

/-- A ring may be entered at any of its nodes. -/
theorem IsRing.enter (hring : IsRing links l) (ha : a ∈ l) :
    ∃ l', IsRing links (a :: l') ∧ ∀ n, n ∈ a :: l' ↔ n ∈ l := by
  obtain ⟨l₁, l₂, rfl⟩ := List.append_of_mem ha
  refine ⟨l₂ ++ l₁, hring.rotate, fun n => ?_⟩
  simp only [List.mem_cons, List.mem_append]
  tauto

/-- The node behind one of a ring is one of the ring, and links back. -/
theorem IsRing.linked_next (hring : IsRing links l) (ha : a ∈ l) :
    links.next a ∈ l ∧ links.prev (links.next a) = a := by
  obtain ⟨l', hring', hmem⟩ := hring.enter ha
  have hclosed := hring'.closed a l' rfl
  rcases l' with _ | ⟨b, l'⟩
  · have hlink := List.isChain_pair.1 hclosed
    rw [hlink.1]
    exact ⟨ha, hlink.2⟩
  · rw [List.cons_append, List.isChain_cons_cons] at hclosed
    rw [hclosed.1.1]
    exact ⟨(hmem b).1 (by simp), hclosed.1.2⟩

/-- The node before one of a ring is one of the ring, and links forth. -/
theorem IsRing.linked_prev (hring : IsRing links l) (ha : a ∈ l) :
    links.prev a ∈ l ∧ links.next (links.prev a) = a := by
  obtain ⟨l', hring', hmem⟩ := hring.enter ha
  obtain ⟨l₀, z, hlast⟩ := exists_last a l'
  obtain ⟨-, hlink⟩ := hring'.last hlast
  rw [hlink.2]
  exact ⟨(hmem z).1 (by rw [hlast]; simp), hlink.1⟩

/-- Only a node that is linked to itself is a ring on its own. -/
theorem isRing_singleton_iff : IsRing links [a] ↔ links.prev a = a ∧ links.next a = a := by
  constructor
  · intro hring
    have hlink := List.isChain_pair.1 (hring.closed a [] rfl)
    exact ⟨hlink.2, hlink.1⟩
  · rintro ⟨hprev, hnext⟩
    refine ⟨List.nodup_singleton a, ?_⟩
    rintro h t ⟨⟩
    exact List.isChain_pair.2 ⟨hnext, hprev⟩

/-- The node behind another one of a ring is the next of the list, or the first again. -/
theorem IsRing.next_split (hring : IsRing links (h :: l)) (heq : h :: l = l₁ ++ a :: l₂) :
    links.next a = l₂.head?.getD h := by
  rcases l₂ with _ | ⟨b, l₂⟩
  · exact (hring.last heq).2.1
  · exact IsRing.next_cons (IsRing.rotate (heq ▸ hring))

/-- The first node of a list does not come again. -/
theorem ne_first (hnodup : (h :: l).Nodup) (heq : h :: l = l₁ ++ a :: l₂) (hb : b ∈ l₂) :
    b ≠ h := by
  rintro rfl
  have hmem : b ∈ l := by
    rcases l₁ with _ | ⟨c, l₁⟩
    · rw [(List.cons.inj heq).2]
      exact hb
    · rw [(List.cons.inj heq).2]
      exact List.mem_append_right _ (List.mem_cons_of_mem _ hb)
  exact (List.nodup_cons.1 hnodup).1 hmem

/-- Before the last node of a list there are other nodes. -/
theorem ne_last (hnodup : (h :: l).Nodup) (hlast : h :: l = l₁ ++ [b])
    (ha : a ∈ (h :: l).dropLast) : a ≠ b := by
  rintro rfl
  rw [hlast, List.dropLast_concat] at ha
  rw [hlast, List.nodup_append] at hnodup
  exact hnodup.2.2 a ha a (List.mem_singleton_self a) rfl

end Basic

section Changes

variable [DecidableEq ν]

/-- A node on its own. -/
def Links.init (links : Links ν) (item : ν) : Links ν where
  prev := Function.update links.prev item item
  next := Function.update links.next item item

/-- A node is put before another one, one assignment after the other. -/
def Links.insertBefore (links : Links ν) (place item : ν) : Links ν :=
  let links := { links with next := Function.update links.next item place }
  let links := { links with prev := Function.update links.prev item (links.prev place) }
  let links := { links with next := Function.update links.next (links.prev place) item }
  { links with prev := Function.update links.prev place item }

/-- A node is taken out of its ring, one assignment after the other. -/
def Links.unlink (links : Links ν) (item : ν) : Links ν :=
  let links := { links with next := Function.update links.next (links.prev item) (links.next item) }
  let links := { links with prev := Function.update links.prev (links.next item) (links.prev item) }
  links.init item

variable {links : Links ν} {l l₁ l₂ : List ν} {h a b item place : ν}

theorem isRing_init (links : Links ν) (item : ν) : IsRing (links.init item) [item] := by
  refine ⟨List.nodup_singleton _, ?_⟩
  rintro h t ⟨⟩
  exact List.isChain_pair.2 ⟨by simp [Links.init], by simp [Links.init]⟩

theorem init_frame (links : Links ν) {n : ν} (hn : n ≠ item) :
    (links.init item).prev n = links.prev n ∧ (links.init item).next n = links.next n :=
  ⟨Function.update_of_ne hn _ _, Function.update_of_ne hn _ _⟩

theorem prev_insertBefore (n : ν) : (links.insertBefore place item).prev n =
    if n = place then item else if n = item then links.prev place else links.prev n := by
  simp [Links.insertBefore, Function.update_apply]

theorem next_insertBefore (hne : place ≠ item) (n : ν) : (links.insertBefore place item).next n =
    if n = links.prev place then item else if n = item then place else links.next n := by
  simp [Links.insertBefore, Function.update_apply, hne]

theorem prev_unlink (n : ν) : (links.unlink item).prev n =
    if n = item then item else if n = links.next item then links.prev item else links.prev n := by
  by_cases hself : item = links.prev item
  · simp [Links.unlink, Links.init, Function.update_apply, ← hself]
  · simp [Links.unlink, Links.init, Function.update_apply, hself]

theorem next_unlink (n : ν) : (links.unlink item).next n =
    if n = item then item else if n = links.prev item then links.next item else links.next n := by
  simp [Links.unlink, Links.init, Function.update_apply]

/-- A new node before the first one is the last. -/
theorem IsRing.insertBefore (hring : IsRing links (h :: l)) (hnew : item ∉ h :: l) :
    IsRing (links.insertBefore h item) (h :: l ++ [item]) := by
  have hne : h ≠ item := fun heq => hnew (heq ▸ List.mem_cons_self)
  obtain ⟨l₀, z, hlast⟩ := exists_last h l
  obtain ⟨hpath, hclose⟩ := hring.last hlast
  have hnodup := hring.nodup
  have hz : z ≠ item := fun heq => hnew (by rw [hlast, heq]; simp)
  constructor
  · rw [List.nodup_append]
    refine ⟨hnodup, List.nodup_singleton _, ?_⟩
    intro x hx y hy heq
    rw [List.mem_singleton] at hy
    exact hnew (hy ▸ heq ▸ hx)
  · intro h' t heq
    obtain ⟨rfl, rfl⟩ : h = h' ∧ l ++ [item] = t := by simpa using heq
    rw [← List.cons_append, ← List.cons_append, hlast, List.append_assoc, List.append_assoc,
      List.singleton_append, List.isChain_split, ← hlast]
    constructor
    · -- the links between the old nodes stay
      refine isChain_mono hpath fun x hx y hy hxy => ?_
      have hxz : x ≠ z := ne_last hnodup hlast hx
      have hyh : y ≠ h := fun heq => (List.nodup_cons.1 hnodup).1 (heq ▸ hy)
      have hxi : x ≠ item := fun heq => hnew (heq ▸ List.dropLast_subset _ hx)
      have hyi : y ≠ item := fun heq => hnew (heq ▸ List.mem_of_mem_tail hy)
      rw [Links.Linked, next_insertBefore hne, prev_insertBefore, hclose.2, if_neg hxz,
        if_neg hxi, if_neg hyh, if_neg hyi]
      exact hxy
    · rw [List.singleton_append, List.isChain_cons_cons, List.isChain_pair]
      simp [Links.Linked, next_insertBefore hne, prev_insertBefore, hclose.2, hz.symm, hne.symm]

/-- The other nodes keep their links. -/
theorem IsRing.insertBefore_frame (hring : IsRing links (h :: l)) (hnew : item ∉ h :: l) {n : ν}
    (hn : n ∉ h :: l) (hitem : n ≠ item) :
    (links.insertBefore h item).prev n = links.prev n ∧
      (links.insertBefore h item).next n = links.next n := by
  have hne : h ≠ item := fun heq => hnew (heq ▸ List.mem_cons_self)
  obtain ⟨l₀, z, hlast⟩ := exists_last h l
  obtain ⟨-, hclose⟩ := hring.last hlast
  have hz : n ≠ z := fun heq => hn (by rw [hlast, heq]; simp)
  have hh : n ≠ h := fun heq => hn (heq ▸ List.mem_cons_self)
  rw [prev_insertBefore, next_insertBefore hne, hclose.2, if_neg hh, if_neg hitem, if_neg hz,
    if_neg hitem]
  exact ⟨rfl, rfl⟩

/-- Without its first node a ring is one. -/
theorem IsRing.unlink_head (hring : IsRing links (item :: l)) : IsRing (links.unlink item) l := by
  obtain ⟨hitem, hnodup⟩ := List.nodup_cons.1 hring.nodup
  refine ⟨hnodup, ?_⟩
  rintro a t rfl
  obtain ⟨l₀, z, hlast⟩ := exists_last a t
  obtain ⟨hpath, hclose⟩ := hring.last_cons hlast
  rw [List.isChain_cons_cons] at hpath
  have hz : z ≠ item := fun heq => hitem (by rw [hlast, heq]; simp)
  have ha : a ≠ item := fun heq => hitem (heq ▸ List.mem_cons_self)
  rw [← List.cons_append, hlast, List.append_assoc, List.singleton_append, List.isChain_split]
  constructor
  · rw [← hlast]
    refine isChain_mono hpath.2 fun x hx y hy hxy => ?_
    have hxz : x ≠ z := ne_last hnodup hlast hx
    have hya : y ≠ a := by
      rintro rfl
      exact (List.nodup_cons.1 hnodup).1 hy
    have hxi : x ≠ item := fun heq => hitem (heq ▸ List.dropLast_subset _ hx)
    have hyi : y ≠ item := fun heq => hitem (heq ▸ List.mem_of_mem_tail hy)
    rw [Links.Linked, next_unlink, prev_unlink, hclose.2, hpath.1.1, if_neg hxi, if_neg hxz,
      if_neg hyi, if_neg hya]
    exact hxy
  · -- the neighbours of the node are linked to each other
    rw [List.isChain_pair, Links.Linked, next_unlink, prev_unlink, hclose.2, hpath.1.1]
    simp [hz, ha]

/-- Without any of its nodes a ring is one. -/
theorem IsRing.unlink (hring : IsRing links (l₁ ++ item :: l₂)) :
    IsRing (links.unlink item) (l₁ ++ l₂) :=
  (IsRing.unlink_head (by simpa using hring.rotate)).rotate

/-- The other nodes keep their links. -/
theorem IsRing.unlink_frame (hring : IsRing links l) (hitem : item ∈ l) {n : ν} (hn : n ∉ l) :
    (links.unlink item).prev n = links.prev n ∧ (links.unlink item).next n = links.next n := by
  have hmem {x : ν} (hx : x ∈ l) : n ≠ x := fun heq => hn (heq ▸ hx)
  rw [prev_unlink, next_unlink, if_neg (hmem hitem), if_neg (hmem (hring.linked_next hitem).1),
    if_neg (hmem hitem), if_neg (hmem (hring.linked_prev hitem).1)]
  exact ⟨rfl, rfl⟩

/-- A node that has been taken out is on its own. -/
theorem isRing_unlink (links : Links ν) (item : ν) : IsRing (links.unlink item) [item] :=
  isRing_init _ item

end Changes

section Search

variable [DecidableEq ν] {links : Links ν} {l : List ν} {h : ν}

/-- Going round from a node until the first one comes again, for the first node that passes the
test; none if a node cannot be tested, or if that takes more steps than allowed. -/
def findFrom (links : Links ν) (head : ν) (test : ν → Option Bool) : ℕ → ν → Option (Option ν)
  | 0, _ => none
  | fuel + 1, n =>
    match test n with
    | none => none
    | some true => some (some n)
    | some false =>
      if links.next n = head then some none else findFrom links head test fuel (links.next n)

/-- Going round finds what a search of the list finds. -/
theorem IsRing.findFrom (hring : IsRing links (h :: l)) {test : ν → Option Bool} {p : ν → Bool}
    (htest : ∀ n ∈ h :: l, test n = some (p n)) {fuel : ℕ} (hfuel : (h :: l).length ≤ fuel) :
    findFrom links h test fuel h = some ((h :: l).find? p) := by
  -- from any node on, with the nodes before it already passed
  have hrest : ∀ (l₂ : List ν) (l₁ : List ν) (a : ν) (fuel : ℕ), h :: l = l₁ ++ a :: l₂ →
      (a :: l₂).length ≤ fuel →
      LinkedRing.findFrom links h test fuel a = some ((a :: l₂).find? p) := by
    intro l₂
    induction l₂ with
    | nil =>
      rintro l₁ a (_ | fuel) heq hle
      · simp at hle
      have hnext : links.next a = h := hring.next_split heq
      rw [LinkedRing.findFrom, htest a (by rw [heq]; simp), List.find?_cons]
      rcases p a with _ | _
      · simp [hnext]
      · rfl
    | cons b l₂ ih =>
      rintro l₁ a (_ | fuel) heq hle
      · simp at hle
      have hnext : links.next a = b := hring.next_split heq
      have hb : b ≠ h := ne_first hring.nodup heq List.mem_cons_self
      rw [LinkedRing.findFrom, htest a (by rw [heq]; simp), List.find?_cons]
      rcases p a with _ | _
      · simp only [hnext, if_neg hb]
        exact ih (l₁ ++ [a]) b fuel (by simp [heq]) (by simpa using hle)
      · rfl
  exact hrest l [] h fuel rfl hfuel

/-- The nodes from one on, going round until the first one comes again; none if there are more of
them than allowed. -/
def goRound (links : Links ν) (head : ν) : ℕ → ν → Option (List ν)
  | 0, _ => none
  | fuel + 1, n =>
    if links.next n = head then some [n]
    else (goRound links head fuel (links.next n)).map (n :: ·)

/-- Going round meets every node once. -/
theorem IsRing.goRound (hring : IsRing links (h :: l)) {fuel : ℕ}
    (hfuel : (h :: l).length ≤ fuel) : goRound links h fuel h = some (h :: l) := by
  -- from any node on, with the nodes before it already met
  have hrest : ∀ (l₂ : List ν) (l₁ : List ν) (a : ν) (fuel : ℕ), h :: l = l₁ ++ a :: l₂ →
      (a :: l₂).length ≤ fuel → LinkedRing.goRound links h fuel a = some (a :: l₂) := by
    intro l₂
    induction l₂ with
    | nil =>
      rintro l₁ a (_ | fuel) heq hle
      · simp at hle
      · have hnext : links.next a = h := hring.next_split heq
        rw [LinkedRing.goRound, if_pos hnext]
    | cons b l₂ ih =>
      rintro l₁ a (_ | fuel) heq hle
      · simp at hle
      · have hnext : links.next a = b := hring.next_split heq
        have hb : b ≠ h := ne_first hring.nodup heq List.mem_cons_self
        rw [LinkedRing.goRound, hnext, if_neg hb,
          ih (l₁ ++ [a]) b fuel (by simp [heq]) (by simpa using hle)]
        rfl
  exact hrest l [] h fuel rfl hfuel

end Search

end LinkedRing
