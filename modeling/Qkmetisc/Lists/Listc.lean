import Mathlib.Data.Fintype.Basic
import Qkmetisc.CommandLine.HashRing
import Qkmetisc.Foundations.InputMachine

/-!
# Rings with a head (`listc.h`)

The macros of `listc.h` keep circular doubly linked lists by their heads. Any number of rings share
one kind of item, as the active and the inactive sockets of the server do, and an item goes from one
ring to another.

## Main definitions

* `listcInit`, `listcAddItemFront`, `listcForeach`: the functions and macros of the source, with
  `listcAddItemBack` and `listcRemoveItem` of the hash table.
* `Rings`, `RingOp`, `Rings.step`: any sequence of operations on any number of heads.
* `Rings.Proper`: how the operations are used.
* `Rings.WellFormed`: every ring is one and has the items it should have.

## Main results

* `Rings.Inv.set`: what an operation on one ring leaves of the others.
* `Rings.Inv.step`: one operation.
* `Rings.always_wellFormed`: every run of proper operations.
-/

namespace Qkmetisc.Lists

open LinkedRing
open CommandLine (listcAddItemBack listcAddItemBack_spec listcRemoveItem listcRemoveItem_spec)

/-- `listc_init`. -/
def listcInit (links : Links ℕ) (item : ℕ) : Links ℕ := links.init item

/-- `listc_add_item_front`: the links and the head. -/
def listcAddItemFront (links : Links ℕ) (listc : Option ℕ) (item : ℕ) : Links ℕ × Option ℕ :=
  match listc with
  | none => (links, some item)
  | some head => (links.insertBefore head item, some item)

/-- The loop between `LISTC_FOREACH_START` and `LISTC_FOREACH_END`: the items it visits, none if
they are more than `fuel`. -/
def listcForeach (links : Links ℕ) (fuel : ℕ) (ptr : ℕ) : Option (List ℕ) :=
  goRound links ptr fuel ptr

/-- Rings with their heads, and what has become of the items. -/
structure Rings (ρ : Type*) where
  links : Links ℕ
  heads : ρ → Option ℕ
  /-- The items that should be in each ring, in their order from the head. -/
  items : ρ → List ℕ
  /-- The items that have been initialised. -/
  ready : List ℕ

/-- An operation. -/
inductive RingOp (ρ : Type*) where
  | init (item : ℕ)
  | addFront (ring : ρ) (item : ℕ)
  | addBack (ring : ρ) (item : ℕ)
  | remove (ring : ρ) (item : ℕ)

namespace Rings

variable {ρ : Type*}

/-- Heads without rings, with any links in the items. -/
def start (links : Links ℕ) : Rings ρ where
  links := links
  heads _ := none
  items _ := []
  ready := []

/-- How the operations are used: an item is initialised before it is added, it is added or
initialised only while it is in no ring, and it is removed only from the ring that it is in. -/
def Proper (w : Rings ρ) : RingOp ρ → Prop
  | .init item => ∀ ring, item ∉ w.items ring
  | .addFront _ item | .addBack _ item => item ∈ w.ready ∧ ∀ ring, item ∉ w.items ring
  | .remove ring item => item ∈ w.items ring

instance [Fintype ρ] (w : Rings ρ) (op : RingOp ρ) : Decidable (Proper w op) :=
  match op with
  | .init _ => inferInstanceAs (Decidable (∀ _, _))
  | .addFront _ _ | .addBack _ _ => inferInstanceAs (Decidable (_ ∧ _))
  | .remove _ _ => inferInstanceAs (Decidable (_ ∈ _))

variable [DecidableEq ρ]

/-- The links and one head after a macro, with the items that its ring should have then. -/
def set (w : Rings ρ) (ring : ρ) (call : Links ℕ × Option ℕ) (items : List ℕ) : Rings ρ :=
  { w with
    links := call.1
    heads := Function.update w.heads ring call.2
    items := Function.update w.items ring items }

/-- One operation. -/
def step (w : Rings ρ) (op : RingOp ρ) : Rings ρ :=
  match op with
  | .init item => { w with links := listcInit w.links item, ready := item :: w.ready }
  | .addFront ring item =>
    w.set ring (listcAddItemFront w.links (w.heads ring) item) (item :: w.items ring)
  | .addBack ring item =>
    w.set ring (listcAddItemBack w.links (w.heads ring) item) (w.items ring ++ [item])
  | .remove ring item =>
    w.set ring (listcRemoveItem w.links (w.heads ring) item) ((w.items ring).erase item)

end Rings

/-- The rings are well-formed, and their items are the expected ones. -/
structure Rings.WellFormed {ρ : Type*} (w : Rings ρ) : Prop where
  /-- A head is `NULL` exactly if its ring is empty. -/
  empty : ∀ ring, w.heads ring = none ↔ w.items ring = []
  /-- Going round from the head visits the items in their order. -/
  visits : ∀ ring head, w.heads ring = some head → ∀ fuel, (w.items ring).length ≤ fuel →
    listcForeach w.links fuel head = some (w.items ring)
  /-- The two links are inverse to each other, and do not lead out of the ring. -/
  inverse : ∀ ring, ∀ x ∈ w.items ring,
    (w.links.next x ∈ w.items ring ∧ w.links.prev (w.links.next x) = x) ∧
      w.links.prev x ∈ w.items ring ∧ w.links.next (w.links.prev x) = x
  /-- No item is in a ring twice. -/
  once : ∀ ring, (w.items ring).Nodup
  /-- No item is in two rings. -/
  disjoint : ∀ ring ring' x, x ∈ w.items ring → x ∈ w.items ring' → ring = ring'
  /-- An initialised item that is in no ring, or in none any more, is linked to itself. -/
  alone : ∀ x ∈ w.ready, (∀ ring, x ∉ w.items ring) → w.links.prev x = x ∧ w.links.next x = x

section Operations

variable {links : Links ℕ} {ring : List ℕ} {item : ℕ}

/-- An item on its own goes before the first one. -/
theorem listcAddItemFront_spec (hring : IsRing links ring) (hitem : IsRing links [item])
    (hnew : item ∉ ring) : ∃ links', listcAddItemFront links ring.head? item =
      (links', (item :: ring).head?) ∧ IsRing links' (item :: ring) ∧
        ∀ n, n ∉ ring → n ≠ item →
          links'.prev n = links.prev n ∧ links'.next n = links.next n := by
  rcases ring with _ | ⟨h, l⟩
  · exact ⟨links, rfl, hitem, fun _ _ _ => ⟨rfl, rfl⟩⟩
  · have hback := hring.insertBefore hnew
    -- the ring with the new item at its end is entered at the new item
    have hfront : IsRing (links.insertBefore h item) ([item] ++ (h :: l)) := hback.rotate
    exact ⟨_, rfl, hfront, fun n hn hne => hring.insertBefore_frame hnew hn hne⟩

/-- An item that has been removed is linked to itself. -/
theorem listcRemoveItem_alone (hitem : item ∈ ring) :
    IsRing (listcRemoveItem links ring.head? item).1 [item] := by
  rcases ring with _ | ⟨h, l⟩
  · cases hitem
  · -- whatever becomes of the head, the item is unlinked
    have hlinks : (listcRemoveItem links (h :: l).head? item).1 = links.unlink item := by
      rw [List.head?_cons, listcRemoveItem]
      split
      · split <;> rfl
      · rfl
    rw [hlinks]
    exact isRing_unlink links item

end Operations

namespace Rings

section Runs

variable {ρ : Type*} {w : Rings ρ}

/-- The invariant: the items of each head are a ring, in no two rings there is the same item, and
the initialised items in none are on their own. -/
structure Inv (w : Rings ρ) : Prop where
  head : ∀ ring, w.heads ring = (w.items ring).head?
  ring : ∀ ring, IsRing w.links (w.items ring)
  disjoint : ∀ ring ring' x, x ∈ w.items ring → x ∈ w.items ring' → ring = ring'
  alone : ∀ x ∈ w.ready, (∀ ring, x ∉ w.items ring) → IsRing w.links [x]

theorem Inv.start (links : Links ℕ) : Inv (start links : Rings ρ) where
  head _ := rfl
  ring _ := isRing_nil links
  disjoint := by simp [Rings.start]
  alone := by simp [Rings.start]

theorem Inv.wellFormed (h : Inv w) : WellFormed w where
  empty := by
    intro ring
    rw [h.head, List.head?_eq_none_iff]
  visits := by
    intro ring head hhead fuel hfuel
    rw [h.head] at hhead
    obtain ⟨l, hl⟩ := List.head?_eq_some_iff.1 hhead
    have hring := h.ring ring
    rw [hl] at hring hfuel ⊢
    exact hring.goRound hfuel
  inverse := by
    intro ring x hx
    exact ⟨(h.ring ring).linked_next hx, (h.ring ring).linked_prev hx⟩
  once := fun ring => (h.ring ring).nodup
  disjoint := h.disjoint
  alone := by
    intro x hready hx
    exact isRing_singleton_iff.1 (h.alone x hready hx)

variable [DecidableEq ρ] {ring : ρ} {l : List ℕ} {links : Links ℕ} {op : RingOp ρ}

/-- One ring has changed: its items come from no other ring, those that have left it are on their
own, and the links of all others are what they were. -/
theorem Inv.set (h : Inv w) (hring : IsRing links l)
    (hfrom : ∀ x ∈ l, ∀ ring', x ∈ w.items ring' → ring' = ring)
    (hleft : ∀ x ∈ w.items ring, x ∉ l → IsRing links [x])
    (hframe : ∀ x, x ∉ w.items ring → x ∉ l →
      links.prev x = w.links.prev x ∧ links.next x = w.links.next x) :
    Inv (w.set ring (links, l.head?) l) where
  head := by
    intro ring'
    show Function.update w.heads ring l.head? ring' = (Function.update w.items ring l ring').head?
    by_cases heq : ring' = ring
    · rw [heq, Function.update_self, Function.update_self]
    · rw [Function.update_of_ne heq, Function.update_of_ne heq, h.head]
  ring := by
    intro ring'
    show IsRing links (Function.update w.items ring l ring')
    by_cases heq : ring' = ring
    · rw [heq, Function.update_self]
      exact hring
    · rw [Function.update_of_ne heq]
      refine (h.ring ring').congr fun x hx => hframe x ?_ ?_
      · exact fun hmem => heq (h.disjoint ring' ring x hx hmem)
      · exact fun hmem => heq (hfrom x hmem ring' hx)
  disjoint := by
    intro ring₁ ring₂ x
    show x ∈ Function.update w.items ring l ring₁ → x ∈ Function.update w.items ring l ring₂ → _
    intro h₁ h₂
    rw [Function.update_apply] at h₁ h₂
    split at h₁
    · next heq₁ =>
      split at h₂
      · next heq₂ => exact heq₁.trans heq₂.symm
      · exact heq₁.trans (hfrom x h₁ ring₂ h₂).symm
    · split at h₂
      · next heq₂ => exact (hfrom x h₂ ring₁ h₁).trans heq₂.symm
      · exact h.disjoint ring₁ ring₂ x h₁ h₂
  alone := by
    intro x hready hx
    have hl : x ∉ l := by
      have hself : x ∉ Function.update w.items ring l ring := hx ring
      rwa [Function.update_self] at hself
    by_cases hmem : x ∈ w.items ring
    · exact hleft x hmem hl
    · -- it was in no ring before
      have hnone (ring' : ρ) : x ∉ w.items ring' := by
        by_cases heq : ring' = ring
        · exact heq ▸ hmem
        · have hother : x ∉ Function.update w.items ring l ring' := hx ring'
          rwa [Function.update_of_ne heq] at hother
      refine (h.alone x hready hnone).congr fun y hy => ?_
      rw [List.mem_singleton.1 hy]
      exact hframe x hmem hl

/-- An item that was in no ring is added to one, at either end. -/
theorem Inv.add (h : Inv w) {item : ℕ} (hnew : ∀ ring', item ∉ w.items ring')
    (hring : IsRing links l) (hmem : ∀ x, x ∈ l ↔ x = item ∨ x ∈ w.items ring)
    (hframe : ∀ x, x ∉ w.items ring → x ≠ item →
      links.prev x = w.links.prev x ∧ links.next x = w.links.next x) :
    Inv (w.set ring (links, l.head?) l) := by
  refine h.set hring (fun x hx ring' hx' => ?_) (fun x hx hout => ?_) fun x hx hout => ?_
  · rcases (hmem x).1 hx with rfl | hx
    · exact absurd hx' (hnew ring')
    · exact h.disjoint ring' ring x hx' hx
  · exact absurd ((hmem x).2 (.inr hx)) hout
  · exact hframe x hx fun heq => hout ((hmem x).2 (.inl heq))

/-- One operation. -/
theorem Inv.step (h : Inv w) (hproper : Proper w op) : Inv (step w op) := by
  cases op with
  | init item =>
    refine ⟨h.head, fun ring => ?_, h.disjoint, fun x hready hx => ?_⟩
    · exact (h.ring ring).congr fun x hx => init_frame w.links fun heq => hproper ring (heq ▸ hx)
    · by_cases heq : x = item
      · rw [heq]
        exact isRing_init w.links item
      · have hold : x ∈ w.ready := (List.mem_cons.1 hready).resolve_left heq
        refine (h.alone x hold hx).congr fun y hy => init_frame w.links ?_
        rwa [List.mem_singleton.1 hy]
  | addFront ring item =>
    obtain ⟨hready, hnew⟩ := hproper
    obtain ⟨links, hcall, hring, hframe⟩ :=
      listcAddItemFront_spec (h.ring ring) (h.alone item hready hnew) (hnew ring)
    rw [Rings.step, h.head, hcall]
    exact h.add hnew hring (fun x => List.mem_cons) hframe
  | addBack ring item =>
    obtain ⟨hready, hnew⟩ := hproper
    obtain ⟨links, hcall, hring, hframe⟩ :=
      listcAddItemBack_spec (h.ring ring) (h.alone item hready hnew) (hnew ring)
    rw [Rings.step, h.head, hcall]
    refine h.add hnew hring (fun x => ?_) hframe
    rw [List.mem_append, List.mem_singleton, or_comm]
  | remove ring item =>
    have hnodup := (h.ring ring).nodup
    have halone : IsRing (listcRemoveItem w.links (w.items ring).head? item).1 [item] :=
      listcRemoveItem_alone hproper
    obtain ⟨l₁, l₂, hl⟩ := List.append_of_mem hproper
    have hring := h.ring ring
    rw [hl] at hring hnodup halone
    obtain ⟨links, hcall, hring', hframe⟩ := listcRemoveItem_spec hring
    rw [hcall] at halone
    have hitem : item ∉ l₁ :=
      fun hmem => (List.nodup_append.1 hnodup).2.2 item hmem item (by simp) rfl
    have herase : (w.items ring).erase item = l₁ ++ l₂ := by
      rw [hl, List.erase_append_right _ hitem, List.erase_cons_head]
    rw [Rings.step, h.head, herase, hl, hcall]
    refine h.set hring' (fun x hx ring' hx' => ?_) (fun x hx hout => ?_) fun x hx _ => ?_
    · exact h.disjoint ring' ring x hx' (List.mem_of_mem_erase (herase ▸ hx))
    · -- the only item that has left the ring is the one removed
      have heq : x = item := by
        by_contra hne
        exact hout (herase ▸ (List.mem_erase_of_ne hne).2 hx)
      rw [heq]
      exact halone
    · rw [hl] at hx
      exact hframe x hx

/-- In every run of operations on items that are initialised first, added only while they are in no
ring and removed only from the ring that they are in, all rings stay well-formed and have the items
they should have, and the items that are in none are linked to themselves. -/
theorem always_wellFormed (links : Links ℕ) (ops : List (RingOp ρ))
    (hproper : InputMachine.Meets Rings.step Proper (Rings.start links) ops) :
    InputMachine.Always Rings.step WellFormed (Rings.start links) ops := by
  have hinv := InputMachine.always_of_invariant (P := Inv) (fun _ _ h hproper => h.step hproper)
    (.start links) hproper
  exact hinv.mono Rings.step fun _ h => h.wellFormed

/-- Sockets that become inactive: from the head of one ring to another ring, and back. -/
def socketOps : List (RingOp Bool) :=
  [.init 0, .addBack true 0, .init 1, .addBack true 1, .init 2, .addFront true 2, .remove true 2,
    .addBack false 2, .remove true 1, .addFront false 1, .remove false 2, .addBack true 2]

/-- Each ring has its items in the end. -/
theorem always_wellFormed_socketOps :
    ((InputMachine.run Rings.step (Rings.start ⟨id, id⟩) socketOps).items true = [0, 2] ∧
      (InputMachine.run Rings.step (Rings.start ⟨id, id⟩) socketOps).items false = [1]) ∧
    InputMachine.Always Rings.step WellFormed (Rings.start ⟨id, id⟩) socketOps := by
  refine ⟨by decide, always_wellFormed _ socketOps ?_⟩
  refine ⟨?_, ?_, ?_, ?_, ?_, ?_, ?_, ?_, ?_, ?_, ?_, ?_, trivial⟩
  all_goals decide

end Runs

end Rings

end Qkmetisc.Lists
