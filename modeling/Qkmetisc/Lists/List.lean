import Qkmetisc.Foundations.InputMachine
import Qkmetisc.Foundations.LinkedList

/-!
# Lists with a head and a tail (`list.h`)

The macros of `list.h` keep a doubly linked list by its head and its tail. Removing the head or the
tail of several items moves the head or the tail, but leaves the links of the item that comes in its
place as they were.

## Main definitions

* `Chain`, with `listInit`, `listAddItemFront`, `listAddItemBack` and `listRemoveItem`: the
  functions and macros of the source.
* `listForeach`, `listForeachBack`: the items that the two loops visit.
* `World`, `Op`, `step`: any sequence of operations on one head and tail.
* `WellFormed`: the list is well-formed and has the items it should have.

## Main results

* `Inv.step`: an operation that removes neither the head nor the tail of several items.
* `Inv.inside`: any other leaves a list that is not well-formed.
* `always_wellFormed_iff`: the runs in which the list stays well-formed.
-/

namespace Qkmetisc.Lists

open LinkedList

variable {ν : Type*}

/-- The `list` members of all items, with the head and the tail of one list. -/
structure Chain (ν : Type*) where
  links : Links ν
  head : Option ν
  tail : Option ν

section Source

variable [DecidableEq ν]

/-- `list_init`. -/
def listInit (c : Chain ν) (item : ν) : Chain ν := { c with links := c.links.init item }

/-- `list_add_head_list`; none if an assertion fails. -/
def listAddHead (links : Links ν) (list item : ν) : Option (Links ν) :=
  let links := { links with next := Function.update links.next item (some list) }
  if links.prev list = none then
    some { links with prev := Function.update links.prev list (some item) }
  else none

/-- `list_add_item_front`. -/
def listAddItemFront (c : Chain ν) (item : ν) : Option (Chain ν) :=
  match c.head with
  | none => some { c with head := some item, tail := some item }
  | some head => (listAddHead c.links head item).map fun links =>
    { c with links, head := some item }

/-- `list_add_tail_list`; none if an assertion fails. -/
def listAddTail (links : Links ν) (list item : ν) : Option (Links ν) :=
  let links := { links with prev := Function.update links.prev item (some list) }
  if links.next list = none then
    some { links with next := Function.update links.next list (some item) }
  else none

/-- `list_add_item_back`. -/
def listAddItemBack (c : Chain ν) (item : ν) : Option (Chain ν) :=
  match c.head with
  | none => some { c with head := some item, tail := some item }
  | some _ =>
    match c.tail with
    | none => none
    | some tail => (listAddTail c.links tail item).map fun links =>
      { c with links, tail := some item }

/-- `list_remove_item`. -/
def listRemoveItem (c : Chain ν) (item : ν) : Chain ν :=
  if c.head = c.tail ∧ c.head = some item then { c with head := none, tail := none }
  else if c.head = some item then { c with head := c.links.next item }
  else if c.tail = some item then { c with tail := c.links.prev item }
  else { c with links := c.links.unlink item }

/-- `list_foreach`: the items it visits, none if they are more than `fuel`. -/
def listForeach (links : Links ν) (fuel : ℕ) (ptr : Option ν) : Option (List ν) :=
  walk links.next fuel ptr

/-- `list_foreach_back`. -/
def listForeachBack (links : Links ν) (fuel : ℕ) (ptr : Option ν) : Option (List ν) :=
  walk links.prev fuel ptr

/-- A head and a tail, and what has become of the items. -/
structure World (ν : Type*) where
  chain : Chain ν
  /-- Whether an assertion has failed. -/
  failed : Bool
  /-- The items that should be in the list, in their order. -/
  items : List ν
  /-- The items that have been initialised. -/
  ready : List ν

/-- `list_init_head_tail`, with any links in the items. -/
def World.start (links : Links ν) : World ν where
  chain := ⟨links, none, none⟩
  failed := false
  items := []
  ready := []

/-- An operation. -/
inductive Op (ν : Type*) where
  | init (item : ν)
  | addFront (item : ν)
  | addBack (item : ν)
  | remove (item : ν)

/-- What the operation is for. -/
def expected (items : List ν) : Op ν → List ν
  | .init _ => items
  | .addFront item => item :: items
  | .addBack item => items ++ [item]
  | .remove item => items.erase item

/-- One operation; a failed assertion ends the run. -/
def step (w : World ν) (op : Op ν) : World ν :=
  let after (call : Option (Chain ν)) : World ν :=
    match call with
    | none => { w with failed := true }
    | some chain => { w with chain, items := expected w.items op }
  if w.failed then w
  else
    match op with
    | .init item => { after (listInit w.chain item) with ready := item :: w.ready }
    | .addFront item => after (listAddItemFront w.chain item)
    | .addBack item => after (listAddItemBack w.chain item)
    | .remove item => after (listRemoveItem w.chain item)

/-- How the list is used: an item is initialised before it is added, and it is added or initialised
only while it is not in the list, and removed only while it is. -/
def Proper (w : World ν) : Op ν → Prop
  | .init item => item ∉ w.items
  | .addFront item | .addBack item => item ∈ w.ready ∧ item ∉ w.items
  | .remove item => item ∈ w.items

/-- The operation does not remove the head or the tail of several items. -/
def Inside (w : World ν) : Op ν → Prop
  | .init _ | .addFront _ | .addBack _ => True
  | .remove item => w.items = [item] ∨
    w.items.head? ≠ some item ∧ w.items.getLast? ≠ some item

instance (w : World ν) (op : Op ν) : Decidable (Proper w op) :=
  match op with
  | .init _ => inferInstanceAs (Decidable (¬_))
  | .addFront _ | .addBack _ => inferInstanceAs (Decidable (_ ∧ _))
  | .remove _ => inferInstanceAs (Decidable (_ ∈ _))

instance (w : World ν) (op : Op ν) : Decidable (Inside w op) :=
  match op with
  | .init _ | .addFront _ | .addBack _ => instDecidableTrue
  | .remove _ => inferInstanceAs (Decidable (_ ∨ _))

end Source

/-- The list is well-formed, and its items are the expected ones. -/
structure WellFormed (w : World ν) : Prop where
  /-- No assertion has failed. -/
  asserted : w.failed = false
  forward : ∀ fuel, w.items.length ≤ fuel →
    listForeach w.chain.links fuel w.chain.head = some w.items
  /-- The walk forwards ends at the tail. -/
  tail : w.items.getLast? = w.chain.tail
  backward : ∀ fuel, w.items.length ≤ fuel →
    listForeachBack w.chain.links fuel w.chain.tail = some w.items.reverse
  /-- The walk backwards ends at the head. -/
  head : w.items.reverse.getLast? = w.chain.head
  first : ∀ x, w.chain.head = some x → w.chain.links.prev x = none
  last : ∀ x, w.chain.tail = some x → w.chain.links.next x = none
  /-- No link of an item in the list leads out of it. -/
  closed : ∀ x ∈ w.items, ∀ y, w.chain.links.prev x = some y ∨ w.chain.links.next x = some y →
    y ∈ w.items

/-- With an item behind it a list that is not empty has the head it had. -/
theorem head?_snoc {l : List ν} {last item : ν} :
    (l ++ [last] ++ [item]).head? = (l ++ [last]).head? := by
  cases l <;> rfl

section Operations

variable [DecidableEq ν] {c : Chain ν} {l l₁ l₂ : List ν} {item x : ν}

/-- The head, the tail and the links are those of this list. -/
structure Holds (c : Chain ν) (l : List ν) : Prop where
  head : c.head = l.head?
  tail : c.tail = l.getLast?
  list : IsList c.links l

/-- The items other than these keep their links. -/
def Frame (c c' : Chain ν) (l : List ν) : Prop :=
  ∀ n, n ∉ l → c'.links.prev n = c.links.prev n ∧ c'.links.next n = c.links.next n

theorem listInit_spec (h : Holds c l) (hitem : item ∉ l) :
    Holds (listInit c item) l ∧ Frame c (listInit c item) [item] := by
  refine ⟨⟨h.head, h.tail, h.list.congr fun n hn => ?_⟩, fun n hn => ?_⟩
  · exact init_frame c.links fun heq => hitem (heq ▸ hn)
  · exact init_frame c.links (by simpa using hn)

/-- An item without a predecessor, and without a successor if there is no other, is added at the
front. -/
theorem listAddItemFront_spec (h : Holds c l) (hitem : item ∉ l)
    (hprev : c.links.prev item = none) (hnext : c.links.next item = none) :
    ∃ c', listAddItemFront c item = some c' ∧ Holds c' (item :: l) ∧ Frame c c' (item :: l) := by
  rcases l with _ | ⟨first, l⟩
  · have hhead : c.head = none := h.head
    refine ⟨{ c with head := some item, tail := some item }, ?_, ⟨rfl, rfl, ?_⟩,
      fun n _ => ⟨rfl, rfl⟩⟩
    · rw [listAddItemFront, hhead]
    · exact isList_singleton hprev hnext
  · have hhead : c.head = some first := h.head
    -- the assertion of `list_add_head_list`
    have hfirst : c.links.prev first = none := h.list.prev_head rfl
    refine ⟨{ c with links := c.links.pushBefore first item, head := some item }, ?_,
      ⟨rfl, ?_, h.list.pushBefore hitem hprev⟩, fun n hn => ?_⟩
    · rw [listAddItemFront, hhead]
      simp only [listAddHead, hfirst, if_true]
      rfl
    · rw [List.getLast?_cons_cons]
      exact h.tail
    · simp only [List.mem_cons, not_or] at hn
      exact pushBefore_frame c.links hn.2.1 hn.1

/-- The assertion of `list_add_tail_list` holds where no link leads on from the tail. -/
theorem listAddItemBack_concat {last : ν} (hhead : c.head = (l ++ [last]).head?)
    (htail : c.tail = some last) (hlast : c.links.next last = none) :
    listAddItemBack c item =
      some { c with links := c.links.pushAfter last item, tail := some item } := by
  obtain ⟨first, hfirst⟩ : ∃ first, c.head = some first := by
    rw [hhead, ← Option.isSome_iff_exists, List.isSome_head?]
    simp
  rw [listAddItemBack, hfirst, htail]
  simp only [listAddTail, hlast, if_true]
  rfl

/-- An item without links is added at the back. -/
theorem listAddItemBack_spec (h : Holds c l) (hitem : item ∉ l)
    (hprev : c.links.prev item = none) (hnext : c.links.next item = none) :
    ∃ c', listAddItemBack c item = some c' ∧ Holds c' (l ++ [item]) ∧ Frame c c' (l ++ [item]) := by
  rcases List.eq_nil_or_concat l with rfl | ⟨l, last, rfl⟩
  · have hhead : c.head = none := h.head
    refine ⟨{ c with head := some item, tail := some item }, ?_, ⟨rfl, rfl, ?_⟩,
      fun n _ => ⟨rfl, rfl⟩⟩
    · rw [listAddItemBack, hhead]
    · exact isList_singleton hprev hnext
  · rw [List.concat_eq_append] at h hitem ⊢
    have htail : c.tail = some last := by rw [h.tail, List.getLast?_concat]
    have hlast : c.links.next last = none := h.list.next_last (List.getLast?_concat ..)
    refine ⟨_, listAddItemBack_concat h.head htail hlast, ⟨h.head.trans head?_snoc.symm, ?_, ?_⟩,
      fun n hn => ?_⟩
    · rw [List.getLast?_concat]
    · rw [List.append_assoc]
      exact h.list.pushAfter hitem hnext
    · simp only [List.mem_append, List.mem_singleton, not_or] at hn
      exact pushAfter_frame c.links hn.1.2 hn.2

/-- The only item, or one between two others, is taken out and left without links. -/
theorem listRemoveItem_spec (h : Holds c l) (hitem : item ∈ l)
    (hinside : l = [item] ∨ l.head? ≠ some item ∧ l.getLast? ≠ some item) :
    Holds (listRemoveItem c item) (l.erase item) ∧ Frame c (listRemoveItem c item) l ∧
      (listRemoveItem c item).links.prev item = none ∧
      (listRemoveItem c item).links.next item = none := by
  rcases hinside with rfl | ⟨hfirst, hlast⟩
  · have hhead : c.head = some item := h.head
    have htail : c.tail = some item := h.tail
    have hcall : listRemoveItem c item = { c with head := none, tail := none } := by
      rw [listRemoveItem, if_pos ⟨hhead.trans htail.symm, hhead⟩]
    rw [hcall, List.erase_cons_head]
    exact ⟨⟨rfl, rfl, isList_nil _⟩, fun n _ => ⟨rfl, rfl⟩, h.list.prev_head rfl,
      h.list.next_last rfl⟩
  · have hcall : listRemoveItem c item = { c with links := c.links.unlink item } := by
      rw [listRemoveItem, h.head, h.tail, if_neg fun heq => hfirst heq.2, if_neg hfirst,
        if_neg hlast]
    obtain ⟨l₁, l₂, rfl⟩ := List.append_of_mem hitem
    have hnodup := h.list.nodup
    have hmem : item ∉ l₁ :=
      fun hmem => (List.nodup_append.1 hnodup).2.2 item hmem item (by simp) rfl
    rw [hcall, List.erase_append_right _ hmem, List.erase_cons_head]
    refine ⟨⟨?_, ?_, h.list.unlink⟩, fun n hn => h.list.unlink_frame hitem hn,
      unlink_self c.links item⟩
    · -- the head is another item, and stays
      show c.head = _
      rw [h.head]
      rcases l₁ with _ | ⟨a, l₁⟩
      · exact absurd rfl hfirst
      · rfl
    · show c.tail = _
      rw [h.tail]
      rcases List.eq_nil_or_concat l₂ with rfl | ⟨l₂, a, rfl⟩
      · exact absurd (List.getLast?_concat ..) hlast
      · rw [List.concat_eq_append, ← List.cons_append, ← List.append_assoc, ← List.append_assoc,
          List.getLast?_concat, List.getLast?_concat]

/-- Where the head of several items is removed, it moves on along its link, and no link changes. -/
theorem listRemoveItem_head (hhead : c.head = some item)
    (htail : c.tail = (item :: x :: l).getLast?) (hnodup : (item :: x :: l).Nodup) :
    listRemoveItem c item = { c with head := c.links.next item } := by
  -- the head and the tail are different items
  have hne : c.head ≠ c.tail := by
    rw [hhead, htail, List.getLast?_cons_cons]
    intro heq
    exact (List.nodup_cons.1 hnodup).1 (List.mem_of_getLast? heq.symm)
  rw [listRemoveItem, if_neg fun heq => hne heq.1, if_pos hhead]

/-- The head or the tail of several items is removed: what comes in its place still leads to it. -/
theorem listRemoveItem_stale (h : Holds c l) (hitem : item ∈ l)
    (hout : ¬(l = [item] ∨ l.head? ≠ some item ∧ l.getLast? ≠ some item)) :
    (∃ x, (listRemoveItem c item).head = some x ∧
      (listRemoveItem c item).links.prev x = some item) ∨
    ∃ x, (listRemoveItem c item).tail = some x ∧
      (listRemoveItem c item).links.next x = some item := by
  have hseveral : l ≠ [item] := fun heq => hout (.inl heq)
  have hnodup := h.list.nodup
  by_cases hfirst : l.head? = some item
  · left
    obtain ⟨l, rfl⟩ := List.head?_eq_some_iff.1 hfirst
    rcases l with _ | ⟨x, l⟩
    · exact absurd rfl hseveral
    · rw [listRemoveItem_head (h.head.trans hfirst) h.tail hnodup]
      exact ⟨x, h.list.next [] item (x :: l) rfl, h.list.prev [item] x l rfl⟩
  · right
    have hlast : l.getLast? = some item := by
      by_contra hlast
      exact hout (.inr ⟨hfirst, hlast⟩)
    obtain ⟨l, rfl⟩ := List.getLast?_eq_some_iff.1 hlast
    rcases List.eq_nil_or_concat l with rfl | ⟨l, x, rfl⟩
    · exact absurd rfl hseveral
    · rw [List.concat_eq_append] at h hfirst hlast
      have hhead : c.head ≠ some item := fun heq => hfirst (h.head.symm.trans heq)
      have hcall : listRemoveItem c item = { c with tail := c.links.prev item } := by
        rw [listRemoveItem, if_neg fun heq => hhead heq.2, if_neg hhead,
          if_pos (h.tail.trans hlast)]
      rw [hcall]
      refine ⟨x, ?_, ?_⟩
      · show c.links.prev item = some x
        rw [h.list.prev (l ++ [x]) item [] rfl, List.getLast?_concat]
      · exact h.list.next l x [item] (by simp)

end Operations

section Runs

variable {w : World ν}

/-- The invariant: the list is linked as it should be, and the initialised items that are not in it
have no links. -/
structure Inv (w : World ν) : Prop where
  asserted : w.failed = false
  holds : Holds w.chain w.items
  clean : ∀ x ∈ w.ready, x ∉ w.items →
    w.chain.links.prev x = none ∧ w.chain.links.next x = none

theorem Inv.start (links : Links ν) : Inv (World.start links) where
  asserted := rfl
  holds := ⟨rfl, rfl, isList_nil links⟩
  clean := by simp [World.start]

theorem Inv.wellFormed (h : Inv w) : WellFormed w where
  asserted := h.asserted
  forward := by
    intro fuel hfuel
    rw [listForeach, h.holds.head]
    exact h.holds.list.walk_next hfuel
  tail := h.holds.tail.symm
  backward := by
    intro fuel hfuel
    rw [listForeachBack, h.holds.tail]
    exact h.holds.list.walk_prev hfuel
  head := by rw [List.getLast?_reverse, h.holds.head]
  first := fun x hx => h.holds.list.prev_head (h.holds.head ▸ hx)
  last := fun x hx => h.holds.list.next_last (h.holds.tail ▸ hx)
  closed := by
    rintro x hx y (hprev | hnext)
    · exact h.holds.list.mem_of_prev hx hprev
    · exact h.holds.list.mem_of_next hx hnext

theorem Inv.not_failed (h : Inv w) : ¬w.failed = true := by simp [h.asserted]

/-- An addition succeeds, and leaves the links of the items that are not in the list alone. -/
theorem Inv.add (h : Inv w) {items : List ν} {call : Option (Chain ν)}
    (hcall : ∃ c, call = some c ∧ Holds c items ∧ Frame w.chain c items)
    (hitems : ∀ x, x ∉ items → x ∉ w.items) :
    ∃ c, call = some c ∧ Inv { w with chain := c, items := items } := by
  obtain ⟨c, rfl, hholds, hframe⟩ := hcall
  refine ⟨c, rfl, h.asserted, hholds, fun x hready hx => ?_⟩
  obtain ⟨hprev, hnext⟩ := hframe x hx
  show c.links.prev x = none ∧ c.links.next x = none
  rw [hprev, hnext]
  exact h.clean x hready (hitems x hx)

variable [DecidableEq ν] {op : Op ν}

/-- An operation that removes neither the head nor the tail of several items. -/
theorem Inv.step (h : Inv w) (hproper : Proper w op) (hinside : Inside w op) : Inv (step w op) := by
  cases op with
  | init item =>
    obtain ⟨hholds, hframe⟩ := listInit_spec h.holds hproper
    rw [Lists.step, if_neg h.not_failed]
    refine ⟨h.asserted, hholds, fun x hready hx => ?_⟩
    by_cases hitem : x = item
    · subst hitem
      exact ⟨Function.update_self .., Function.update_self ..⟩
    · obtain ⟨hprev, hnext⟩ := hframe x (by simpa using hitem)
      have hold : x ∈ w.ready := (List.mem_cons.1 hready).resolve_left hitem
      show (listInit w.chain item).links.prev x = none ∧ (listInit w.chain item).links.next x = none
      rw [hprev, hnext]
      exact h.clean x hold hx
  | addFront item =>
    obtain ⟨hready, hitem⟩ := hproper
    obtain ⟨hprev, hnext⟩ := h.clean item hready hitem
    obtain ⟨c, hcall, hinv⟩ := h.add (listAddItemFront_spec h.holds hitem hprev hnext)
      fun x hx hmem => hx (List.mem_cons_of_mem _ hmem)
    rw [Lists.step, if_neg h.not_failed]
    dsimp only
    rw [hcall]
    exact hinv
  | addBack item =>
    obtain ⟨hready, hitem⟩ := hproper
    obtain ⟨hprev, hnext⟩ := h.clean item hready hitem
    obtain ⟨c, hcall, hinv⟩ := h.add (listAddItemBack_spec h.holds hitem hprev hnext)
      fun x hx hmem => hx (List.mem_append_left _ hmem)
    rw [Lists.step, if_neg h.not_failed]
    dsimp only
    rw [hcall]
    exact hinv
  | remove item =>
    obtain ⟨hholds, hframe, hprev, hnext⟩ := listRemoveItem_spec h.holds hproper hinside
    rw [Lists.step, if_neg h.not_failed]
    refine ⟨h.asserted, hholds, fun x hready hx => ?_⟩
    -- the item itself has been left without links, and the others outside keep theirs
    by_cases hitem : x = item
    · subst hitem
      exact ⟨hprev, hnext⟩
    · have hout : x ∉ w.items := fun hmem => hx ((List.mem_erase_of_ne hitem).2 hmem)
      obtain ⟨hprev', hnext'⟩ := hframe x hout
      show (listRemoveItem w.chain item).links.prev x = none ∧
        (listRemoveItem w.chain item).links.next x = none
      rw [hprev', hnext']
      exact h.clean x hready hout

/-- Any other operation leaves a list that is not well-formed. -/
theorem Inv.inside (h : Inv w) (hproper : Proper w op) (hafter : WellFormed (Lists.step w op)) :
    Inside w op := by
  cases op with
  | remove item =>
    by_contra hout
    -- the new head or the new tail still has a link to the removed item
    have hchain : (Lists.step w (.remove item)).chain = listRemoveItem w.chain item := by
      rw [Lists.step, if_neg h.not_failed]
    rcases listRemoveItem_stale h.holds hproper hout with ⟨x, hhead, hprev⟩ | ⟨x, htail, hnext⟩
    · have hfirst := hafter.first x (hchain ▸ hhead)
      rw [hchain, hprev] at hfirst
      cases hfirst
    · have hlast := hafter.last x (hchain ▸ htail)
      rw [hchain, hnext] at hlast
      cases hlast
  | _ => trivial

/-- In a run of operations on items that are initialised first, added only while they are not in the
list and removed only while they are, the list stays well-formed exactly if no operation removes the
head or the tail of several items. -/
theorem always_wellFormed_iff (links : Links ν) (ops : List (Op ν))
    (hproper : InputMachine.Meets Lists.step Proper (World.start links) ops) :
    InputMachine.Always Lists.step WellFormed (World.start links) ops ↔
      InputMachine.Meets Lists.step Inside (World.start links) ops :=
  InputMachine.always_iff_meets_of_breaks (fun _ (h : Inv _) => h.wellFormed)
    (fun _ _ h hproper hinside => h.step hproper hinside)
    (fun _ _ h hproper hafter => h.inside hproper hafter) (.start links) hproper

/-- Items come and go at both ends and in between. -/
def middleOps : List (Op ℕ) :=
  [.init 0, .addFront 0, .remove 0, .addBack 0, .init 1, .addFront 1, .init 2, .addBack 2,
    .remove 0, .addFront 0]

/-- The first is removed while it is alone, and then from between two others. -/
theorem always_wellFormed_middleOps :
    (InputMachine.run Lists.step (World.start ⟨fun _ => none, fun _ => none⟩) middleOps).items =
        [0, 1, 2] ∧
      InputMachine.Always Lists.step WellFormed (World.start ⟨fun _ => none, fun _ => none⟩)
        middleOps := by
  have hproper : InputMachine.Meets Lists.step Proper
      (World.start ⟨fun _ => none, fun _ => none⟩) middleOps := by
    refine ⟨?_, ?_, ?_, ?_, ?_, ?_, ?_, ?_, ?_, ?_, trivial⟩
    all_goals decide
  refine ⟨by decide, (always_wellFormed_iff _ middleOps hproper).2 ?_⟩
  refine ⟨?_, ?_, ?_, ?_, ?_, ?_, ?_, ?_, ?_, ?_, trivial⟩
  all_goals decide

/-- Of two items the head is removed, and the next item added at the front. -/
def headOps : List (Op ℕ) :=
  [.init 0, .addBack 0, .init 1, .addBack 1, .remove 0, .init 2, .addFront 2]

/-- The new head still leads to the old one, and the assertion of `list_add_head_list` fails. -/
theorem not_always_wellFormed :
    ¬∀ (links : Links ℕ) (ops : List (Op ℕ)),
      InputMachine.Meets Lists.step Proper (World.start links) ops →
        InputMachine.Always Lists.step WellFormed (World.start links) ops := by
  intro hall
  have hproper : InputMachine.Meets Lists.step Proper
      (World.start ⟨fun _ => none, fun _ => none⟩) headOps := by
    refine ⟨?_, ?_, ?_, ?_, ?_, ?_, ?_, trivial⟩
    all_goals decide
  have hasserted := (hall _ headOps hproper).last.asserted
  have hfailed : (InputMachine.run Lists.step (World.start ⟨fun _ => none, fun _ => none⟩)
      headOps).failed = true := by decide
  rw [hfailed] at hasserted
  cases hasserted

end Runs

end Qkmetisc.Lists
