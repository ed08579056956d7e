import Mathlib.Data.List.Nodup
import Mathlib.Logic.Function.Basic

/-!
# Doubly linked lists

Nodes with a link to the node before and the node behind them, and none at the two ends. The links
of all nodes are one store, and a list of nodes is linked in it if every link of its nodes leads to
the neighbour in the list.

## Main definitions

* `Links`, with `init`, `pushBefore`, `pushAfter` and `unlink`: the store and the ways to change it.
* `Links.flip`: the store read backwards, so that what is proved at one end holds at the other.
* `IsList`: the nodes of a list are linked in its order.
* `IsWay`: the links of one direction lead along a list, whatever those of the other do.
* `walk`: the nodes that are met on the way along the links of one direction.

## Main results

* `IsWay.walk`, `IsList.walk_next`, `IsList.walk_prev`: the ways along a list, forwards and
  backwards.
* `IsList.pushBefore`, `IsList.pushAfter`, `IsList.unlink`: the changes are those of a list.
-/

namespace LinkedList

/-- The links of all nodes. -/
@[ext]
structure Links (ν : Type*) where
  prev : ν → Option ν
  next : ν → Option ν

variable {ν : Type*}

/-- The links read backwards. -/
def Links.flip (links : Links ν) : Links ν where
  prev := links.next
  next := links.prev

/-- The nodes are different, and each is linked to the ones before and behind it in the list. -/
structure IsList (links : Links ν) (l : List ν) : Prop where
  nodup : l.Nodup
  prev : ∀ l₁ x l₂, l = l₁ ++ x :: l₂ → links.prev x = l₁.getLast?
  next : ∀ l₁ x l₂, l = l₁ ++ x :: l₂ → links.next x = l₂.head?

/-- The nodes are different, and the links of one direction lead from each to the one behind it. -/
structure IsWay (step : ν → Option ν) (l : List ν) : Prop where
  nodup : l.Nodup
  step : ∀ l₁ x l₂, l = l₁ ++ x :: l₂ → step x = l₂.head?

/-- The nodes on the way from `start` along the links of one direction; none if there are more of
them than allowed. -/
def walk (step : ν → Option ν) : ℕ → Option ν → Option (List ν)
  | _, none => some []
  | 0, some _ => none
  | fuel + 1, some x => (walk step fuel (step x)).map (x :: ·)

section Basic

variable {links links' : Links ν} {l l₁ l₂ : List ν} {x y : ν}

@[simp]
theorem flip_flip (links : Links ν) : links.flip.flip = links := rfl

@[simp]
theorem flip_prev (links : Links ν) (n : ν) : links.flip.prev n = links.next n := rfl

@[simp]
theorem flip_next (links : Links ν) (n : ν) : links.flip.next n = links.prev n := rfl

theorem isList_nil (links : Links ν) : IsList links [] where
  nodup := List.nodup_nil
  prev := by simp
  next := by simp

/-- A list only depends on the links of its nodes. -/
theorem IsList.congr (h : IsList links l)
    (heq : ∀ n ∈ l, links'.prev n = links.prev n ∧ links'.next n = links.next n) :
    IsList links' l where
  nodup := h.nodup
  prev := by
    intro l₁ x l₂ hl
    rw [(heq x (by simp [hl])).1, h.prev l₁ x l₂ hl]
  next := by
    intro l₁ x l₂ hl
    rw [(heq x (by simp [hl])).2, h.next l₁ x l₂ hl]

/-- Read backwards, the list is there in reverse. -/
theorem IsList.flip (h : IsList links l) : IsList links.flip l.reverse where
  nodup := List.nodup_reverse.2 h.nodup
  prev := by
    intro l₁ x l₂ hl
    have hsplit : l = l₂.reverse ++ x :: l₁.reverse := by
      rw [← l.reverse_reverse, hl]
      simp
    rw [flip_prev, h.next _ _ _ hsplit, List.head?_reverse]
  next := by
    intro l₁ x l₂ hl
    have hsplit : l = l₂.reverse ++ x :: l₁.reverse := by
      rw [← l.reverse_reverse, hl]
      simp
    rw [flip_next, h.prev _ _ _ hsplit, List.getLast?_reverse]

theorem isList_of_flip (h : IsList links.flip l.reverse) : IsList links l := by
  simpa using h.flip

/-- A node on its own, without links, is a list. -/
theorem isList_singleton (hprev : links.prev x = none) (hnext : links.next x = none) :
    IsList links [x] where
  nodup := List.nodup_singleton x
  prev := by
    intro l₁ y l₂ hl
    obtain ⟨rfl, rfl, rfl⟩ : l₁ = [] ∧ y = x ∧ l₂ = [] := by
      rcases l₁ with _ | ⟨a, l₁⟩ <;> simp_all
    exact hprev
  next := by
    intro l₁ y l₂ hl
    obtain ⟨rfl, rfl, rfl⟩ : l₁ = [] ∧ y = x ∧ l₂ = [] := by
      rcases l₁ with _ | ⟨a, l₁⟩ <;> simp_all
    exact hnext

/-- Before the first node there is none. -/
theorem IsList.prev_head (h : IsList links l) (hx : l.head? = some x) : links.prev x = none := by
  obtain ⟨l₂, rfl⟩ := List.head?_eq_some_iff.1 hx
  exact h.prev [] x l₂ rfl

/-- Behind the last node there is none. -/
theorem IsList.next_last (h : IsList links l) (hx : l.getLast? = some x) : links.next x = none := by
  obtain ⟨l₁, rfl⟩ := List.getLast?_eq_some_iff.1 hx
  exact h.next l₁ x [] rfl

/-- The links of the nodes lead to nodes of the list. -/
theorem IsList.mem_of_prev (h : IsList links l) (hx : x ∈ l) (hprev : links.prev x = some y) :
    y ∈ l := by
  obtain ⟨l₁, l₂, rfl⟩ := List.append_of_mem hx
  rw [h.prev l₁ x l₂ rfl] at hprev
  exact List.mem_append_left _ (List.mem_of_getLast? hprev)

theorem IsList.mem_of_next (h : IsList links l) (hx : x ∈ l) (hnext : links.next x = some y) :
    y ∈ l := by
  have hmem := h.flip.mem_of_prev (List.mem_reverse.2 hx) hnext
  exact List.mem_reverse.1 hmem

/-- A list is a way in both directions. -/
theorem IsList.way_next (h : IsList links l) : IsWay links.next l := ⟨h.nodup, h.next⟩

theorem IsList.way_prev (h : IsList links l) : IsWay links.prev l.reverse := h.flip.way_next

/-- The way from the first node goes through the whole list. -/
theorem IsWay.walk {step : ν → Option ν} (h : IsWay step l) {fuel : ℕ} (hfuel : l.length ≤ fuel) :
    walk step fuel l.head? = some l := by
  -- by induction on the rest of the way, the part before it being fixed by the split
  have hrest : ∀ (l₂ l₁ : List ν) (fuel : ℕ), l = l₁ ++ l₂ → l₂.length ≤ fuel →
      LinkedList.walk step fuel l₂.head? = some l₂ := by
    intro l₂
    induction l₂ with
    | nil =>
      rintro l₁ (_ | fuel) - -
      · rfl
      · rfl
    | cons x l₂ ih =>
      rintro l₁ (_ | fuel) hl hle
      · simp at hle
      · have hnext := h.step l₁ x l₂ hl
        rw [List.head?_cons, LinkedList.walk, hnext,
          ih (l₁ ++ [x]) fuel (by simp [hl]) (by simpa using hle)]
        rfl
  exact hrest l [] fuel rfl hfuel

/-- The way forwards from the first node goes through the whole list. -/
theorem IsList.walk_next (h : IsList links l) {fuel : ℕ} (hfuel : l.length ≤ fuel) :
    walk links.next fuel l.head? = some l := h.way_next.walk hfuel

/-- The way backwards from the last node goes through the whole list. -/
theorem IsList.walk_prev (h : IsList links l) {fuel : ℕ} (hfuel : l.length ≤ fuel) :
    walk links.prev fuel l.getLast? = some l.reverse := by
  have hlength : l.reverse.length ≤ fuel := by rwa [List.length_reverse]
  have hwalk := h.way_prev.walk hlength
  rwa [List.head?_reverse] at hwalk

end Basic

section Changes

variable [DecidableEq ν]

/-- An assignment to a link of a node, if there is a node. -/
def assign (link : ν → Option ν) (node : Option ν) (value : Option ν) : ν → Option ν :=
  match node with
  | none => link
  | some x => Function.update link x value

/-- A node without links. -/
def Links.init (links : Links ν) (item : ν) : Links ν where
  prev := Function.update links.prev item none
  next := Function.update links.next item none

/-- A node is put before the first one. -/
def Links.pushBefore (links : Links ν) (first item : ν) : Links ν where
  prev := Function.update links.prev first (some item)
  next := Function.update links.next item (some first)

/-- A node is put behind the last one. -/
def Links.pushAfter (links : Links ν) (last item : ν) : Links ν where
  prev := Function.update links.prev item (some last)
  next := Function.update links.next last (some item)

/-- The neighbours of a node are linked to each other, one assignment after the other. -/
def Links.unlink (links : Links ν) (item : ν) : Links ν :=
  let links := { links with next := assign links.next (links.prev item) (links.next item) }
  let links := { links with prev := assign links.prev (links.next item) (links.prev item) }
  links.init item

variable {links : Links ν} {l l₁ l₂ : List ν} {first last item n : ν}

theorem assign_apply (link : ν → Option ν) (node value : Option ν) (n : ν) :
    assign link node value n = if node = some n then value else link n := by
  rcases node with _ | x
  · rfl
  · rw [assign, Function.update_apply]
    simp only [Option.some.injEq, eq_comm]

theorem prev_unlink (n : ν) : (links.unlink item).prev n =
    if n = item then none else if links.next item = some n then links.prev item
    else links.prev n := by
  have hnext : assign links.next (links.prev item) (links.next item) item = links.next item := by
    rw [assign_apply]
    split <;> rfl
  simp only [Links.unlink, Links.init, Function.update_apply, hnext, assign_apply]

theorem next_unlink (n : ν) : (links.unlink item).next n =
    if n = item then none else if links.prev item = some n then links.next item
    else links.next n := by
  simp only [Links.unlink, Links.init, Function.update_apply, assign_apply]

theorem init_frame (links : Links ν) (hn : n ≠ item) :
    (links.init item).prev n = links.prev n ∧ (links.init item).next n = links.next n :=
  ⟨Function.update_of_ne hn _ _, Function.update_of_ne hn _ _⟩

theorem pushBefore_frame (links : Links ν) (hfirst : n ≠ first) (hitem : n ≠ item) :
    (links.pushBefore first item).prev n = links.prev n ∧
      (links.pushBefore first item).next n = links.next n :=
  ⟨Function.update_of_ne hfirst _ _, Function.update_of_ne hitem _ _⟩

theorem pushAfter_frame (links : Links ν) (hlast : n ≠ last) (hitem : n ≠ item) :
    (links.pushAfter last item).prev n = links.prev n ∧
      (links.pushAfter last item).next n = links.next n :=
  ⟨Function.update_of_ne hitem _ _, Function.update_of_ne hlast _ _⟩

/-- A node that has been taken out has no links. -/
theorem unlink_self (links : Links ν) (item : ν) :
    (links.unlink item).prev item = none ∧ (links.unlink item).next item = none := by
  rw [prev_unlink, next_unlink, if_pos rfl, if_pos rfl]
  exact ⟨rfl, rfl⟩

/-- Both ends are changed alike. -/
theorem unlink_flip (links : Links ν) (item : ν) :
    links.flip.unlink item = (links.unlink item).flip := by
  ext n : 2
  · rw [flip_prev, prev_unlink, next_unlink]
    rfl
  · rw [flip_next, prev_unlink, next_unlink]
    rfl

/-- A node without a predecessor goes before the first one. -/
theorem IsList.pushBefore (h : IsList links (first :: l)) (hnew : item ∉ first :: l)
    (hprev : links.prev item = none) :
    IsList (links.pushBefore first item) (item :: first :: l) := by
  have hne : item ≠ first := fun heq => hnew (heq ▸ List.mem_cons_self)
  refine ⟨List.nodup_cons.2 ⟨hnew, h.nodup⟩, fun l₁ x l₂ hl => ?_, fun l₁ x l₂ hl => ?_⟩
  · show Function.update links.prev first (some item) x = _
    rcases l₁ with _ | ⟨a, l₁⟩
    · obtain rfl : item = x := (List.cons.inj hl).1
      rw [Function.update_of_ne hne, hprev]
      rfl
    · obtain ⟨rfl, hrest⟩ := List.cons.inj hl
      rcases l₁ with _ | ⟨b, l₁⟩
      · obtain rfl : first = x := (List.cons.inj hrest).1
        rw [Function.update_self]
        rfl
      · -- the node is not the first, and has the predecessor it had
        have hx : x ≠ first := by
          rintro rfl
          have hmem : x ∈ l := by
            rw [(List.cons.inj hrest).2]
            exact List.mem_append_right _ List.mem_cons_self
          exact (List.nodup_cons.1 h.nodup).1 hmem
        rw [Function.update_of_ne hx, h.prev (b :: l₁) x l₂ hrest, List.getLast?_cons_cons]
  · show Function.update links.next item (some first) x = _
    rcases l₁ with _ | ⟨a, l₁⟩
    · obtain ⟨rfl, rfl⟩ := List.cons.inj hl
      rw [Function.update_self]
      rfl
    · have hrest : first :: l = l₁ ++ x :: l₂ := (List.cons.inj hl).2
      have hx : x ≠ item := by
        rintro rfl
        exact hnew (hrest ▸ List.mem_append_right _ List.mem_cons_self)
      rw [Function.update_of_ne hx, h.next l₁ x l₂ hrest]

/-- A node without a successor goes behind the last one. -/
theorem IsList.pushAfter (h : IsList links (l ++ [last])) (hnew : item ∉ l ++ [last])
    (hnext : links.next item = none) :
    IsList (links.pushAfter last item) (l ++ [last, item]) := by
  have hflip : IsList links.flip (last :: l.reverse) := by simpa using h.flip
  have hnew' : item ∉ last :: l.reverse := by simpa [or_comm] using hnew
  apply isList_of_flip
  rw [List.reverse_append]
  exact hflip.pushBefore hnew' hnext

/-- Without one of its nodes the nodes before and behind it still lead on. -/
theorem IsList.next_unlink (h : IsList links (l₁ ++ item :: l₂)) {m₁ m₂ : List ν} {x : ν}
    (hl : l₁ ++ l₂ = m₁ ++ x :: m₂) : (links.unlink item).next x = m₂.head? := by
  have hnodup := h.nodup
  have hlast := h.prev l₁ item l₂ rfl
  rw [LinkedList.next_unlink, hlast]
  -- a node behind the one that goes has kept its link
  have hbehind {l : List ν} (hl₂ : l₂ = l ++ x :: m₂) :
      (if x = item then none else if l₁.getLast? = some x then links.next item
        else links.next x) = m₂.head? := by
    subst hl₂
    have hx : x ≠ item := by
      rintro rfl
      simp [List.nodup_append] at hnodup
    have hx₁ : l₁.getLast? ≠ some x := by
      intro heq
      have hmem := List.mem_of_getLast? heq
      exact (List.nodup_append.1 hnodup).2.2 x hmem x (by simp) rfl
    rw [if_neg hx, if_neg hx₁]
    exact h.next (l₁ ++ item :: l) x m₂ (by simp)
  rcases List.append_eq_append_iff.1 hl with ⟨l, -, hl₂⟩ | ⟨l, hl₁, hl₂⟩
  · exact hbehind hl₂
  · rcases l with _ | ⟨y, l⟩
    · exact hbehind (l := []) hl₂.symm
    · obtain ⟨rfl, rfl⟩ := List.cons.inj hl₂
      subst hl₁
      have hx : x ≠ item := by
        rintro rfl
        simp [List.nodup_append] at hnodup
      rw [if_neg hx]
      rcases l with _ | ⟨y, l⟩
      · -- its successor is the one that goes
        rw [if_pos (by simp)]
        exact h.next (m₁ ++ [x]) item l₂ rfl
      · have hx₁ : (m₁ ++ x :: y :: l).getLast? ≠ some x := by
          rw [List.getLast?_append_cons, List.getLast?_cons_cons]
          intro heq
          have hmem := List.mem_of_getLast? heq
          simp only [List.append_assoc, List.nodup_append, List.cons_append, List.nodup_cons,
            List.mem_cons, List.mem_append] at hnodup hmem
          tauto
        rw [if_neg hx₁]
        exact h.next m₁ x (y :: l ++ item :: l₂) (by simp)

/-- Without one of its nodes a list is one. -/
theorem IsList.unlink (h : IsList links (l₁ ++ item :: l₂)) :
    IsList (links.unlink item) (l₁ ++ l₂) where
  nodup := h.nodup.sublist (by simp)
  prev := by
    intro m₁ x m₂ hl
    have hflip : IsList links.flip (l₂.reverse ++ item :: l₁.reverse) := by simpa using h.flip
    have hl' : l₂.reverse ++ l₁.reverse = m₂.reverse ++ x :: m₁.reverse := by
      rw [← List.reverse_append, hl]
      simp
    have hnext := hflip.next_unlink hl'
    rwa [unlink_flip, flip_next, List.head?_reverse] at hnext
  next := fun _ _ _ hl => h.next_unlink hl

/-- The other nodes keep their links. -/
theorem IsList.unlink_frame (h : IsList links l) (hitem : item ∈ l) (hn : n ∉ l) :
    (links.unlink item).prev n = links.prev n ∧ (links.unlink item).next n = links.next n := by
  have hne : n ≠ item := fun heq => hn (heq ▸ hitem)
  rw [prev_unlink, LinkedList.next_unlink, if_neg hne, if_neg hne,
    if_neg fun heq => hn (h.mem_of_next hitem heq), if_neg fun heq => hn (h.mem_of_prev hitem heq)]
  exact ⟨rfl, rfl⟩

end Changes

end LinkedList
