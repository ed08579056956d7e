import Qkmetisc.Foundations.LinkedRing

/-!
# Going round a ring that is taken apart (`listc.h`)

The loop between `LISTC_FOREACH_START_SAFE` and `LISTC_FOREACH_END_SAFE` knows the next item before
its body is run, so that the body may free the item it is given. The next item is behind the one
after the last as well: there it is the head, which has been freed.

## Main definitions

* `Foreach`: the memory, the head and the body that the two macros are put around.
* `Foreach.listcForeachSafe`: the loop, with the links that are read and the items that the body is
  given.
* `Foreach.RingAt`: a well-formed ring.
* `Foreach.Spares`: the body leaves the items alone that are still to come.
* `ReadsFirst`: no link of an item is read after the body was run on it.

## Main results

* `Foreach.Spares.of_own`: a body that changes nothing but its own item.
* `Foreach.listcForeachSafe_eq`: the loop is one pass over the list of the items.
* `Foreach.listcForeachSafe_once`: what callers rely on.
-/

namespace Qkmetisc.Lists

open LinkedRing

/-- What the two macros are put around. -/
structure Foreach (σ ι : Type*) where
  /-- The links of the items in memory. -/
  links : σ → Links ι
  /-- Whether an item is there, and has not been freed. -/
  alive : σ → ι → Bool
  /-- The expression `ptr`, which is evaluated again in every round. -/
  ptr : σ → Option ι
  body : σ → ι → σ

/-- What the loop does with an item. -/
inductive Touch (ι : Type*) where
  /-- It reads the link to the next item. -/
  | link (item : ι)
  /-- It runs the body. -/
  | body (item : ι)
  deriving DecidableEq

/-- The item, if it is given to the body. -/
def Touch.given {ι : Type*} : Touch ι → Option ι
  | .link _ => none
  | .body item => some item

/-- The items that the body is given, in their order. -/
def given {ι : Type*} (touches : List (Touch ι)) : List ι := touches.filterMap Touch.given

/-- No link of an item is read after the body was run on it. -/
def ReadsFirst {ι : Type*} (touches : List (Touch ι)) : Prop :=
  touches.Pairwise fun first later => ∀ item, first = .body item → later ≠ .link item

namespace Foreach

variable {σ ι : Type*} (f : Foreach σ ι)

/-- `listc_get_next`; none for an item that is not there. -/
def listcGetNext (s : σ) (item : ι) : Option ι :=
  if f.alive s item then some ((f.links s).next item) else none

section Loop

variable [DecidableEq ι]

/-- The rounds from an item on, with the item that is behind it; none if the link of an item is read
that is not there, or if the rounds are more than `fuel`. -/
def rounds : ℕ → σ → ι → ι → Option (σ × List (Touch ι))
  | 0, _, _, _ => none
  | fuel + 1, s, iter, iterNext =>
    let s := f.body s iter
    -- the next item comes first, and its link is read only if it is not the head
    if f.ptr s = some iterNext then some (s, [.body iter])
    else
      match f.listcGetNext s iterNext with
      | none => none
      | some next => (rounds fuel s iterNext next).map fun out =>
        (out.1, .body iter :: .link iterNext :: out.2)

/-- The loop between `LISTC_FOREACH_START_SAFE` and `LISTC_FOREACH_END_SAFE`: the state after it and
what it has done, in order; none if it does not return. -/
def listcForeachSafe (fuel : ℕ) (s : σ) : Option (σ × List (Touch ι)) :=
  match f.ptr s with
  -- the assertion of `listc_get_next`
  | none => none
  | some iter =>
    match f.listcGetNext s iter with
    | none => none
    | some next => (f.rounds fuel s iter next).map fun out => (out.1, .link iter :: out.2)

end Loop

/-- In this state the head is that of a well-formed ring, and its items are there. -/
structure RingAt (s : σ) (l : List ι) : Prop where
  ring : IsRing (f.links s) l
  alive : ∀ x ∈ l, f.alive s x = true
  ptr : f.ptr s = l.head?

/-- The body, run on one item after the other, leaves the head as it is, and the links of the items
that are still to come. -/
def Spares : σ → List ι → Prop
  | _, [] => True
  | s, x :: rest => f.ptr (f.body s x) = f.ptr s ∧
    (∀ y ∈ rest, f.listcGetNext (f.body s x) y = f.listcGetNext s y) ∧ Spares (f.body s x) rest

variable {f} {s : σ} {l : List ι}

/-- A body that changes no item but the one it is given, as one that frees it. -/
theorem Spares.of_own (hptr : ∀ s, ∀ x ∈ l, f.ptr (f.body s x) = f.ptr s)
    (hown : ∀ s, ∀ x ∈ l, ∀ y ≠ x, f.listcGetNext (f.body s x) y = f.listcGetNext s y)
    (hnodup : l.Nodup) (s : σ) : f.Spares s l := by
  induction l generalizing s with
  | nil => trivial
  | cons x rest ih =>
    obtain ⟨hx, hnodup⟩ := List.nodup_cons.1 hnodup
    refine ⟨hptr s x List.mem_cons_self, fun y hy => ?_, ?_⟩
    · exact hown s x List.mem_cons_self y fun heq => hx (heq ▸ hy)
    · exact ih (fun s y hy => hptr s y (List.mem_cons_of_mem _ hy))
        (fun s y hy => hown s y (List.mem_cons_of_mem _ hy)) hnodup _

/-- What a pass over a list does: the link of each item is read, and then the body is run on it. -/
def pass (l : List ι) : List (Touch ι) := l.flatMap fun x => [.link x, .body x]

theorem given_pass (l : List ι) : given (pass l) = l := by
  induction l with
  | nil => rfl
  | cons x l ih =>
    show x :: given (pass l) = x :: l
    rw [ih]

theorem readsFirst_pass (hnodup : l.Nodup) : ReadsFirst (pass l) := by
  rw [ReadsFirst, pass, List.pairwise_flatMap]
  constructor
  · simp
  · refine hnodup.imp fun {x y} hne first hfirst later hlater item hitem hlink => hne ?_
    -- the two are about items of different rounds
    subst hitem hlink
    simp only [List.mem_cons, List.not_mem_nil, or_false, reduceCtorEq, Touch.body.injEq,
      Touch.link.injEq, false_or] at hfirst hlater
    exact hfirst.symm.trans hlater

section Results

variable [DecidableEq ι]

/-- The rounds from any item of a ring on, with the part of the ring before it already passed. The
link of the next item is still what it was, as the item has not been given to the body yet. -/
theorem rounds_eq {links : Links ι} {h : ι} {t : List ι} (hring : IsRing links (h :: t))
    {l₁ l₂ : List ι} {a : ι} (heq : h :: t = l₁ ++ a :: l₂) {s : σ} (hptr : f.ptr s = some h)
    (hlinks : ∀ y ∈ l₂, f.listcGetNext s y = some (links.next y)) (hspares : f.Spares s (a :: l₂))
    {fuel : ℕ} (hfuel : (a :: l₂).length ≤ fuel) :
    f.rounds fuel s a (l₂.head?.getD h) =
      some ((a :: l₂).foldl f.body s, .body a :: pass l₂) := by
  induction l₂ generalizing l₁ a s fuel with
  | nil =>
    obtain ⟨hkept, -, -⟩ := hspares
    rcases fuel with _ | fuel
    · simp at hfuel
    · -- behind the last item is the head, which ends the loop before its link is read
      rw [rounds]
      exact if_pos (hkept.trans hptr)
  | cons b l₂ ih =>
    obtain ⟨hkept, hspared, hrest⟩ := hspares
    rcases fuel with _ | fuel
    · simp at hfuel
    · -- the item behind is not the head, and what is behind it is read
      have hb : b ≠ h := ne_first hring.nodup heq List.mem_cons_self
      have hgo : ¬f.ptr (f.body s a) = some b := by
        rw [hkept, hptr, Option.some.injEq]
        exact hb.symm
      have hsplit : h :: t = (l₁ ++ [a]) ++ b :: l₂ := by rw [heq, List.append_assoc]; rfl
      have hnext : f.listcGetNext (f.body s a) b = some (l₂.head?.getD h) := by
        rw [hspared b List.mem_cons_self, hlinks b List.mem_cons_self, hring.next_split hsplit]
      have hlinks' : ∀ y ∈ l₂, f.listcGetNext (f.body s a) y = some (links.next y) := by
        intro y hy
        rw [hspared y (List.mem_cons_of_mem _ hy), hlinks y (List.mem_cons_of_mem _ hy)]
      rw [rounds, List.head?_cons, Option.getD_some]
      simp only [if_neg hgo, hnext]
      rw [ih hsplit (hkept.trans hptr) hlinks' hrest (by simpa using hfuel)]
      rfl

/-- The loop is one pass over the list of the items. -/
theorem listcForeachSafe_eq (hne : l ≠ []) (hring : f.RingAt s l) (hspares : f.Spares s l)
    {fuel : ℕ} (hfuel : l.length ≤ fuel) :
    f.listcForeachSafe fuel s = some (l.foldl f.body s, pass l) := by
  obtain ⟨h, t, rfl⟩ := List.exists_cons_of_ne_nil hne
  have hptr : f.ptr s = some h := hring.ptr
  have hlinks : ∀ y ∈ h :: t, f.listcGetNext s y = some ((f.links s).next y) := by
    intro y hy
    rw [listcGetNext, if_pos (hring.alive y hy)]
  have hsplit : h :: t = [] ++ h :: t := rfl
  have hnext : f.listcGetNext s h = some (t.head?.getD h) := by
    rw [hlinks h List.mem_cons_self, hring.ring.next_split hsplit]
  have hrounds := rounds_eq hring.ring hsplit hptr
    (fun y hy => hlinks y (List.mem_cons_of_mem _ hy)) hspares hfuel
  rw [listcForeachSafe, hptr]
  simp only [hnext, hrounds]
  rfl

/-- For every ring with an item, and whatever the body does, as long as it leaves the items alone
that are still to come: the loop returns, it gives every item to the body once, in the order of the
ring from the head on, and it reads no link of an item after that. -/
theorem listcForeachSafe_once (hne : l ≠ []) (hring : f.RingAt s l) (hspares : f.Spares s l) :
    ∃ touches, (∀ fuel, l.length ≤ fuel →
        f.listcForeachSafe fuel s = some (l.foldl f.body s, touches)) ∧
      given touches = l ∧ l.Nodup ∧ ReadsFirst touches :=
  ⟨pass l, fun _ hfuel => listcForeachSafe_eq hne hring hspares hfuel, given_pass l,
    hring.ring.nodup, readsFirst_pass hring.ring.nodup⟩

/-- A body that frees its item, put around a ring of three; the state are the items freed so far. -/
def freeThree : Foreach (List ℕ) ℕ where
  links _ := ⟨fun n => (n + 2) % 3, fun n => (n + 1) % 3⟩
  alive freed item := item ∉ freed
  ptr _ := some 0
  body freed item := item :: freed

/-- All three are freed, the head first. -/
theorem listcForeachSafe_once_three :
    ∃ touches, (∀ fuel, [0, 1, 2].length ≤ fuel →
        freeThree.listcForeachSafe fuel [] = some ([0, 1, 2].foldl freeThree.body [], touches)) ∧
      given touches = [0, 1, 2] ∧ [0, 1, 2].Nodup ∧ ReadsFirst touches := by
  have hring : IsRing (freeThree.links []) [0, 1, 2] := by
    refine ⟨by decide, ?_⟩
    rintro h t ⟨⟩
    simp [Links.Linked, freeThree]
  refine listcForeachSafe_once (by decide) ⟨hring, by decide, rfl⟩ (.of_own ?_ ?_ (by decide) [])
  · exact fun _ _ _ => rfl
  · intro freed x _ y hy
    simp [listcGetNext, freeThree, hy]

end Results

end Foreach

end Qkmetisc.Lists
