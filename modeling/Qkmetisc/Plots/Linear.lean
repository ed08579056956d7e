import Mathlib.Algebra.Ring.Nat
import Mathlib.Data.List.Nodup

/-!
# The linear plot (`linear_plot_template.c`)

A plot that hands out the tasks of its members in order: the member at the cursor generates tasks
until its count is reached, then its generator is destroyed and the cursor moves on.

Generators are known by their identity, in an arbitrary type `γ`: a task remembers the generator
that made it, and the state remembers which generators have been destroyed, since using one of
those again is a use after free.

## Main definitions

* `LinearPlotMember`, `LinearPlotPriv`, `PlotState`: the data of the plot.
* `linearPlotCreate`, `linearPlotGetTask`: the functions of the source.
* `pending`: the generators of the tasks still to come, the queue that the two cursors stand for.
* `InOrder`: results that follow such a queue and end with `ENOTASK`.

## Main results

* `linearPlotGetTask_pop`: a call takes the head of the queue.
* `getTasks_inOrder`: from a usable state the calls follow the queue.
* `linearPlotCreate_inOrder_iff`: a new plot follows the members it was created from exactly if
  there is at most one of them.
-/

namespace Qkmetisc.Plots

/-- `struct linear_plot_member`. -/
structure LinearPlotMember (γ : Type*) where
  gen : γ
  taskCount : BitVec 32
  timeoutBase : BitVec 64
  timeoutDec : BitVec 64

/-- `struct linear_plot_priv`; `members_count` is the length of `members`. -/
structure LinearPlotPriv (γ : Type*) where
  members : List (LinearPlotMember γ)
  curMemberIndex : ℕ
  curTaskNr : BitVec 32

/-- `struct plot_task`, the task being known by the generator that made it. -/
structure PlotTask (γ : Type*) where
  genTask : γ
  msecTimeout : BitVec 64

/-- A plot and the generators destroyed so far, in order. -/
structure PlotState (γ : Type*) where
  priv : LinearPlotPriv γ
  destroyed : List γ

/-- How a call can end without returning. -/
inductive PlotFault where
  | assertFailed
  | outOfBounds
  | useAfterFree
  deriving Repr, DecidableEq

/-- What `plot_get_task` returns: a task, `NULL` with `errno` set to `ENOTASK`, or `NULL` for a
task that could not be made. -/
inductive GetTask (γ : Type*) where
  | task (pt : PlotTask γ)
  | noTask
  | failed

variable {γ : Type*}

/-- The loop of `linear_plot_create` that fills the new array, member by member. -/
def copyMembers : List (LinearPlotMember γ) → List (LinearPlotMember γ)
  | [] => []
  | membs :: rest =>
    -- membs points to the first member in every round
    (List.range (membs :: rest).length).map fun _ =>
      { gen := membs.gen
        taskCount := membs.taskCount
        timeoutBase := membs.timeoutBase
        timeoutDec := membs.timeoutDec }

/-- `linear_plot_create`; the flags tell which of the three allocations succeed. -/
def linearPlotCreate (membs : List (LinearPlotMember γ))
    (mallocPlot mallocPriv mallocMembers : Bool) : Option (PlotState γ) :=
  if mallocPlot = false then none
  else if mallocPriv = false then none
  else if 2 ^ 64 ≤ 32 * membs.length then none  -- the size of the array overflows
  else if mallocMembers = false then none
  else some
    { priv := { members := copyMembers membs, curMemberIndex := 0, curTaskNr := 0 }
      destroyed := [] }

variable [DecidableEq γ]

/-- `linear_plot_get_task`, which is what `plot_get_task` calls for this plot. `ndebug` leaves the
assertions out; `generate` and `malloc` tell whether `gen_generate` and the allocation of the
plot task succeed. -/
def linearPlotGetTask (ndebug : Bool) (s : PlotState γ) (generate malloc : Bool) :
    Except PlotFault (PlotState γ × GetTask γ) :=
  let p := s.priv
  if p.curMemberIndex = p.members.length then .ok (s, .noTask)
  else
    match p.members[p.curMemberIndex]? with
    | none => .error .outOfBounds
    | some curMember =>
      if ndebug = false ∧ ¬p.curTaskNr < curMember.taskCount then .error .assertFailed
      else if curMember.gen ∈ s.destroyed then .error .useAfterFree
      else if generate = false then .ok (s, .failed)
      else if malloc = false then .ok (s, .failed)
      else
        let msecTimeout :=
          curMember.timeoutBase - curMember.taskCount.setWidth 64 * curMember.timeoutDec
        if ndebug = false ∧ ¬curMember.timeoutBase ≤ msecTimeout then .error .assertFailed
        else
          let pt := { genTask := curMember.gen, msecTimeout }
          let curTaskNr := p.curTaskNr + 1
          if curMember.taskCount = curTaskNr then
            .ok ({ priv := { p with curMemberIndex := p.curMemberIndex + 1, curTaskNr := 0 }
                   destroyed := s.destroyed ++ [curMember.gen] }, .task pt)
          else .ok ({ s with priv := { p with curTaskNr } }, .task pt)

/-- The results of `n` calls in a row, with the assertions left out and with generation and
allocation succeeding. -/
def getTasks : ℕ → PlotState γ → Except PlotFault (List (GetTask γ))
  | 0, _ => .ok []
  | n + 1, s =>
    match linearPlotGetTask true s true true with
    | .error e => .error e
    | .ok (s, result) =>
      match getTasks n s with
      | .error e => .error e
      | .ok results => .ok (result :: results)

/-- The generators of the tasks that an array of members asks for, in order. -/
def taskGens (members : List (LinearPlotMember γ)) : List γ :=
  members.flatMap fun m => List.replicate m.taskCount.toNat m.gen

/-- The results give tasks of these generators, in order, and `ENOTASK` after that. -/
def InOrder : List γ → List (GetTask γ) → Prop
  | _, [] => True
  | [], result :: results => result = .noTask ∧ InOrder [] results
  | gen :: gens, result :: results =>
    (∃ pt, result = .task pt ∧ pt.genTask = gen) ∧ InOrder gens results

/-- However often `plot_get_task` is called, it returns the tasks of `members` in order and then
`ENOTASK` on every further call. -/
def FollowsMembers (members : List (LinearPlotMember γ)) (s : PlotState γ) : Prop :=
  ∀ n, ∃ results, getTasks n s = .ok results ∧ results.length = n ∧
    InOrder (taskGens members) results

section Queue

/-- The generators of the tasks still to come. -/
def pending (s : PlotState γ) : List γ :=
  match s.priv.members.drop s.priv.curMemberIndex with
  | [] => []
  | m :: ms => List.replicate (m.taskCount.toNat - s.priv.curTaskNr.toNat) m.gen ++ taskGens ms

/-- What the members not yet done have to be: they ask for tasks, and their generators are
different and not destroyed. -/
structure Usable (s : PlotState γ) : Prop where
  index : s.priv.curMemberIndex ≤ s.priv.members.length
  positive : ∀ m ∈ s.priv.members.drop s.priv.curMemberIndex, 0 < m.taskCount.toNat
  taskNr : ∀ m, s.priv.members[s.priv.curMemberIndex]? = some m →
    s.priv.curTaskNr.toNat < m.taskCount.toNat
  nodup : ((s.priv.members.drop s.priv.curMemberIndex).map (·.gen)).Nodup
  live : ∀ m ∈ s.priv.members.drop s.priv.curMemberIndex, m.gen ∉ s.destroyed

/-- The state after a task of the member at the cursor. -/
def PlotState.advance (s : PlotState γ) (m : LinearPlotMember γ) : PlotState γ :=
  if m.taskCount.toNat = s.priv.curTaskNr.toNat + 1 then
    { priv := { s.priv with curMemberIndex := s.priv.curMemberIndex + 1, curTaskNr := 0 }
      destroyed := s.destroyed ++ [m.gen] }
  else { s with priv := { s.priv with curTaskNr := s.priv.curTaskNr + 1 } }

variable {s : PlotState γ} {m : LinearPlotMember γ}

theorem toNat_succ_of_lt {nr count : BitVec 32} (h : nr.toNat < count.toNat) :
    (nr + 1).toNat = nr.toNat + 1 := by
  have hlt := count.isLt
  have hone : (1 : BitVec 32).toNat = 1 := rfl
  rw [BitVec.toNat_add, hone]
  exact Nat.mod_eq_of_lt (by omega)

omit [DecidableEq γ] in
/-- The cursor on a member is not at the end. -/
theorem curMemberIndex_ne_length (hm : s.priv.members[s.priv.curMemberIndex]? = some m) :
    s.priv.curMemberIndex ≠ s.priv.members.length := by
  intro heq
  rw [heq, List.getElem?_length] at hm
  cases hm

/-- A call with a member at the cursor that has tasks left and whose generator is alive. -/
theorem linearPlotGetTask_live (hm : s.priv.members[s.priv.curMemberIndex]? = some m)
    (hnr : s.priv.curTaskNr.toNat < m.taskCount.toNat) (hgen : m.gen ∉ s.destroyed) :
    ∃ pt, linearPlotGetTask true s true true = .ok (s.advance m, .task pt) ∧
      pt.genTask = m.gen := by
  have hindex := curMemberIndex_ne_length hm
  have hlast : m.taskCount = s.priv.curTaskNr + 1 ↔
      m.taskCount.toNat = s.priv.curTaskNr.toNat + 1 := by
    rw [← BitVec.toNat_inj, toNat_succ_of_lt hnr]
  refine ⟨⟨m.gen, m.timeoutBase - m.taskCount.setWidth 64 * m.timeoutDec⟩, ?_, rfl⟩
  -- what is left is whether the count of the member has been reached
  simp only [linearPlotGetTask, if_neg hindex, hm, Bool.true_eq_false, false_and, if_false,
    if_neg hgen, hlast, PlotState.advance]
  split <;> rfl

/-- A generator that was destroyed must not be asked for another task. -/
theorem linearPlotGetTask_destroyed (hm : s.priv.members[s.priv.curMemberIndex]? = some m)
    (hgen : m.gen ∈ s.destroyed) :
    linearPlotGetTask true s true true = .error .useAfterFree := by
  have hindex := curMemberIndex_ne_length hm
  simp only [linearPlotGetTask, if_neg hindex, hm, Bool.true_eq_false, false_and, if_false,
    if_pos hgen]

omit [DecidableEq γ] in
/-- The member at the cursor, when there is one. -/
theorem getElem?_of_drop {members : List (LinearPlotMember γ)} {i : ℕ}
    {ms : List (LinearPlotMember γ)} (h : members.drop i = m :: ms) :
    members[i]? = some m ∧ members.drop (i + 1) = ms := by
  constructor
  · rw [← List.head?_drop, h]
    rfl
  · rw [← List.tail_drop, h]
    rfl

/-- When nothing is pending every call reports `ENOTASK`. -/
theorem linearPlotGetTask_done (h : Usable s) (hp : pending s = [])
    (ndebug generate malloc : Bool) :
    linearPlotGetTask ndebug s generate malloc = .ok (s, .noTask) := by
  have hindex : s.priv.curMemberIndex = s.priv.members.length := by
    unfold pending at hp
    cases hdrop : s.priv.members.drop s.priv.curMemberIndex with
    | nil => exact Nat.le_antisymm h.index (List.drop_eq_nil_iff.1 hdrop)
    | cons m ms =>
      -- a member at the cursor has a task left
      have hnr := h.taskNr m (getElem?_of_drop hdrop).1
      simp only [hdrop, List.append_eq_nil_iff, List.replicate_eq_nil_iff] at hp
      omega
  rw [linearPlotGetTask, if_pos hindex]

/-- A call takes the head of the queue. -/
theorem linearPlotGetTask_pop (h : Usable s) {gen : γ} {rest : List γ}
    (hp : pending s = gen :: rest) :
    ∃ s' pt, linearPlotGetTask true s true true = .ok (s', .task pt) ∧ pt.genTask = gen ∧
      Usable s' ∧ pending s' = rest := by
  cases hdrop : s.priv.members.drop s.priv.curMemberIndex with
  | nil => simp [pending, hdrop] at hp
  | cons m ms =>
    obtain ⟨hm, hms⟩ := getElem?_of_drop hdrop
    have hnr := h.taskNr m hm
    have hlive := h.live m (hdrop ▸ List.mem_cons_self)
    obtain ⟨pt, hcall, hpt⟩ := linearPlotGetTask_live hm hnr hlive
    -- the head of the queue is the generator at the cursor
    obtain ⟨k, hk⟩ : ∃ k, m.taskCount.toNat - s.priv.curTaskNr.toNat = k + 1 :=
      ⟨m.taskCount.toNat - s.priv.curTaskNr.toNat - 1, by omega⟩
    simp only [pending, hdrop, hk, List.replicate_succ, List.cons_append, List.cons.injEq] at hp
    obtain ⟨rfl, rfl⟩ := hp
    refine ⟨s.advance m, pt, hcall, hpt, ?_⟩
    have hnodup := h.nodup
    rw [hdrop, List.map_cons, List.nodup_cons] at hnodup
    unfold PlotState.advance
    by_cases hlast : m.taskCount.toNat = s.priv.curTaskNr.toNat + 1
    · -- the last task of the member: its generator is destroyed and the cursor moves on
      rw [if_pos hlast]
      have hk : k = 0 := by omega
      have hmem {m'} (hm' : m' ∈ ms) : m' ∈ s.priv.members.drop s.priv.curMemberIndex :=
        hdrop ▸ List.mem_cons_of_mem m hm'
      refine ⟨⟨?_, ?_, ?_, ?_, ?_⟩, ?_⟩
      · exact Nat.lt_of_not_le fun hle => by simp [List.drop_eq_nil_of_le hle] at hdrop
      · intro m' hm'
        rw [hms] at hm'
        exact h.positive m' (hmem hm')
      · intro m' hm'
        rw [← List.head?_drop, hms] at hm'
        exact h.positive m' (hmem (List.mem_of_head? hm'))
      · rw [hms]
        exact hnodup.2
      · intro m' hm'
        rw [hms] at hm'
        have hne : m'.gen ≠ m.gen := fun heq => hnodup.1 (heq ▸ List.mem_map_of_mem hm')
        simp [hne, h.live m' (hmem hm')]
      · rw [hk, List.replicate_zero, List.nil_append]
        unfold pending
        rw [hms]
        cases ms <;> rfl
    · rw [if_neg hlast]
      -- more tasks of the same member: only the counter moves
      have hsucc := toNat_succ_of_lt hnr
      refine ⟨⟨h.index, h.positive, ?_, h.nodup, h.live⟩, ?_⟩
      · intro m' hm'
        obtain rfl := Option.some.inj (hm.symm.trans hm')
        show (s.priv.curTaskNr + 1).toNat < _
        omega
      · have hk : m.taskCount.toNat - (s.priv.curTaskNr + 1).toNat = k := by omega
        simp only [pending, hdrop, hk]

/-- From a usable state any number of calls follows the queue. -/
theorem getTasks_inOrder (h : Usable s) (n : ℕ) :
    ∃ results, getTasks n s = .ok results ∧ results.length = n ∧ InOrder (pending s) results := by
  induction n generalizing s with
  | zero => exact ⟨[], rfl, rfl, by simp [InOrder]⟩
  | succ n ih =>
    cases hp : pending s with
    -- the queue is empty and stays empty
    | nil =>
      obtain ⟨results, hrest, hlen, horder⟩ := ih h
      rw [hp] at horder
      refine ⟨.noTask :: results, ?_, by rw [List.length_cons, hlen], rfl, horder⟩
      rw [getTasks, linearPlotGetTask_done h hp]
      simp only [hrest]
    | cons gen rest =>
      obtain ⟨s', pt, hcall, hgen, h', hp'⟩ := linearPlotGetTask_pop h hp
      obtain ⟨results, hrest, hlen, horder⟩ := ih h'
      rw [hp'] at horder
      refine ⟨.task pt :: results, ?_, by rw [List.length_cons, hlen], ⟨pt, rfl, hgen⟩, horder⟩
      rw [getTasks, hcall]
      simp only [hrest]

/-- When the next member has the same generator as the member at the cursor, the call after the
last task of the latter uses a generator that was destroyed. -/
theorem getTasks_shared {m' : LinearPlotMember γ}
    (hm : s.priv.members[s.priv.curMemberIndex]? = some m)
    (hm' : s.priv.members[s.priv.curMemberIndex + 1]? = some m') (hgen : m'.gen = m.gen)
    (hlive : m.gen ∉ s.destroyed) {k : ℕ}
    (hk : m.taskCount.toNat = s.priv.curTaskNr.toNat + k + 1) :
    getTasks (k + 2) s = .error .useAfterFree := by
  induction k generalizing s with
  | zero =>
    -- the last task of the member: the cursor moves on to a dead generator
    obtain ⟨pt, hcall, -⟩ := linearPlotGetTask_live hm (by omega) hlive
    rw [PlotState.advance, if_pos hk] at hcall
    have hdead : m'.gen ∈ s.destroyed ++ [m.gen] := by simp [hgen]
    simp only [getTasks, hcall, linearPlotGetTask_destroyed
      (s := ⟨⟨s.priv.members, s.priv.curMemberIndex + 1, 0⟩, s.destroyed ++ [m.gen]⟩) hm' hdead]
  | succ k ih =>
    -- one task fewer to go, with both members where they were
    obtain ⟨pt, hcall, -⟩ := linearPlotGetTask_live hm (by omega) hlive
    rw [PlotState.advance, if_neg (by omega)] at hcall
    have hrest := ih (s := ⟨⟨s.priv.members, s.priv.curMemberIndex, s.priv.curTaskNr + 1⟩,
      s.destroyed⟩) hm hm' hlive (by
        have hsucc : (s.priv.curTaskNr + 1).toNat = s.priv.curTaskNr.toNat + 1 :=
          toNat_succ_of_lt (show _ < m.taskCount.toNat by omega)
        simp only [hsucc]
        omega)
    rw [getTasks, hcall]
    simp only [hrest]

end Queue

section Create

variable {membs : List (LinearPlotMember γ)} {s : PlotState γ}

omit [DecidableEq γ] in
/-- Every member of the new array is the first one of the given array. -/
theorem copyMembers_cons (first : LinearPlotMember γ) (rest : List (LinearPlotMember γ)) :
    copyMembers (first :: rest) = List.replicate (rest.length + 1) first := by
  simp [copyMembers, List.map_const']

omit [DecidableEq γ] in
/-- A new plot starts at the first of its copied members. -/
theorem linearPlotCreate_eq {mallocPlot mallocPriv mallocMembers : Bool}
    (h : linearPlotCreate membs mallocPlot mallocPriv mallocMembers = some s) :
    s = ⟨⟨copyMembers membs, 0, 0⟩, []⟩ := by
  unfold linearPlotCreate at h
  split at h
  · cases h
  · split at h
    · cases h
    · split at h
      · cases h
      · split at h
        · cases h
        · exact (Option.some.inj h).symm

omit [DecidableEq γ] in
/-- Members with positive counts and generators of their own make a usable plot, if the array
holds these members. -/
theorem usable_of_members (hpos : ∀ m ∈ membs, 0 < m.taskCount.toNat)
    (hnodup : (membs.map (·.gen)).Nodup) : Usable (⟨⟨membs, 0, 0⟩, []⟩ : PlotState γ) where
  index := Nat.zero_le _
  positive := hpos
  taskNr := fun m hm => hpos m (List.mem_of_getElem? hm)
  nodup := hnodup
  live := fun m _ => by simp

omit [DecidableEq γ] in
theorem pending_of_members (membs : List (LinearPlotMember γ)) :
    pending (⟨⟨membs, 0, 0⟩, []⟩ : PlotState γ) = taskGens membs := by
  cases membs <;> rfl

/-- A plot created from members with positive task counts returns the tasks of `membs[0]`, then
those of `membs[1]`, and so on, and then `ENOTASK` on every further call, exactly if there is at
most one member. With more, the array holds copies of the first one, whose generator is destroyed
after its tasks and then used again. -/
theorem linearPlotCreate_inOrder_iff (hpos : ∀ m ∈ membs, 0 < m.taskCount.toNat)
    {mallocPlot mallocPriv mallocMembers : Bool}
    (hcreate : linearPlotCreate membs mallocPlot mallocPriv mallocMembers = some s) :
    FollowsMembers membs s ↔ membs.length ≤ 1 := by
  obtain rfl := linearPlotCreate_eq hcreate
  constructor
  · intro hfollows
    -- with two members the array holds the first one twice
    by_contra hlen
    obtain ⟨first, second, rest, rfl⟩ : ∃ first second rest, membs = first :: second :: rest := by
      match membs with
      | [] | [_] => simp at hlen
      | first :: second :: rest => exact ⟨first, second, rest, rfl⟩
    obtain ⟨k, hk⟩ : ∃ k, first.taskCount.toNat = 0 + k + 1 :=
      ⟨first.taskCount.toNat - 1, by have := hpos first List.mem_cons_self; omega⟩
    obtain ⟨results, hresults, -⟩ := hfollows (k + 2)
    rw [copyMembers_cons, getTasks_shared (m := first) rfl rfl rfl (by simp) hk]
      at hresults
    cases hresults
  · intro hlen n
    -- with one or none the copy is faithful
    have hcopy : copyMembers membs = membs := by
      match membs with
      | [] => rfl
      | [m] => rfl
      | _ :: _ :: _ => simp at hlen
    have hnodup : (membs.map (·.gen)).Nodup := by
      match membs with
      | [] => exact List.nodup_nil
      | [m] => exact List.nodup_singleton _
      | _ :: _ :: _ => simp at hlen
    rw [hcopy, ← pending_of_members membs]
    exact getTasks_inOrder (usable_of_members hpos hnodup) n

/-- A plot with a single member, of three tasks. -/
theorem linearPlotCreate_inOrder_one : FollowsMembers [(⟨7, 3, 10000, 100⟩ : LinearPlotMember ℕ)]
    ⟨⟨[⟨7, 3, 10000, 100⟩], 0, 0⟩, []⟩ :=
  (linearPlotCreate_inOrder_iff (by decide) (show linearPlotCreate _ true true true = _ from rfl)).2
    (by decide)

/-- The members of the plot of `troll_eq_plot_create`. -/
def trollEqPlotMembers (eqGen pythonShellcodeGen echoGen : γ) : List (LinearPlotMember γ) :=
  [{ gen := eqGen, taskCount := 20, timeoutBase := 10000, timeoutDec := 100 },
    { gen := pythonShellcodeGen, taskCount := 5, timeoutBase := 10000, timeoutDec := 100 },
    { gen := echoGen, taskCount := 1, timeoutBase := 10000, timeoutDec := 0 }]

/-- The plot of the repository does not hand out its members' tasks in order. -/
theorem not_inOrder_trollEqPlot :
    ¬∀ (membs : List (LinearPlotMember ℕ)) (s : PlotState ℕ),
      (∀ m ∈ membs, 0 < m.taskCount.toNat) → linearPlotCreate membs true true true = some s →
      FollowsMembers membs s := by
  intro hall
  have hfollows := hall (trollEqPlotMembers 0 1 2) _ (by decide) rfl
  obtain ⟨results, hresults, -⟩ := hfollows 21
  have hfault := getTasks_shared
    (s := ⟨⟨copyMembers (trollEqPlotMembers 0 1 2), 0, 0⟩, []⟩) (k := 19) rfl rfl rfl (by simp) rfl
  rw [hfault] at hresults
  cases hresults

end Create

end Qkmetisc.Plots
