import Qkmetisc.Plots.Linear

/-!
# The generators of a linear plot over its life

A linear plot destroys a generator either when its member has given all its tasks, or when the
plot itself is destroyed; only the two cursors say which. Any of the calls in between may fail.

## Main definitions

* `linearPlotPrivDestroy`: the function of the source.
* `runGetTask`: a plot after a number of calls, which may fail.
* `Spent`: the generators destroyed so far are those of the members before the cursor.

## Main results

* `linearPlotGetTask_spent`: one call, whether it fails or not.
* `linearPlotPrivDestroy_spent`: the members from the cursor on are the ones left to destroy.
* `linearPlot_generators`: over the whole life every generator is destroyed once, and none is used
  after that.
-/

namespace Qkmetisc.Plots

variable {γ : Type*} [DecidableEq γ]

/-- `gen_destroy`, given the generators destroyed before. -/
def genDestroy (gen : γ) (destroyed : List γ) : Except PlotFault (List γ) :=
  if gen ∈ destroyed then .error .useAfterFree else .ok (destroyed ++ [gen])

/-- The loop of `linear_plot_priv_destroy`, from the member at `i` on. -/
def destroyMembers (p : LinearPlotPriv γ) (i : ℕ) (destroyed : List γ) :
    Except PlotFault (List γ) :=
  if h : i < p.members.length then
    match genDestroy p.members[i].gen destroyed with
    | .error e => .error e
    | .ok destroyed => destroyMembers p (i + 1) destroyed
  else .ok destroyed
  termination_by p.members.length - i

/-- `linear_plot_priv_destroy`: the generators that have been destroyed in the end. -/
def linearPlotPrivDestroy (s : PlotState γ) : Except PlotFault (List γ) :=
  destroyMembers s.priv s.priv.curMemberIndex s.destroyed

/-- The plot after calls of `linear_plot_get_task`, each with what `gen_generate` and the
allocation of the plot task do. The assertions are left out. -/
def runGetTask (s : PlotState γ) : List (Bool × Bool) → Except PlotFault (PlotState γ)
  | [] => .ok s
  | (generate, malloc) :: calls =>
    match linearPlotGetTask true s generate malloc with
    | .error e => .error e
    | .ok (s, _) => runGetTask s calls

/-- The call has returned a task. -/
def GetTask.isTask : GetTask γ → Bool
  | task _ => true
  | noTask | failed => false

/-- A usable plot of these members has destroyed the generators of the members it is done with,
and no others. -/
structure Spent (members : List (LinearPlotMember γ)) (s : PlotState γ) : Prop where
  usable : Usable s
  same : s.priv.members = members
  destroyed : s.destroyed = (members.take s.priv.curMemberIndex).map (·.gen)

variable {members : List (LinearPlotMember γ)} {s : PlotState γ} {m : LinearPlotMember γ}

/-! ## One call -/

omit [DecidableEq γ] in
/-- A plot that is not done has a member at the cursor. -/
theorem exists_member_of_pending (hp : pending s ≠ []) :
    ∃ m, s.priv.members[s.priv.curMemberIndex]? = some m := by
  refine Option.ne_none_iff_exists'.1 fun hnone => hp ?_
  rw [pending, List.drop_eq_nil_of_le (List.getElem?_eq_none_iff.1 hnone)]

/-- A call that fails leaves everything as it was. -/
theorem linearPlotGetTask_fails (hm : s.priv.members[s.priv.curMemberIndex]? = some m)
    (hgen : m.gen ∉ s.destroyed) {generate malloc : Bool} (hfails : (generate && malloc) = false) :
    linearPlotGetTask true s generate malloc = .ok (s, .failed) := by
  have hindex := curMemberIndex_ne_length hm
  simp only [linearPlotGetTask, if_neg hindex, hm, Bool.true_eq_false, false_and, if_false,
    if_neg hgen]
  cases generate with
  | false => rfl
  | true =>
    have hmalloc : malloc = false := by simpa using hfails
    simp [hmalloc]

omit [DecidableEq γ] in
/-- The cursor moves on exactly when a generator is destroyed, which is the one at the cursor. -/
theorem Spent.advance (h : Spent members s)
    (hm : s.priv.members[s.priv.curMemberIndex]? = some m) (husable : Usable (s.advance m)) :
    Spent members (s.advance m) := by
  have hmember : members[s.priv.curMemberIndex]? = some m := h.same ▸ hm
  unfold PlotState.advance at husable ⊢
  split at husable
  next hlast =>
    rw [if_pos hlast]
    refine ⟨husable, h.same, ?_⟩
    simp [h.destroyed, List.take_add_one, hmember]
  next hmore =>
    rw [if_neg hmore]
    exact ⟨husable, h.same, h.destroyed⟩

/-- A call does not fault. It returns a task, or it changes nothing. -/
theorem linearPlotGetTask_spent (h : Spent members s) (generate malloc : Bool) :
    ∃ s' result, linearPlotGetTask true s generate malloc = .ok (s', result) ∧
      Spent members s' ∧ (result.isTask = false → s' = s) := by
  by_cases hp : pending s = []
  · exact ⟨s, .noTask, linearPlotGetTask_done h.usable hp true generate malloc, h, fun _ => rfl⟩
  · obtain ⟨m, hm⟩ := exists_member_of_pending hp
    have hdrop : m ∈ s.priv.members.drop s.priv.curMemberIndex := by
      rw [List.mem_drop_iff_getElem]
      obtain ⟨hlt, hget⟩ := List.getElem?_eq_some_iff.1 hm
      exact ⟨0, by simpa using hlt, by simpa using hget⟩
    have hlive := h.usable.live m hdrop
    cases hboth : generate && malloc with
    | false => exact ⟨s, .failed, linearPlotGetTask_fails hm hlive hboth, h, fun _ => rfl⟩
    | true =>
      obtain ⟨rfl, rfl⟩ : generate = true ∧ malloc = true := by simpa using hboth
      obtain ⟨pt, hcall, -⟩ := linearPlotGetTask_live hm (h.usable.taskNr m hm) hlive
      -- the state the call leaves is usable
      obtain ⟨gen, rest, hqueue⟩ := List.exists_cons_of_ne_nil hp
      obtain ⟨s', pt', hcall', -, husable, -⟩ := linearPlotGetTask_pop h.usable hqueue
      have heq : s' = s.advance m := by
        rw [hcall] at hcall'
        exact (congrArg Prod.fst (Except.ok.inj hcall')).symm
      exact ⟨s.advance m, .task pt, hcall, h.advance hm (heq ▸ husable), by simp [GetTask.isTask]⟩

/-- Any number of calls. -/
theorem runGetTask_spent (h : Spent members s) (calls : List (Bool × Bool)) :
    ∃ s', runGetTask s calls = .ok s' ∧ Spent members s' := by
  induction calls generalizing s with
  | nil => exact ⟨s, rfl, h⟩
  | cons call calls ih =>
    obtain ⟨generate, malloc⟩ := call
    obtain ⟨s', result, hcall, h', -⟩ := linearPlotGetTask_spent h generate malloc
    obtain ⟨s'', hrun, h''⟩ := ih h'
    refine ⟨s'', ?_, h''⟩
    rw [runGetTask, hcall]
    exact hrun

/-! ## The end -/

/-- The loop destroys the generators that are left, each of which is still there. -/
theorem destroyMembers_eq {p : LinearPlotPriv γ} (hnodup : (p.members.map (·.gen)).Nodup)
    {i : ℕ} (hi : i ≤ p.members.length) :
    destroyMembers p i ((p.members.take i).map (·.gen)) = .ok (p.members.map (·.gen)) := by
  -- backwards from the end of the array
  induction hi using Nat.decreasingInduction with
  | self =>
    rw [destroyMembers, dif_neg (Nat.lt_irrefl _), List.take_length]
  | of_succ i hi ih =>
    have htake : p.members.take (i + 1) = p.members.take i ++ [p.members[i]] :=
      List.take_succ_eq_append_getElem hi
    have hlive : p.members[i].gen ∉ (p.members.take i).map (·.gen) := by
      have hprefix : ((p.members.take (i + 1)).map (·.gen)).Nodup :=
        hnodup.sublist ((List.take_sublist _ _).map _)
      rw [htake, List.map_append, List.nodup_append] at hprefix
      intro hmem
      exact hprefix.2.2 _ hmem _ (by simp) rfl
    have hnext : genDestroy p.members[i].gen ((p.members.take i).map (·.gen)) =
        .ok ((p.members.take (i + 1)).map (·.gen)) := by
      rw [genDestroy, if_neg hlive, htake, List.map_append]
      rfl
    rw [destroyMembers, dif_pos hi, hnext]
    exact ih

/-- The destructor destroys the generators from the cursor on. -/
theorem linearPlotPrivDestroy_spent (h : Spent members s) (hnodup : (members.map (·.gen)).Nodup) :
    linearPlotPrivDestroy s = .ok (members.map (·.gen)) := by
  obtain ⟨husable, rfl, hdestroyed⟩ := h
  rw [linearPlotPrivDestroy, hdestroyed]
  exact destroyMembers_eq hnodup husable.index

omit [DecidableEq γ] in
/-- A new plot has destroyed nothing. -/
theorem spent_of_members (hpos : ∀ m ∈ members, 0 < m.taskCount)
    (hnodup : (members.map (·.gen)).Nodup) : Spent members ⟨⟨members, 0, 0⟩, []⟩ where
  usable := usable_of_members (fun m hm => by simpa using BitVec.lt_def.1 (hpos m hm)) hnodup
  same := rfl
  destroyed := rfl

/-- Whatever fails in whichever calls, and wherever the plot is destroyed, the cursors stay in
their bounds, a call that returns no task changes nothing, no generator is used or destroyed after
it was destroyed, and in the end every generator has been destroyed once. -/
theorem linearPlot_generators (hpos : ∀ m ∈ members, 0 < m.taskCount)
    (hnodup : (members.map (·.gen)).Nodup) (calls : List (Bool × Bool)) :
    ∃ s destroyed, runGetTask ⟨⟨members, 0, 0⟩, []⟩ calls = .ok s ∧
      s.priv.members = members ∧ s.priv.curMemberIndex ≤ members.length ∧
      (∀ m, members[s.priv.curMemberIndex]? = some m → s.priv.curTaskNr < m.taskCount) ∧
      (∀ generate malloc, ∃ s' result,
        linearPlotGetTask true s generate malloc = .ok (s', result) ∧
          (result.isTask = false → s' = s)) ∧
      linearPlotPrivDestroy s = .ok destroyed ∧
      destroyed.Perm (members.map (·.gen)) ∧ ∀ m ∈ members, destroyed.count m.gen = 1 := by
  obtain ⟨s, hrun, hs⟩ := runGetTask_spent (spent_of_members hpos hnodup) calls
  refine ⟨s, members.map (·.gen), hrun, hs.same, ?_, fun m hm => ?_, fun generate malloc => ?_,
    linearPlotPrivDestroy_spent hs hnodup, List.Perm.refl _, fun m hm => ?_⟩
  · have hindex := hs.usable.index
    rwa [hs.same] at hindex
  · rw [← hs.same] at hm
    exact BitVec.lt_def.2 (hs.usable.taskNr m hm)
  · obtain ⟨s', result, hcall, -, hsame⟩ := linearPlotGetTask_spent hs generate malloc
    exact ⟨s', result, hcall, hsame⟩
  · exact List.count_eq_one_of_mem hnodup (List.mem_map_of_mem hm)

/-- Two members of two and of three tasks. -/
def twoMembers : List (LinearPlotMember ℕ) := [⟨7, 2, 100, 0⟩, ⟨8, 3, 100, 0⟩]

/-- A call that fails in the middle of the first member, and the end in the middle of the
second. -/
theorem linearPlot_generators_two :
    ∃ s destroyed, runGetTask ⟨⟨twoMembers, 0, 0⟩, []⟩
        [(true, true), (true, false), (true, true), (true, true)] = .ok s ∧
      s.priv.curMemberIndex = 1 ∧ linearPlotPrivDestroy s = .ok destroyed ∧
      destroyed.Perm [7, 8] := by
  have hpos : ∀ m ∈ twoMembers, 0 < m.taskCount := by decide
  have hnodup : (twoMembers.map (·.gen)).Nodup := by decide
  obtain ⟨s, destroyed, hrun, -, -, -, -, hdestroy, hperm, -⟩ :=
    linearPlot_generators hpos hnodup [(true, true), (true, false), (true, true), (true, true)]
  refine ⟨s, destroyed, hrun, ?_, hdestroy, hperm⟩
  -- the first member is done, and has given its generator up
  have hs : s = ⟨⟨twoMembers, 1, 1⟩, [7]⟩ := (Except.ok.inj hrun).symm
  rw [hs]

end Qkmetisc.Plots
