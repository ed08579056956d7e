import Qkmetisc.Server.PlotSocketLives

/-!
# Removing a plot (`server_remove_plot`)

`server_remove_plot` searches the ring of the active plot sockets for a port. Here is what a call
returns, with the loop of the search as it stands in the source.

## Main definitions

* `removeLoop`, `serverRemovePlotCall`: the loop, and a call with what it returns.
* `State.HasPort`: an active plot socket has the port.
* `RemovesPlot`: what a call is for.

## Main results

* `serverRemovePlotCall_state`: the search ends in its first round.
* `removesPlot_iff`: when a call does what it is for.
-/

namespace Qkmetisc.PlotSockets

variable {Pc : Type}

/-- A plot socket is deregistered, closed, marked and moved to the other ring. -/
def removePlotSocket (s : State Pc) (iter : ℕ) (p : PlotSocket Pc) : State Pc :=
  let s := { s with epoll := Function.update s.epoll p.sockfd none }
  let s := s.close p.sockfd
  let s := s.store iter { p with sockfd := -1, active := false }
  { s with
    plotSockets := s.plotSockets.erase iter
    inactivePlotSockets := s.inactivePlotSockets ++ [iter] }

/-- The loop of `server_remove_plot` from a round with this `iter` on, in at most so many rounds:
the state, and what the call returns. -/
def removeLoop (port : ℕ) : ℕ → ℕ → State Pc → Option (State Pc × ℤ)
  | 0, _, _ => none
  | fuel + 1, iter, s =>
    match s.memory iter with
    | none => some (s.observe (.useAfterFree iter), -1)
    | some p =>
      if p.port = port then some (removePlotSocket s iter p, 0)
      -- nothing moves `iter` on before it is compared with the head
      else if s.plotSockets.head? ≠ some iter then removeLoop port fuel iter s
      else some (s, -1)

/-- A call of `server_remove_plot`: the state, and what the call returns. -/
def serverRemovePlotCall (fuel : ℕ) (s : State Pc) (port : ℕ) : Option (State Pc × ℤ) :=
  match s.plotSockets with
  | [] => some (s, -1)
  | head :: _ => removeLoop port fuel head s

/-- An active plot socket has the port. -/
def State.HasPort (s : State Pc) (port : ℕ) : Prop :=
  ∃ ps ∈ s.plotSockets, ∃ p, s.memory ps = some p ∧ p.port = port

/-- The plot socket at the head of the ring has the port. -/
def State.HeadHasPort (s : State Pc) (port : ℕ) : Prop :=
  ∃ ps ∈ s.plotSockets.head?, ∃ p, s.memory ps = some p ∧ p.port = port

/-- The state without one of its active plot sockets: it has left the epoll instance, its
descriptor is closed, it is marked inactive and is the last one in the ring of the inactive ones.
All others are where they were. -/
def State.without (s : State Pc) (ps : ℕ) (p : PlotSocket Pc) : State Pc :=
  { s with
    memory := Function.update s.memory ps (some { p with sockfd := -1, active := false })
    sockets := Function.update s.sockets p.sockfd none
    epoll := Function.update s.epoll p.sockfd none
    plotSockets := s.plotSockets.erase ps
    inactivePlotSockets := s.inactivePlotSockets ++ [ps]
    log := .closed ps :: s.log }

/-- What a call is for: the search ends, it returns 0 exactly if an active plot socket has the
port, it has removed one such plot socket then, and it returns -1 and has changed nothing
otherwise. -/
def RemovesPlot (s : State Pc) (port : ℕ) : Prop :=
  ∃ s' ret rounds, (∀ fuel ≥ rounds, serverRemovePlotCall fuel s port = some (s', ret)) ∧
    (ret = 0 ↔ s.HasPort port) ∧
      (ret = 0 → ∃ ps ∈ s.plotSockets, ∃ p, s.memory ps = some p ∧ p.port = port ∧
        s' = s.without ps p) ∧
      (ret ≠ 0 → ret = -1 ∧ s' = s)

section Search

variable {s : State Pc} {port ps : ℕ} {p : PlotSocket Pc}

theorem State.HeadHasPort.hasPort (h : s.HeadHasPort port) : s.HasPort port := by
  obtain ⟨ps, hps, hport⟩ := h
  exact ⟨ps, List.mem_of_mem_head? hps, hport⟩

/-- The first round is the last one, and leaves the state that `serverRemovePlot` gives. -/
theorem serverRemovePlotCall_state (fuel : ℕ) (s : State Pc) (port : ℕ) :
    (serverRemovePlotCall (fuel + 1) s port).map Prod.fst = some (serverRemovePlot s port) := by
  unfold serverRemovePlotCall serverRemovePlot
  cases hring : s.plotSockets with
  | nil => rfl
  | cons iter rest =>
    simp only [removeLoop, State.deref]
    cases s.memory iter with
    | none => rfl
    | some p =>
      by_cases hport : p.port = port
      · -- the head is taken out of the ring
        simp only [if_pos hport, Option.map_some, removePlotSocket, State.close]
        cases s.sockets p.sockfd <;> simp [hring, State.store, State.observe]
      · simp [if_neg hport, hring]

variable [DecidableEq Pc]

/-- An active plot socket is allocated, and its descriptor is open. -/
theorem Inv.active (h : Inv s) (hps : ps ∈ s.plotSockets) :
    ∃ p, s.memory ps = some p ∧ s.sockets p.sockfd = some ps := by
  obtain ⟨st, hst⟩ := h.lives ps
  obtain ⟨p, rfl⟩ := hst.active_of_mem hps
  exact ⟨p, hst.memory, (hst.sockets p.sockfd).2 rfl⟩

omit [DecidableEq Pc] in
theorem removePlotSocket_eq (hfd : s.sockets p.sockfd = some ps) :
    removePlotSocket s ps p = s.without ps p := by
  simp [removePlotSocket, State.close, hfd, State.observe, State.store, State.without]

/-- A call that finds the port at the head. -/
theorem serverRemovePlotCall_head (h : Inv s) (hhead : s.HeadHasPort port) :
    ∃ ps ∈ s.plotSockets, ∃ p, s.memory ps = some p ∧ p.port = port ∧
      ∀ fuel ≥ 1, serverRemovePlotCall fuel s port = some (s.without ps p, 0) := by
  obtain ⟨ps, hps, p, hp, hport⟩ := hhead
  obtain ⟨p', hp', hfd⟩ := h.active (List.mem_of_mem_head? hps)
  obtain rfl : p = p' := Option.some.inj (hp.symm.trans hp')
  refine ⟨ps, List.mem_of_mem_head? hps, p, hp, hport, fun fuel hfuel => ?_⟩
  obtain ⟨rest, hring⟩ : ∃ rest, s.plotSockets = ps :: rest := List.head?_eq_some_iff.1 hps
  obtain ⟨fuel, rfl⟩ := Nat.exists_eq_add_of_le' hfuel
  simp only [serverRemovePlotCall, hring, removeLoop, hp, if_pos hport, removePlotSocket_eq hfd]

/-- A call that does not, wherever else the port may be. -/
theorem serverRemovePlotCall_not_head (h : Inv s) (hhead : ¬s.HeadHasPort port) :
    ∀ fuel ≥ 1, serverRemovePlotCall fuel s port = some (s, -1) := by
  intro fuel hfuel
  obtain ⟨fuel, rfl⟩ := Nat.exists_eq_add_of_le' hfuel
  cases hring : s.plotSockets with
  | nil => simp only [serverRemovePlotCall, hring]
  | cons ps rest =>
    have hps : ps ∈ s.plotSockets.head? := by simp [hring]
    obtain ⟨p, hp, -⟩ := h.active (List.mem_of_mem_head? hps)
    have hport : p.port ≠ port := fun hport => hhead ⟨ps, hps, p, hp, hport⟩
    simp [serverRemovePlotCall, hring, removeLoop, hp, hport]

/-- In the states with the invariant a call does what it is for exactly if the port is at the head
or nowhere. -/
theorem Inv.removes_iff (h : Inv s) :
    RemovesPlot s port ↔ (s.HasPort port → s.HeadHasPort port) := by
  constructor
  · rintro ⟨s', ret, rounds, hcall, hret, -⟩ hport
    by_contra hhead
    -- the call returns -1 although the port is there
    have hmiss := serverRemovePlotCall_not_head h hhead (max rounds 1) (Nat.le_max_right _ _)
    rw [hcall _ (Nat.le_max_left _ _)] at hmiss
    obtain ⟨-, rfl⟩ : s' = s ∧ ret = -1 := by simpa using hmiss
    exact absurd (hret.2 hport) (by decide)
  · intro hfirst
    by_cases hhead : s.HeadHasPort port
    · obtain ⟨ps, hps, p, hp, hport, hcall⟩ := serverRemovePlotCall_head h hhead
      exact ⟨_, 0, 1, hcall, iff_of_true rfl hhead.hasPort,
        fun _ => ⟨ps, hps, p, hp, hport, rfl⟩, fun hne => absurd rfl hne⟩
    · have hnone : ¬s.HasPort port := fun hport => hhead (hfirst hport)
      exact ⟨s, -1, 1, serverRemovePlotCall_not_head h hhead, iff_of_false (by decide) hnone,
        fun heq => absurd heq (by decide), fun _ => ⟨rfl, rfl⟩⟩

end Search

variable [DecidableEq Pc]

/-- In every reachable state, and for every port, a call returns 0 exactly if an active plot socket
has the port, with one such plot socket deregistered, closed, marked inactive and moved to the
inactive ring, and otherwise returns -1 and changes nothing, if and only if the port is that of the
head of the ring or of no active plot socket. -/
theorem removesPlot_iff (inputs : List (Input Pc)) (port : ℕ) :
    RemovesPlot (InputMachine.run step State.start inputs) port ↔
      ((InputMachine.run step State.start inputs : State Pc).HasPort port →
        (InputMachine.run step State.start inputs : State Pc).HeadHasPort port) :=
  (InputMachine.invariant_run_of_step (fun _ i h => h.step i) inputs inv_start).removes_iff

/-- Two plots are added, on the ports 1 and 2. -/
def twoPlots : List (Input Unit) :=
  [.addBegin () 1 (some 0) (some 5) true true, .addLocked ⟨0, 5⟩ true,
    .addBegin () 2 (some 0) (some 6) true true, .addLocked ⟨1, 6⟩ true]

/-- The second of two plots cannot be removed. -/
theorem not_removesPlot :
    ¬∀ (inputs : List (Input Unit)) (port : ℕ),
      RemovesPlot (InputMachine.run step State.start inputs) port := by
  intro hall
  obtain ⟨s', ret, rounds, hcall, hret, -⟩ := hall twoPlots 2
  have hport : ret = 0 := hret.2 ⟨1, by decide, ⟨6, (), 2, true⟩, rfl, rfl⟩
  have hmiss : ∀ fuel : ℕ, (serverRemovePlotCall (fuel + 1)
      (InputMachine.run step State.start twoPlots) 2).map Prod.snd = some (-1) := fun _ => rfl
  have hcalled := hmiss rounds
  rw [hcall _ (Nat.le_succ _), hport] at hcalled
  simp at hcalled

end Qkmetisc.PlotSockets
