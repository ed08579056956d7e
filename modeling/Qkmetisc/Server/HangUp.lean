import Qkmetisc.Server.Spec

/-!
# Clients that hang up

An event with `EPOLLRDHUP` ends in `client_disconnect`, by one of several ways: the answer was
wrong, the next task could not be given, the text could not be sent, or the test for the hang-up
itself. The one way around all of them is an incomplete answer, after which `worker_handler`
continues with the next event at once. The client then stays registered for hang-ups, and the
same event is reported again.

## Main definitions

* `State.DisconnectedIn`: the client was disconnected between two states.
* `State.AsksForMore`: the event finds an incomplete answer to the current task.

## Main results

* `serve_hangUp_iff`: when a hang-up leads to a disconnection.
* `not_disconnectedIn_more`: an incomplete answer of a client that has hung up.
-/

namespace Qkmetisc.Server

namespace State

/-- Between the two states the client was taken out of the epoll instance and the worker's ring,
and its socket was closed; it has not been put back since. -/
structure DisconnectedIn (s s' : State) : Prop where
  gone : s'.Gone
  /-- What was observed meanwhile includes the end of the registration and of the socket. -/
  ended : ∃ new, s'.log = new ++ s.log ∧ .deregistered ∈ new ∧ .closed ∈ new

/-- The event has the handler check the current task, and the answer to it is incomplete. -/
def AsksForMore (s : State) (ev : Events) (ans : Answers) : Prop :=
  ev.input = true ∧ s.currentTask.isSome ∧ plotTaskCheckFd ans = .more

instance (s : State) (ev : Events) (ans : Answers) : Decidable (s.AsksForMore ev ans) :=
  inferInstanceAs (Decidable (_ ∧ _ ∧ _))

end State

variable {ans : Answers} {s s₀ : State} {ev : Events}

/-- `client_disconnect` disconnects the client, whatever happened before. -/
theorem clientDisconnect_disconnects (h : s₀.log <:+ s.log) :
    clientDisconnect.wp (exec ans) (fun _ => s₀.DisconnectedIn) s := by
  have hlog : clientDisconnect.wp (exec ans)
      (fun _ s' => .closed :: .deregistered :: s.log <:+ s'.log) s := by
    unfold clientDisconnect ClientDisconnect.release
    refine Prog.wp_call (R := fun _ s' => s'.log = .deregistered :: s.log) rfl fun _ s1 h1 => ?_
    refine Prog.wp_call (R := fun _ s' => s'.log = .closed :: .deregistered :: s.log)
      (congrArg _ h1) fun _ s2 h2 => ?_
    -- the rest frees and only adds to the log
    exact Prog.wp_mono (run_log ans _ s2) fun _ s3 h3 => h2 ▸ h3
  refine Prog.wp_mono (Prog.wp_and clientDisconnect_gone hlog) fun _ s' ⟨hgone, later, hs'⟩ => ?_
  obtain ⟨before, hbefore⟩ := h
  refine ⟨hgone, later ++ .closed :: .deregistered :: before, ?_, by simp, by simp⟩
  rw [← hs', ← hbefore]
  simp

/-- Where the source goes on with the event, the client has seen nothing but additions to its
log; where it does not, the client is disconnected. -/
def State.GoesOnFrom (s₀ : State) (goesOn : Bool) (s : State) : Prop :=
  if goesOn then s₀.log <:+ s.log else s₀.DisconnectedIn s

/-- The branch for `EPOLLIN`, when the answer is not incomplete. -/
theorem handleInput_goesOn (h : s₀.log <:+ s.log)
    (hmore : s.currentTask.isSome → plotTaskCheckFd ans ≠ .more) :
    WorkerHandler.handleInput.wp (exec ans) s₀.GoesOnFrom s := by
  unfold WorkerHandler.handleInput
  refine Prog.wp_call (R := fun pt s' => pt = s.currentTask ∧ s₀.log <:+ s'.log) ⟨rfl, h⟩
    fun pt s1 ⟨hpt, h1⟩ => ?_
  cases pt with
  | none => exact h1
  | some pt =>
    refine Prog.wp_call (R := fun res s' => res = plotTaskCheckFd ans ∧ s₀.log <:+ s'.log)
      ⟨rfl, h1.trans (exec_log ans (.plotTaskCheckFd pt) s1)⟩ fun res s2 ⟨hres, h2⟩ => ?_
    cases res with
    | wrong => exact Prog.wp_seq (clientDisconnect_disconnects h2) fun _ _ hd => hd
    | more => exact absurd hres.symm (hmore (by rw [← hpt]; rfl))
    | right =>
      refine Prog.wp_seq (run_log ans clientNextTask s2) fun ok s3 h3 => ?_
      cases ok with
      | true => exact h2.trans h3
      | false => exact Prog.wp_seq (clientDisconnect_disconnects (h2.trans h3)) fun _ _ hd => hd

/-- The branch for `EPOLLOUT`. -/
theorem handleOutput_goesOn (h : s₀.log <:+ s.log) :
    WorkerHandler.handleOutput.wp (exec ans) s₀.GoesOnFrom s := by
  unfold WorkerHandler.handleOutput
  refine Prog.wp_seq (run_log ans clientSendText s) fun ok s1 h1 => ?_
  cases ok with
  | true => exact h.trans h1
  | false => exact Prog.wp_seq (clientDisconnect_disconnects (h.trans h1)) fun _ _ hd => hd

/-- From the branch for `EPOLLOUT` on, a hang-up disconnects the client. -/
theorem afterInput_disconnects (h : s₀.log <:+ s.log) (hrdhup : ev.rdhup = true) :
    (WorkerHandler.afterInput ev).wp (exec ans) (fun _ => s₀.DisconnectedIn) s := by
  have houtput : (if ev.output then WorkerHandler.handleOutput else pure true).wp (exec ans)
      s₀.GoesOnFrom s := by
    split
    · exact handleOutput_goesOn h
    · exact h
  unfold WorkerHandler.afterInput
  refine Prog.wp_seq houtput fun goesOn s1 h1 => ?_
  cases goesOn with
  | false => exact h1
  | true =>
    simp only [↓reduceIte, hrdhup]
    exact clientDisconnect_disconnects h1

/-- A hang-up without an incomplete answer disconnects the client. -/
theorem workerHandler_disconnects (hrdhup : ev.rdhup = true) (hmore : ¬ s.AsksForMore ev ans) :
    (workerHandler (.client ev)).wp (exec ans) (fun _ => s.DisconnectedIn) s := by
  have hinput : (if ev.input then WorkerHandler.handleInput else pure true).wp (exec ans)
      s.GoesOnFrom s := by
    split
    next hin =>
      exact handleInput_goesOn List.suffix_rfl fun htask hres => hmore ⟨hin, htask, hres⟩
    next => exact List.suffix_rfl
  refine Prog.wp_call (R := fun _ s' => s' = s) rfl ?_
  rintro _ _ rfl
  refine Prog.wp_seq hinput fun goesOn s1 h1 => ?_
  cases goesOn with
  | false => exact h1
  | true => exact afterInput_disconnects h1 hrdhup

/-- After an incomplete answer nothing but the verdict is left of the event. -/
theorem workerHandler_more (hmore : s.AsksForMore ev ans) :
    (workerHandler (.client ev)).wp (exec ans) (fun _ s' => s'.interest = s.interest) s := by
  obtain ⟨hin, htask, hres⟩ := hmore
  obtain ⟨pt, hpt⟩ := Option.isSome_iff_exists.1 htask
  have hinput : WorkerHandler.handleInput.wp (exec ans)
      (fun goesOn s' => goesOn = false ∧ s'.interest = s.interest) s := by
    unfold WorkerHandler.handleInput
    refine Prog.wp_call (R := fun pt' s' => pt' = some pt ∧ s'.interest = s.interest) ⟨hpt, rfl⟩ ?_
    rintro _ s1 ⟨rfl, h1⟩
    refine Prog.wp_call (R := fun res s' => res = .more ∧ s'.interest = s.interest) ⟨hres, h1⟩ ?_
    rintro _ s2 ⟨rfl, h2⟩
    exact ⟨rfl, h2⟩
  refine Prog.wp_call (R := fun _ s' => s' = s) rfl ?_
  rintro _ _ rfl
  simp only [hin, ↓reduceIte]
  refine Prog.wp_seq hinput ?_
  rintro _ s1 ⟨rfl, h1⟩
  exact h1

/-- An event with `EPOLLRDHUP` disconnects a registered client, in whatever state it is and
whatever else the event says, exactly if the event does not find an incomplete answer. -/
theorem serve_hangUp_iff (s : State) (ev : Events) (ans : Answers) (hregistered : s.interest.isSome)
    (hrdhup : ev.rdhup = true) :
    s.DisconnectedIn (s.serve { event := .client ev, answers := ans }) ↔
      ¬ s.AsksForMore ev ans := by
  have hserve : s.serve { event := .client ev, answers := ans } =
      ((workerHandler (.client ev)).run (exec ans) s).2 := if_pos hregistered
  rw [hserve]
  constructor
  · -- a client that is asked for more is still registered
    intro hdisconnected hmore
    have hkept : ((workerHandler (.client ev)).run (exec ans) s).2.interest = s.interest :=
      workerHandler_more hmore
    rw [← hkept, hdisconnected.gone.interest] at hregistered
    cases hregistered
  · exact fun hmore => workerHandler_disconnects hrdhup hmore

/-- A client that has been added hangs up without having sent anything. -/
theorem disconnectedIn_added :
    (State.added generous).DisconnectedIn ((State.added generous).serve
      { event := .client { input := false, output := false, rdhup := true }
        answers := generous }) := by
  have hregistered : (State.added generous).interest.isSome = true := by decide +kernel
  exact (serve_hangUp_iff _ _ _ hregistered rfl).2 (by decide +kernel)

/-- A client that has been added sends half an answer and hangs up: it stays connected. -/
theorem not_disconnectedIn_more :
    ¬ (State.added generous).DisconnectedIn ((State.added generous).serve
      { event := .client { input := true, output := true, rdhup := true }
        answers := generous }) := by
  intro h
  have hinterest := h.gone.interest
  revert hinterest
  decide +kernel

end Qkmetisc.Server
