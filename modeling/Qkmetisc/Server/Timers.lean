import Qkmetisc.Server.Spec

/-!
# Timers of earlier tasks

A timer is armed for the task that is current when its text has been sent. `client_next_task`
does not destroy it, and the handler of an expired timer checks whatever task is current then.
A timer keeps to its task in every run in which no right answer moves the client on while some
other timer is armed.

## Main definitions

* `State.TimerSafe`: an expired timer of an earlier task does not affect the client.
* `State.KeepsTimers`: the condition on one event.

## Main results

* `serve_current`: an event that meets the condition keeps every timer that of the
  current task.
* `timerSafe_throughout`: the same over runs.
* `not_timerSafe_after_answer`: a right answer given before its timer has expired.
-/

namespace Qkmetisc.Server

/-- The verdict is that the answer is right, and the plot, its question and the epoll instance
let `client_next_task` succeed. -/
def Answers.Advances (ans : Answers) : Prop :=
  plotTaskCheckFd ans = .right ∧ ans.task.isSome ∧ ans.question.isSome ∧
    ans.mod { input := true, output := true, rdhup := true }

instance (ans : Answers) : Decidable ans.Advances := inferInstanceAs (Decidable (_ ∧ _))

namespace State

/-- The timer was armed for a task that is not the current one. -/
def Stale (s : State) (timer : Timer) : Prop := timer.armedFor ≠ s.currentTask.map Task.no

instance (s : State) (timer : Timer) : Decidable (s.Stale timer) :=
  inferInstanceAs (Decidable (¬ _ = _))

/-- Between the two states no task was checked and the client was not disconnected. -/
def Unaffected (s s' : State) : Prop :=
  ∃ new, s'.log = new ++ s.log ∧ (∀ no res, .verdict no res ∉ new) ∧ .deregistered ∉ new

/-- When a timer of an earlier task expires, the client is not affected. -/
def TimerSafe (s : State) : Prop :=
  ∀ timer ∈ s.timers, s.Stale timer → ∀ answers,
    s.Unaffected (s.serve { event := .timer timer.id, answers })

/-- The event does not move the client on to another task while a timer is armed that the
event does not destroy. An event that also says that the client has hung up destroys them
all. -/
def KeepsTimers (s : State) (i : Input) : Prop :=
  s.Deliverable i.event → i.answers.Advances →
    match i.event with
    | .timer id => ∀ timer ∈ s.timers, timer.id = id
    | .client ev => ev.input = true → ev.rdhup = false → s.timers = []

instance (s : State) (i : Input) : Decidable (s.KeepsTimers i) :=
  match i with
  | ⟨.timer id, answers⟩ => inferInstanceAs
      (Decidable (s.Deliverable (.timer id) → answers.Advances → ∀ timer ∈ s.timers, timer.id = id))
  | ⟨.client ev, answers⟩ => inferInstanceAs
      (Decidable (s.Deliverable (.client ev) → answers.Advances → ev.input = true →
        ev.rdhup = false → s.timers = []))

/-- Every timer was armed for the current task. -/
def Current (s : State) : Prop := ∀ timer ∈ s.timers, ¬ s.Stale timer

theorem Current.timerSafe {s : State} (h : s.Current) : s.TimerSafe :=
  fun timer hmem hstale => absurd hstale (h timer hmem)

theorem Gone.current {s : State} (h : s.Gone) : s.Current := by
  simp [Current, h.timers]

end State

variable (ans : Answers) {o : Op} {s : State}

/-! ## The functions -/

theorem clientNextTask_timers :
    clientNextTask.wp (exec ans) (fun _ s' => s'.timers = s.timers) s := by
  have hkeep : ∀ o s1, Op.Advancing o → s1.timers = s.timers →
      (exec ans o s1).2.timers = s.timers :=
    fun o s1 ho h => (exec_advancing_timers ans ho).trans h
  exact clientNextTask_every.wp hkeep rfl

/-- `client_next_task` succeeds only when the plot, its question and the epoll instance let
it. -/
theorem clientNextTask_advances (hright : plotTaskCheckFd ans = .right) :
    clientNextTask.wp (exec ans) (fun ok _ => ok = true → ans.Advances) s := by
  -- past the flush and the old task, each call has to succeed for the next one to be made
  refine Prog.wp_skip fun _ _ => Prog.wp_skip fun _ _ => Prog.wp_skip fun _ s1 => ?_
  refine Prog.wp_call (R := fun pt _ => pt.isSome → ans.task.isSome) ?_ fun pt s2 htask => ?_
  · simp only [exec]
    split <;> simp [*]
  cases pt with
  | none => exact fun hok => absurd hok Bool.false_ne_true
  | some newTask =>
    refine Prog.wp_call (R := fun q _ => q.isSome → ans.question.isSome) ?_
      fun q s3 hquestion => ?_
    · simp only [exec]
      split <;> simp [*]
    cases q with
    | none => exact fun hok => absurd hok Bool.false_ne_true
    | some q =>
      refine Prog.wp_call
        (R := fun ok _ => ok = true → ans.mod { input := true, output := true, rdhup := true })
        ?_ fun ok s4 hmod => ?_
      · simp only [exec]
        split <;> simp_all
      cases ok with
      | true => exact fun _ => ⟨hright, htask rfl, hquestion rfl, hmod rfl⟩
      | false => exact fun hok => absurd hok Bool.false_ne_true

/-- After a right answer `client_next_task` leaves no timer of an earlier task, if there was no
timer to leave when it succeeds. -/
theorem clientNextTask_current (hright : plotTaskCheckFd ans = .right)
    (h : ans.Advances → s.timers = []) :
    clientNextTask.wp (exec ans) (fun ok s' => ok = true → s'.Current) s := by
  refine Prog.wp_mono (Prog.wp_and (clientNextTask_timers ans) (clientNextTask_advances ans
    hright)) fun ok s1 ⟨htimers, hadvances⟩ hok => ?_
  simp [State.Current, htimers, h (hadvances hok)]

/-- The operations of `client_send_text` arm timers for the current task only. -/
theorem exec_sending_current (ho : o.Sending) (h : s.Current) : (exec ans o s).2.Current := by
  cases o with
  -- the only operation that adds a timer, for the task that is current
  | armTimer msec =>
    intro timer hmem
    rcases List.mem_append.1 hmem with hmem | hnew
    · exact h timer hmem
    · rw [List.mem_singleton.1 hnew]
      exact fun hstale => hstale rfl
  | epollMod ev => simp only [exec]; split <;> exact h
  | readFd len | getCurrentQuestion | setCurrentQuestion q | getCurrentTask | streamLen | free x
  | malloc x | timerfdCreate | epollAddTimer | abort => exact h
  | _ => exact ho.elim

theorem clientSendText_current (h : s.Current) :
    clientSendText.wp (exec ans) (fun _ => State.Current) s :=
  clientSendText_every.wp (fun _ _ => exec_sending_current ans) h

/-! ## One event -/

/-- `client_disconnect` leaves no timer at all. -/
theorem clientDisconnect_current :
    clientDisconnect.wp (exec ans) (fun _ => State.Current) s :=
  Prog.wp_mono clientDisconnect_gone fun _ _ => State.Gone.current

/-- Where the handler goes on with an event, only a client that has hung up has timers of an
earlier task; where it does not, no client has. -/
def State.OldTimersOnlyOn (hup goesOn : Bool) (s : State) : Prop :=
  s.Current ∨ goesOn = true ∧ hup = true

/-- The branch for `EPOLLIN`. -/
theorem handleInput_timers {hup : Bool} (h : s.Current)
    (hok : ans.Advances → hup = false → s.timers = []) :
    WorkerHandler.handleInput.wp (exec ans) (State.OldTimersOnlyOn hup) s := by
  unfold WorkerHandler.handleInput
  refine Prog.wp_call (R := fun _ s' => s'.Current ∧ s'.timers = s.timers) ⟨h, rfl⟩
    fun pt s1 ⟨h1, htimers1⟩ => ?_
  cases pt with
  | none => exact .inl h1
  | some pt =>
    refine Prog.wp_call (R := fun res s' => res = plotTaskCheckFd ans ∧ s'.Current ∧
      s'.timers = s.timers) ⟨rfl, h1, htimers1⟩ fun res s2 ⟨hres, h2, htimers2⟩ => ?_
    cases res with
    | wrong => exact Prog.wp_seq (clientDisconnect_current ans) fun _ _ hc => .inl hc
    | more => exact .inl h2
    | right =>
      -- a client that has hung up may keep timers, as it is about to be disconnected
      have hnext : clientNextTask.wp (exec ans)
          (fun ok s' => ok = true → s'.Current ∨ hup = true) s2 := by
        cases hup with
        | true => exact fun _ => .inr rfl
        | false =>
          exact Prog.wp_mono (clientNextTask_current ans hres.symm fun hadvances =>
            htimers2.trans (hok hadvances rfl)) fun _ _ hc hok => .inl (hc hok)
      refine Prog.wp_seq hnext fun ok s3 h3 => ?_
      cases ok with
      | true => exact (h3 rfl).imp_right fun hhup => ⟨rfl, hhup⟩
      | false => exact Prog.wp_seq (clientDisconnect_current ans) fun _ _ hc => .inl hc

/-- The branch for `EPOLLOUT`. -/
theorem handleOutput_timers {hup : Bool} (h : s.OldTimersOnlyOn hup true) :
    WorkerHandler.handleOutput.wp (exec ans) (State.OldTimersOnlyOn hup) s := by
  -- sending arms a timer for the current task at most
  have hsend : clientSendText.wp (exec ans) (fun _ s' => s'.Current ∨ hup = true) s := by
    rcases h with h | ⟨-, hhup⟩
    · exact Prog.wp_mono (clientSendText_current ans h) fun _ _ => .inl
    · exact .inr hhup
  unfold WorkerHandler.handleOutput
  refine Prog.wp_seq hsend fun ok s1 h1 => ?_
  cases ok with
  | true => exact h1.imp_right fun hhup => ⟨rfl, hhup⟩
  | false => exact Prog.wp_seq (clientDisconnect_current ans) fun _ _ hc => .inl hc

/-- The rest of an event on the socket; a hang-up ends in `client_disconnect`. -/
theorem afterInput_current {ev : Events} (h : s.OldTimersOnlyOn ev.rdhup true) :
    (WorkerHandler.afterInput ev).wp (exec ans) (fun _ => State.Current) s := by
  have houtput : (if ev.output then WorkerHandler.handleOutput else pure true).wp (exec ans)
      (State.OldTimersOnlyOn ev.rdhup) s := by
    split
    · exact handleOutput_timers ans h
    · exact h
  unfold WorkerHandler.afterInput
  refine Prog.wp_seq houtput fun goesOn s1 h1 => ?_
  cases goesOn with
  | false => exact h1.resolve_right nofun
  | true =>
    simp only [↓reduceIte]
    split
    next => exact clientDisconnect_current ans
    next hhup => exact h1.resolve_right fun hboth => hhup hboth.2

/-- An expired timer. The only timers an answer found right may leave behind are those the
handler has just destroyed. -/
theorem timerExpired_current {id : ℕ} (h : s.Current)
    (hok : ans.Advances → ∀ timer ∈ s.timers, timer.id = id) :
    (WorkerHandler.timerExpired id).wp (exec ans) (fun _ => State.Current) s := by
  -- the expired timer is destroyed first, and the condition says there is no other
  have hothers : ans.Advances → s.timers.filter (·.id ≠ id) = [] := by
    intro hadvances
    rw [List.filter_eq_nil_iff]
    intro timer hmem
    simpa using hok hadvances timer hmem
  unfold WorkerHandler.timerExpired
  refine Prog.wp_call (R := fun _ s' => s'.Current ∧ (ans.Advances → s'.timers = []))
    ⟨fun timer hmem => h timer (List.mem_filter.1 hmem).1, hothers⟩ fun _ s1 ⟨h1, hnone1⟩ => ?_
  refine Prog.wp_call (R := fun _ s' => s'.Current ∧ (ans.Advances → s'.timers = []))
    ⟨h1, hnone1⟩ fun pt s2 ⟨h2, hnone2⟩ => ?_
  cases pt with
  | none => exact h2
  | some pt =>
    refine Prog.wp_call (R := fun res s' => res = plotTaskCheckFd ans ∧
      (ans.Advances → s'.timers = [])) ⟨rfl, hnone2⟩ fun res s3 ⟨hres, hnone3⟩ => ?_
    -- only a right answer moves the client on
    by_cases hright : res = .right
    · rw [if_neg (not_not.2 hright)]
      refine Prog.wp_seq (clientNextTask_current ans (hres.symm.trans hright) hnone3)
        fun ok s4 h4 => ?_
      cases ok with
      | true => exact h4 rfl
      | false => exact clientDisconnect_current ans
    · rw [if_pos hright]
      exact clientDisconnect_current ans

/-- An event that moves no client on while other timers are armed keeps every timer that of the
current task. -/
theorem serve_current (s : State) (i : Input) (h : s.Current) (hok : s.KeepsTimers i) :
    (s.serve i).Current := by
  unfold State.serve
  -- an event that cannot be delivered changes nothing
  split
  next hdeliverable =>
    obtain ⟨e, ans⟩ := i
    cases e with
    | timer id => exact timerExpired_current ans h fun hadvances => hok hdeliverable hadvances
    | client ev =>
      have hinput : (if ev.input then WorkerHandler.handleInput else pure true).wp (exec ans)
          (State.OldTimersOnlyOn ev.rdhup) s := by
        split
        next hin =>
          exact handleInput_timers ans h fun hadvances => hok hdeliverable hadvances hin
        next => exact .inl h
      have hevent : (workerHandler (.client ev)).wp (exec ans) (fun _ => State.Current) s := by
        refine Prog.wp_call (R := fun _ s' => s' = s) rfl ?_
        rintro _ _ rfl
        refine Prog.wp_seq hinput fun goesOn s1 h1 => ?_
        cases goesOn with
        | false => exact h1.resolve_right nofun
        | true => exact afterInput_current ans h1
      exact hevent
  next => exact h

/-! ## Runs -/

/-- The operations of `client_create` arm no timer. -/
theorem exec_creating_timers (ho : o.Creating) (h : s.timers = []) :
    (exec ans o s).2.timers = [] := by
  cases o with
  | initClient => rfl
  | register ev => simp only [exec]; split <;> exact h
  | malloc x | construct | streamCreate | free x => exact h
  | _ => exact ho.elim

/-- A client that has been added has no timer. -/
theorem added_timers (ans : Answers) : (State.added ans).timers = [] := by
  have hcreate : clientCreate.wp (exec ans) (fun _ s' => s'.timers = []) .start :=
    clientCreate_every.wp (fun o s => exec_creating_timers (o := o) (s := s) ans) rfl
  have hadd : serverWorkerAddClient.wp (exec ans) (fun _ s' => s'.timers = []) .start := by
    unfold serverWorkerAddClient
    refine Prog.wp_seq hcreate fun ok s1 h1 => ?_
    cases ok with
    | false => exact h1
    | true =>
      refine Prog.wp_seq (clientNextTask_timers ans) fun ok s2 h2 => ?_
      cases ok with
      | true => exact h2.trans h1
      | false => exact Prog.wp_seq clientDisconnect_gone fun _ s3 hgone => hgone.timers
  exact hadd

/-- In every run in which no right answer moves the client on while another timer is armed, no
timer of an earlier task affects the client. -/
theorem timerSafe_throughout (ans : Answers) (inputs : List Input)
    (hok : InputMachine.Meets State.serve State.KeepsTimers (State.added ans) inputs) :
    InputMachine.Always State.serve State.TimerSafe (State.added ans) inputs := by
  have hadded : (State.added ans).Current := by
    simp [State.Current, added_timers]
  exact (InputMachine.always_of_invariant serve_current hadded hok).mono State.serve
    fun _ => State.Current.timerSafe

/-- The first timer expires when the right answer has already arrived. -/
def lastMoment : Input := { event := .timer 0, answers := { generous with check := .right } }

/-- A right answer found when its own timer expires leaves no timer behind. -/
theorem timerSafe_last_moment :
    InputMachine.Meets State.serve State.KeepsTimers (State.added generous)
        [sendsAll, lastMoment] ∧
      InputMachine.Always State.serve State.TimerSafe (State.added generous)
        [sendsAll, lastMoment] := by
  have hok : InputMachine.Meets State.serve State.KeepsTimers (State.added generous)
      [sendsAll, lastMoment] := by
    refine ⟨?_, ?_, trivial⟩ <;> decide +kernel
  exact ⟨hok, timerSafe_throughout generous [sendsAll, lastMoment] hok⟩

/-- A right answer given in time leaves its timer armed, which then has the next task checked
and the client disconnected. -/
theorem not_timerSafe_after_answer :
    ¬ InputMachine.Always State.serve State.TimerSafe (State.added generous)
      [sendsAll, answersRight] := by
  rintro ⟨-, -, hsafe⟩
  let timer : Timer := { id := 0, armedFor := some 1 }
  obtain ⟨new, hlog, -, hconnected⟩ := hsafe timer (by decide +kernel) (by decide +kernel) generous
  -- handling the timer disconnects the client, which its log shows
  have hcount := congrArg (List.count .deregistered) hlog
  rw [List.count_append, List.count_eq_zero.2 hconnected] at hcount
  revert hcount
  decide +kernel

end Qkmetisc.Server
