import Qkmetisc.Server.Spec

/-!
# The acceptor and the worker on one client

The acceptor thread adds a client while the worker thread already handles events of it: the
client is in the epoll instance before it has been given its first task. Each operation of a
program is one step, and the steps of the two threads interleave in any order. The threads keep
off each other's freed objects in every run in which neither starts to disconnect the client,
and the worker does not destroy the first question, while the other thread is not done with it.

## Main definitions

* `Race`, `Race.step`: the two threads and their steps.
* `Race.NoUseAfterFree`: no thread has used what the other had destroyed.
* `Race.InTurn`: the condition on one step.
* `acceptorDiscipline`: the order in which the acceptor performs its operations.

## Main results

* `serverWorkerAddClient_follows`: the acceptor keeps to its discipline.
* `step_inv`: a step in turn keeps the invariant of the phase the acceptor is in.
* `noUseAfterFree_throughout`: the same over runs.
* `useAfterFree_hangUp`: a client that hangs up while it is being added.
-/

namespace Qkmetisc.Server

/-- The two threads. -/
inductive Thread where
  | acceptor
  | worker
  deriving DecidableEq, Repr

/-- The objects whose life time is the subject here: the client with its event, its stream and
its questions. -/
def Obj.Guarded : Obj → Prop
  | client | event | stream | question _ => True
  | _ => False

instance (x : Obj) : Decidable x.Guarded := by
  cases x <;> unfold Obj.Guarded <;> infer_instance

/-- The question a byte of its text belongs to. -/
def Cell.owner (c : Cell) : Option Obj :=
  match c.src with
  | .text no => some (.question no)
  | .prompt _ => none

/-- The objects an operation uses. Sending reads the texts borrowed by the stream. -/
def Op.uses (s : State) : Op → List Obj
  | malloc _ | construct | streamCreate | timerfdCreate | epollAddTimer | abort => []
  | free .event => [.client, .event]
  | free .plot => [.client, .plot]
  | free .stream => [.client, .stream]
  | free x => [x]
  | readEvent => [.event]
  | plotTaskGetQuestion pt => [.task pt.no]
  | questionGetText q => [.question q.no]
  | plotGetTask => [.client, .plot]
  | plotTaskCheckFd pt => [.client, .task pt.no]
  | flush | streamLen | writeMem _ => [.client, .stream]
  | writeBorrow owner _ => [.client, .stream] ++ owner.toList
  | readFd _ => [.client, .stream] ++ s.sendStream.content.filterMap Cell.owner
  | _ => [.client]

/-- The object an operation destroys. -/
def Op.destroys : Op → Option Obj
  | free x => some x
  | _ => none

/-- What a thread did with the objects in one operation. -/
structure Access where
  thread : Thread
  uses : List Obj
  destroys : Option Obj

/-- The access `a` uses nothing that the other thread destroyed in `b`. -/
def Access.Clear (a b : Access) : Prop :=
  a.thread ≠ b.thread → ∀ x ∈ b.destroys, x.Guarded → x ∉ a.uses

instance (a b : Access) : Decidable (a.Clear b) := by
  unfold Access.Clear
  infer_instance

/-- The acceptor adding a client and the worker handling events of it. -/
structure Race where
  /-- The client. -/
  client : State
  /-- What the acceptor still has to do, and what the environment answers it. -/
  acceptor : Program Bool
  acceptorAnswers : Answers
  /-- What the worker still has to do with the event it handles, and what the environment
  answers it. -/
  worker : Program Unit
  workerAnswers : Answers
  /-- The accesses so far, the latest first. -/
  accesses : List Access

/-- A step of the acceptor, of the worker, or an event being reported to the worker. -/
inductive Step where
  | acceptor
  | worker
  | event (e : Event) (answers : Answers)

/-- The flags asked for at the registration in `client_create`. -/
def hangUpOnly : Events := { input := false, output := false, rdhup := true }

/-- The flags are among those asked for. -/
def Events.Within (ev asked : Events) : Prop :=
  (ev.input → asked.input) ∧ (ev.output → asked.output) ∧ (ev.rdhup → asked.rdhup)

instance (ev asked : Events) : Decidable (ev.Within asked) :=
  inferInstanceAs (Decidable (_ ∧ _ ∧ _))

/-- `epoll_wait` can report the event. -/
def State.Reportable (s : State) : Event → Prop
  | .timer id => ∃ timer ∈ s.timers, timer.id = id
  | .client ev => ∃ asked ∈ s.interest, ev.Within asked

instance (s : State) (e : Event) : Decidable (s.Reportable e) :=
  match e with
  | .timer id => inferInstanceAs (Decidable (∃ timer ∈ s.timers, timer.id = id))
  | .client ev => inferInstanceAs (Decidable (∃ asked ∈ s.interest, ev.Within asked))

namespace Race

/-- The acceptor starts to add a client, and the worker waits for events. -/
def start (answers : Answers) : Race where
  client := .start
  acceptor := serverWorkerAddClient
  acceptorAnswers := answers
  worker := .ret ()
  workerAnswers := answers
  accesses := []

/-- The accesses after a thread has performed the next operation of its program. -/
def record (r : Race) (thread : Thread) : Option Op → List Access
  | none => r.accesses
  | some o => { thread, uses := o.uses r.client, destroys := o.destroys } :: r.accesses

/-- One step. A thread that has nothing to do stays as it is, and so does a worker that is busy
when an event is to be reported. -/
def step (r : Race) : Step → Race
  | .acceptor =>
    let out := r.acceptor.step (exec r.acceptorAnswers) r.client
    { r with
      client := out.2
      acceptor := out.1
      accesses := r.record .acceptor r.acceptor.next? }
  | .worker =>
    let out := r.worker.step (exec r.workerAnswers) r.client
    { r with
      client := out.2
      worker := out.1
      accesses := r.record .worker r.worker.next? }
  | .event e answers =>
    if r.worker.Returned ∧ r.client.Reportable e then
      { r with worker := workerHandler e, workerAnswers := answers }
    else r

/-- No access uses what the other thread destroyed before. -/
def NoUseAfterFree (r : Race) : Prop := r.accesses.Pairwise Access.Clear

instance (r : Race) : Decidable r.NoUseAfterFree :=
  inferInstanceAs (Decidable (r.accesses.Pairwise Access.Clear))

/-- The acceptor will not use the object any more. -/
def AcceptorDoneWith (r : Race) (x : Obj) : Prop :=
  r.acceptor.Every fun o => ∀ s, x ∉ o.uses s

/-- The step does not start to disconnect the client, and does not destroy a question, before
the other thread is done with it. -/
def InTurn (r : Race) : Step → Prop
  | .acceptor => r.acceptor.next? = some .deregister → r.worker.Returned
  | .worker =>
    (r.worker.next? = some .deregister → r.acceptor.Returned) ∧
      ∀ no, r.worker.next? = some (.free (.question no)) → r.AcceptorDoneWith (.question no)
  | .event _ _ => True

end Race

/-! ## The acceptor's discipline -/

/-- How far the acceptor has got. -/
inductive Phase where
  /-- The client is not in the epoll instance yet. -/
  | hidden
  /-- The client is in the epoll instance, which asks for hang-ups only. -/
  | visible
  /-- The registration could not be modified. -/
  | refused
  /-- The registration has been modified. -/
  | shown
  /-- The client is not in the epoll instance any more, or never will be. -/
  | closed
  deriving DecidableEq

/-- The order in which the acceptor performs its operations. -/
def acceptorDiscipline : Prog.Discipline Op Op.Ans Phase where
  Allowed
    | .hidden, o => o.Creating ∧ ∀ ev, o = .register ev → ev = hangUpOnly
    | .visible, o => o = .deregister ∨ o.Advancing ∧ ∀ x ∈ o.destroys, ¬ x.Guarded
    | .refused, o => o = .deregister ∨ o.Advancing ∧ o.destroys.isSome
    | .shown, o => o.Advancing ∧ ∀ x ∈ o.destroys, ¬ x.Guarded
    | .closed, o => o.Closing
  next
    | .hidden, .register _, ok => if ok then .visible else .closed
    | .hidden, .free _, _ => .closed
    | .visible, .epollMod _, ok => if ok then .shown else .refused
    | .visible, .deregister, _ => .closed
    | .refused, .deregister, _ => .closed
    | φ, _, _ => φ

/-- `client_create` ends with a client in the epoll instance, or with none. -/
theorem clientCreate_follows :
    clientCreate.Follows acceptorDiscipline
      (fun ok φ => if ok then φ = .visible else φ = .hidden ∨ φ = .closed) .hidden := by
  -- one level for each call that can fail; the labels behind them only free
  refine ⟨⟨trivial, nofun⟩, fun ok => ?_⟩
  cases ok with
  | false => exact .inl rfl
  | true =>
    refine ⟨⟨trivial, nofun⟩, fun ok => ?_⟩
    cases ok with
    | false => exact ⟨⟨trivial, nofun⟩, fun _ => .inr rfl⟩
    | true =>
      refine ⟨⟨trivial, nofun⟩, fun ok => ?_⟩
      cases ok with
      | false => exact ⟨⟨trivial, nofun⟩, fun _ => ⟨trivial, fun _ => .inr rfl⟩⟩
      | true =>
        refine ⟨⟨trivial, nofun⟩, fun _ => ⟨⟨trivial, nofun⟩, fun ok => ?_⟩⟩
        cases ok with
        | false =>
          exact ⟨⟨trivial, nofun⟩, fun _ => ⟨trivial, fun _ => ⟨trivial, fun _ => .inr rfl⟩⟩⟩
        | true =>
          -- the registration makes the client visible
          refine ⟨⟨trivial, fun ev hev => (Op.register.inj hev).symm⟩, fun ok => ?_⟩
          cases ok with
          | false =>
            exact ⟨trivial, fun _ => ⟨trivial, fun _ => ⟨trivial, fun _ =>
              ⟨trivial, fun _ => .inr rfl⟩⟩⟩⟩
          | true => rfl

/-- Destroying the current task keeps the client visible. -/
theorem destroyCurrentTask_follows :
    destroyCurrentTask.Follows acceptorDiscipline (fun _ φ => φ = .visible) .visible := by
  refine ⟨.inr ⟨trivial, nofun⟩, fun pt => ?_⟩
  cases pt with
  | none => rfl
  | some pt => exact ⟨.inr ⟨trivial, fun x hx => Option.some.inj hx ▸ id⟩, fun _ => rfl⟩

/-- Once the registration has been modified, nothing is destroyed any more. -/
theorem showTask_follows (newTask : Task) (q : Question) :
    (ClientNextTask.showTask newTask q).Follows acceptorDiscipline
      (fun ok φ => ok = true ∧ φ = .shown) .shown := by
  have htext (text : List Char) (timeout : ℕ) :
      (clientSendTaskText newTask.no text timeout).Follows acceptorDiscipline
        (fun _ φ => φ = .shown) .shown := by
    unfold clientSendTaskText
    split
    · exact ⟨⟨trivial, nofun⟩, fun _ => ⟨⟨trivial, nofun⟩, fun _ => rfl⟩⟩
    · exact ⟨⟨trivial, nofun⟩, fun _ => ⟨⟨trivial, nofun⟩, fun _ => rfl⟩⟩
  refine ⟨⟨trivial, nofun⟩, fun _ => ⟨⟨trivial, nofun⟩, fun _ =>
    ⟨⟨trivial, nofun⟩, fun text => ?_⟩⟩⟩
  exact (htext text _).bind fun _ φ hφ => ⟨rfl, hφ⟩

/-- `client_next_task` of the acceptor: it succeeds exactly when it has modified the
registration. -/
theorem clientNextTask_follows :
    clientNextTask.Follows acceptorDiscipline
      (fun ok φ => if ok then φ = .shown else φ = .visible ∨ φ = .refused) .visible := by
  refine ⟨.inr ⟨trivial, nofun⟩, fun _ => destroyCurrentTask_follows.bind ?_⟩
  rintro _ _ rfl
  refine ⟨.inr ⟨trivial, nofun⟩, fun _ => ⟨.inr ⟨trivial, nofun⟩, fun newTask => ?_⟩⟩
  have hfree {x : Obj} (hx : ¬ x.Guarded) : ∀ y ∈ (Op.free x).destroys, ¬ y.Guarded :=
    fun y hy => Option.some.inj hy ▸ hx
  cases newTask with
  | none => exact .inl rfl
  | some newTask =>
    refine ⟨.inr ⟨trivial, nofun⟩, fun q => ?_⟩
    cases q with
    -- a task is not a guarded object
    | none => exact ⟨.inr ⟨trivial, hfree id⟩, fun _ => .inl rfl⟩
    | some q =>
      refine ⟨.inr ⟨trivial, nofun⟩, fun ok => ?_⟩
      cases ok with
      | true =>
        refine (showTask_follows newTask q).mono ?_
        rintro _ _ ⟨rfl, rfl⟩
        rfl
      | false => exact ⟨.inr ⟨trivial, rfl⟩, fun _ => ⟨.inr ⟨trivial, rfl⟩, fun _ => .inr rfl⟩⟩

/-- `client_disconnect` closes the client. -/
theorem clientDisconnect_follows {φ : Phase} (h : φ = .visible ∨ φ = .refused) :
    clientDisconnect.Follows acceptorDiscipline (fun _ ψ => ψ = .closed) φ := by
  have hclosed : ∀ o, Op.Closing o → acceptorDiscipline.Allowed .closed o ∧
      ∀ a, acceptorDiscipline.next .closed o a = .closed :=
    fun o ho => ⟨ho, fun a => rfl⟩
  rcases h with rfl | rfl
  · exact ⟨.inl rfl, fun _ => release_every.follows hclosed⟩
  · exact ⟨.inl rfl, fun _ => release_every.follows hclosed⟩

/-- The phases in which the acceptor can be when it has returned. -/
def Phase.Final (φ : Phase) : Prop := φ ≠ .visible ∧ φ ≠ .refused

/-- The acceptor keeps to its discipline. -/
theorem serverWorkerAddClient_follows :
    serverWorkerAddClient.Follows acceptorDiscipline (fun _ => Phase.Final) .hidden := by
  refine clientCreate_follows.bind fun ok φ hφ => ?_
  cases ok with
  | false => rcases hφ with rfl | rfl <;> exact ⟨nofun, nofun⟩
  | true =>
    -- the client is visible while it gets its first task
    obtain rfl : φ = .visible := hφ
    refine clientNextTask_follows.bind fun ok φ hφ => ?_
    cases ok with
    | true =>
      obtain rfl : φ = .shown := hφ
      exact ⟨nofun, nofun⟩
    | false =>
      refine (clientDisconnect_follows hφ).bind ?_
      rintro _ _ rfl
      exact ⟨nofun, nofun⟩

/-! ## The worker until it disconnects the client -/

/-- The operation starts `client_disconnect`. -/
def Op.StartsDisconnect (o : Op) : Prop := o = .deregister

/-- Of the guarded objects the operation destroys none but questions. -/
def Op.Gentle (o : Op) : Prop := ∀ x ∈ o.destroys, x.Guarded → ∃ no, x = .question no

/-- The operation looks at the event and does nothing else. -/
def Op.Quiet (o : Op) : Prop := o = .readEvent

/-- An operation that destroys nothing destroys no guarded object. -/
theorem unguarded_of_destroys_none {o : Op} (h : o.destroys = none) :
    ∀ x ∈ o.destroys, ¬ x.Guarded := by
  simp [h]

theorem Op.Quiet.gentle {o : Op} (h : o.Quiet) : o.Gentle := by
  rw [h]
  exact nofun

theorem gentle_of_advancing {o : Op} (h : o.Advancing) : o.Gentle := by
  cases o with
  | free x =>
    intro y hy
    obtain rfl : x = y := Option.some.inj hy
    cases x with
    | question no => exact fun _ => ⟨no, rfl⟩
    | task no => exact nofun
    | _ => exact h.elim
  | _ => exact nofun

theorem gentle_of_sending {o : Op} (h : o.Sending) : o.Gentle := by
  cases o with
  | free x =>
    intro y hy
    obtain rfl : x = y := Option.some.inj hy
    cases x with
    | question no => exact fun _ => ⟨no, rfl⟩
    | timer | timerEvent => exact nofun
    | _ => exact h.elim
  | _ => exact nofun

theorem clientDisconnect_until {P : Op → Prop} :
    clientDisconnect.Until Op.StartsDisconnect P := .inl rfl

theorem clientNextTask_gentle : clientNextTask.Until Op.StartsDisconnect Op.Gentle :=
  (clientNextTask_every.mono fun _ => gentle_of_advancing).until

theorem clientSendText_gentle : clientSendText.Until Op.StartsDisconnect Op.Gentle :=
  (clientSendText_every.mono fun _ => gentle_of_sending).until

theorem handleInput_gentle :
    WorkerHandler.handleInput.Until Op.StartsDisconnect Op.Gentle := by
  refine .inr ⟨nofun, fun pt => ?_⟩
  cases pt with
  | none => trivial
  | some pt =>
    refine .inr ⟨nofun, fun res => ?_⟩
    cases res with
    | wrong => exact clientDisconnect_until.bind fun _ => trivial
    | more => trivial
    | right =>
      refine clientNextTask_gentle.bind fun ok => ?_
      cases ok with
      | true => trivial
      | false => exact clientDisconnect_until.bind fun _ => trivial

theorem afterInput_gentle (ev : Events) :
    (WorkerHandler.afterInput ev).Until Op.StartsDisconnect Op.Gentle := by
  have houtput : (if ev.output then WorkerHandler.handleOutput else pure true).Until
      Op.StartsDisconnect Op.Gentle := by
    split
    · refine clientSendText_gentle.bind fun ok => ?_
      cases ok with
      | true => trivial
      | false => exact clientDisconnect_until.bind fun _ => trivial
    · trivial
  -- the branch for a hang-up is the disconnection itself
  refine houtput.bind fun goesOn => ?_
  cases goesOn with
  | false => trivial
  | true =>
    simp only [↓reduceIte]
    split
    · exact clientDisconnect_until
    · trivial

theorem timerExpired_gentle (id : ℕ) :
    (WorkerHandler.timerExpired id).Until Op.StartsDisconnect Op.Gentle := by
  refine .inr ⟨nofun, fun _ => .inr ⟨nofun, fun pt => ?_⟩⟩
  cases pt with
  | none => exact .inr ⟨nofun, fun _ => trivial⟩
  | some pt =>
    refine .inr ⟨nofun, fun res => ?_⟩
    cases res with
    | wrong | more => exact clientDisconnect_until
    | right =>
      refine clientNextTask_gentle.bind fun ok => ?_
      cases ok with
      | true => trivial
      | false => exact clientDisconnect_until

/-- Before it disconnects the client, the worker destroys no guarded object but questions. -/
theorem workerHandler_gentle (e : Event) :
    (workerHandler e).Until Op.StartsDisconnect Op.Gentle := by
  cases e with
  | timer id => exact timerExpired_gentle id
  | client ev =>
    have hinput : (if ev.input then WorkerHandler.handleInput else pure true).Until
        Op.StartsDisconnect Op.Gentle := by
      split
      · exact handleInput_gentle
      · trivial
    refine .inr ⟨nofun, fun _ => hinput.bind fun goesOn => ?_⟩
    cases goesOn with
    | false => trivial
    | true => exact afterInput_gentle ev

/-- While the registration asks for hang-ups only, the worker does nothing but disconnect the
client. -/
theorem workerHandler_quiet {ev : Events} (h : ev.Within hangUpOnly) :
    (workerHandler (.client ev)).Until Op.StartsDisconnect Op.Quiet := by
  obtain ⟨input, output, rdhup⟩ := ev
  obtain ⟨hinput, houtput, -⟩ := h
  obtain rfl : input = false := by simpa [hangUpOnly] using hinput
  obtain rfl : output = false := by simpa [hangUpOnly] using houtput
  refine .inr ⟨rfl, fun _ => ?_⟩
  cases rdhup with
  | false => trivial
  | true => exact clientDisconnect_until

/-- A worker that waits for events may be given any. -/
theorem until_of_returned {P Q : Op → Prop} {p : Program Unit} (h : p.Returned) :
    p.Until P Q := by
  cases p with
  | ret a => trivial
  | call o k => nomatch h

/-! ## The invariant -/

namespace Race

/-- The thread has destroyed the guarded object. -/
def Destroyed (r : Race) (thread : Thread) (x : Obj) : Prop :=
  x.Guarded ∧ ∃ a ∈ r.accesses, a.thread = thread ∧ x ∈ a.destroys

/-- What holds of the client, of the worker and of the objects destroyed so far, in each phase
of the acceptor. -/
def Holds (r : Race) : Phase → Prop
  | .hidden =>
    r.client.Gone ∧ r.worker.Returned ∧ ∀ thread x, ¬ r.Destroyed thread x
  | .visible =>
    r.client.interest = some hangUpOnly ∧ r.client.timers = [] ∧
      r.worker.Until Op.StartsDisconnect Op.Quiet ∧ ∀ thread x, ¬ r.Destroyed thread x
  | .refused =>
    r.client.interest = some hangUpOnly ∧ r.client.timers = [] ∧
      r.worker.Until Op.StartsDisconnect Op.Quiet ∧ (∀ x, ¬ r.Destroyed .worker x) ∧
      ∀ x, r.Destroyed .acceptor x → ∃ no, x = .question no
  | .shown =>
    (∀ x, ¬ r.Destroyed .acceptor x) ∧
      (r.acceptor.Returned ∨ r.worker.Until Op.StartsDisconnect Op.Gentle ∧
        ∀ x, r.Destroyed .worker x → r.AcceptorDoneWith x)
  | .closed =>
    r.client.Gone ∧ r.worker.Returned ∧ ∀ x, ¬ r.Destroyed .worker x

/-- The invariant, with the phase of the acceptor. -/
structure Inv (r : Race) (φ : Phase) : Prop where
  follows : r.acceptor.Follows acceptorDiscipline (fun _ => Phase.Final) φ
  safe : r.NoUseAfterFree
  holds : r.Holds φ

theorem start_inv (answers : Answers) : (start answers).Inv .hidden where
  follows := serverWorkerAddClient_follows
  safe := .nil
  holds := ⟨⟨rfl, rfl⟩, rfl, fun _ _ h => nomatch h.2⟩

/-! ### Recording an access -/

section Record

variable {r r' : Race} {thread : Thread} {o : Op}
  (hrecord : r'.accesses = r.record thread (some o))

include hrecord

/-- Recording an operation is safe if it uses nothing the other thread has destroyed. -/
theorem noUseAfterFree_record (hsafe : r.NoUseAfterFree)
    (h : ∀ other x, other ≠ thread → r.Destroyed other x → x ∉ o.uses r.client) :
    r'.NoUseAfterFree := by
  rw [NoUseAfterFree, hrecord]
  -- only the new access has to be compared with the old ones
  refine .cons (fun b hb hne x hx hguarded => ?_) hsafe
  exact h b.thread x hne.symm ⟨hguarded, b, hb, rfl, hx⟩

/-- After an operation the destroyed objects are the one it destroys and those from before. -/
theorem destroyed_record {other : Thread} {x : Obj} (h : r'.Destroyed other x) :
    other = thread ∧ x.Guarded ∧ x ∈ o.destroys ∨ r.Destroyed other x := by
  obtain ⟨hguarded, a, ha, rfl, hx⟩ := h
  rw [hrecord] at ha
  rcases List.mem_cons.1 ha with rfl | ha
  · exact .inl ⟨rfl, hguarded, hx⟩
  · exact .inr ⟨hguarded, a, ha, rfl, hx⟩

/-- An operation that destroys no guarded object leaves the destroyed objects as they are. -/
theorem destroyed_of_record (hnone : ∀ x ∈ o.destroys, ¬ x.Guarded) {other : Thread} {x : Obj}
    (h : r'.Destroyed other x) : r.Destroyed other x :=
  (destroyed_record hrecord h).resolve_left fun hnew => hnone x hnew.2.2 hnew.2.1

/-- An operation of one thread adds nothing to what the other has destroyed. -/
theorem destroyed_of_record_other {other : Thread} (hne : other ≠ thread) {x : Obj}
    (h : r'.Destroyed other x) : r.Destroyed other x :=
  (destroyed_record hrecord h).resolve_left fun hnew => hne hnew.1

end Record

end Race

/-! ### One operation of the acceptor -/

section Acceptor

variable {ans : Answers} {o : Op} {s : State}

/-- The operations of `client_disconnect` bring back neither the registration nor a timer. -/
theorem exec_closing_gone (ho : o.Closing) (h : s.Gone) : (exec ans o s).2.Gone := by
  refine ⟨exec_closing_interest ho h.interest, ?_⟩
  cases o with
  | timerDestroy id => simp [exec, State.observe, h.timers]
  | deregister | closeSocket | free x | getCurrentQuestion | getCurrentTask | getTimers =>
    exact h.timers
  | _ => exact ho.elim

/-- The operations of `client_next_task` other than the modification leave the registration
alone. -/
theorem exec_advancing_interest (ho : o.Advancing) (hmod : ∀ ev, o ≠ .epollMod ev) :
    (exec ans o s).2.interest = s.interest := by
  cases o with
  | epollMod ev => exact absurd rfl (hmod ev)
  | plotGetTask | plotTaskGetQuestion pt => simp only [exec]; split <;> rfl
  | flush | free x | getCurrentTask | setCurrentTask pt | setCurrentQuestion q
  | questionGetText q | writeBorrow owner cells | writeMem cells => rfl
  | _ => exact ho.elim

namespace Race

variable {r : Race} {k : o.Ans → Program Bool}

theorem step_acceptor (hacc : r.acceptor = .call o k) :
    r.step .acceptor =
      { r with
        client := (exec r.acceptorAnswers o r.client).2
        acceptor := k (exec r.acceptorAnswers o r.client).1
        accesses := r.record .acceptor (some o) } := by
  simp only [step, hacc, Prog.step, Prog.next?]

theorem record_step_acceptor (hacc : r.acceptor = .call o k) :
    (r.step .acceptor).accesses = r.record .acceptor (some o) := by
  rw [step_acceptor hacc]

/-- What the worker has destroyed is out of the acceptor's reach. -/
theorem not_mem_uses_acceptor {φ : Phase} (hacc : r.acceptor = .call o k) (h : r.Holds φ)
    {x : Obj} (hx : r.Destroyed .worker x) : x ∉ o.uses r.client := by
  -- before the registration was modified the worker has destroyed nothing
  cases φ with
  | hidden => exact absurd hx (h.2.2 _ _)
  | visible => exact absurd hx (h.2.2.2 _ _)
  | refused => exact absurd hx (h.2.2.2.1 _)
  | closed => exact absurd hx (h.2.2 _)
  | shown =>
    -- afterwards only what the acceptor will not use
    rcases h.2 with hreturned | ⟨-, hdone⟩
    · rw [hacc] at hreturned
      nomatch hreturned
    · have hevery := hdone x hx
      rw [AcceptorDoneWith, hacc] at hevery
      exact hevery.1 r.client

theorem destroyed_step_acceptor (hacc : r.acceptor = .call o k)
    (hd : ∀ x ∈ o.destroys, ¬ x.Guarded) {thread : Thread} {x : Obj}
    (hx : (r.step .acceptor).Destroyed thread x) : r.Destroyed thread x :=
  destroyed_of_record (record_step_acceptor hacc) hd hx

theorem destroyed_worker_step_acceptor (hacc : r.acceptor = .call o k) {x : Obj}
    (hx : (r.step .acceptor).Destroyed .worker x) : r.Destroyed .worker x :=
  destroyed_of_record_other (record_step_acceptor hacc)
    (show Thread.worker ≠ .acceptor by decide) hx

/-- While the worker does not know the client, the acceptor creates it. -/
theorem acceptor_hidden (hacc : r.acceptor = .call o k) (h : r.Holds .hidden)
    (hallowed : acceptorDiscipline.Allowed .hidden o) :
    (r.step .acceptor).Holds
      (acceptorDiscipline.next .hidden o (exec r.acceptorAnswers o r.client).1) := by
  obtain ⟨hgone, hreturned, huntouched⟩ := h
  obtain ⟨hcreating, hregister⟩ := hallowed
  have huntil : r.worker.Until Op.StartsDisconnect Op.Quiet := until_of_returned hreturned
  have hkept (hd : o.destroys = none) : ∀ thread x, ¬ (r.step .acceptor).Destroyed thread x :=
    fun thread x hx =>
      huntouched thread x (destroyed_step_acceptor hacc (unguarded_of_destroys_none hd) hx)
  have hworker : ∀ x, ¬ (r.step .acceptor).Destroyed .worker x :=
    fun x hx => huntouched _ x (destroyed_worker_step_acceptor hacc hx)
  cases o with
  -- the only operation that leaves this phase for the next one
  | register ev =>
    obtain rfl : ev = hangUpOnly := hregister ev rfl
    replace hkept := hkept rfl
    rw [step_acceptor hacc] at hkept ⊢
    cases hadd : r.acceptorAnswers.add with
    | true =>
      simp only [exec, hadd, ↓reduceIte, acceptorDiscipline] at hkept ⊢
      exact ⟨rfl, hgone.timers, huntil, hkept⟩
    | false =>
      simp only [exec, hadd, Bool.false_eq_true, ↓reduceIte, acceptorDiscipline] at hkept ⊢
      exact ⟨hgone, hreturned, hkept _⟩
  | free x =>
    rw [step_acceptor hacc] at hworker ⊢
    exact ⟨⟨hgone.interest, hgone.timers⟩, hreturned, hworker⟩
  | malloc x | construct | streamCreate =>
    replace hkept := hkept rfl
    rw [step_acceptor hacc] at hkept ⊢
    exact ⟨⟨hgone.interest, hgone.timers⟩, hreturned, hkept⟩
  | initClient =>
    replace hkept := hkept rfl
    rw [step_acceptor hacc] at hkept ⊢
    exact ⟨⟨hgone.interest, rfl⟩, hreturned, hkept⟩
  | _ => exact hcreating.elim

/-- While the registration asks for hang-ups only, the acceptor disconnects the client in turn, or
gives it its first task. -/
theorem acceptor_visible (hacc : r.acceptor = .call o k) (h : r.Holds .visible)
    (hallowed : acceptorDiscipline.Allowed .visible o) (hturn : r.InTurn .acceptor) :
    (r.step .acceptor).Holds
      (acceptorDiscipline.next .visible o (exec r.acceptorAnswers o r.client).1) := by
  obtain ⟨hinterest, htimers, huntil, huntouched⟩ := h
  rcases hallowed with rfl | ⟨hadvancing, hunguarded⟩
  · -- disconnecting in turn: the worker waits for events
    have hreturned : r.worker.Returned := hturn (by rw [hacc]; rfl)
    have hworker : ∀ x, ¬ (r.step .acceptor).Destroyed .worker x :=
      fun x hx => huntouched _ x (destroyed_worker_step_acceptor hacc hx)
    rw [step_acceptor hacc] at hworker ⊢
    exact ⟨⟨rfl, htimers⟩, hreturned, hworker⟩
  · have hkept : ∀ thread x, ¬ (r.step .acceptor).Destroyed thread x :=
      fun thread x hx => huntouched _ x (destroyed_step_acceptor hacc hunguarded hx)
    have htimers' : (r.step .acceptor).client.timers = [] := by
      rw [step_acceptor hacc]
      exact (exec_advancing_timers _ hadvancing).trans htimers
    have huntil' : (r.step .acceptor).worker.Until Op.StartsDisconnect Op.Quiet := by
      rw [step_acceptor hacc]
      exact huntil
    -- `EPOLL_CTL_MOD` decides between the phases `shown` and `refused`
    by_cases hmod : ∃ ev, o = .epollMod ev
    · obtain ⟨ev, rfl⟩ := hmod
      have hinterest' : (exec r.acceptorAnswers (.epollMod ev) r.client).1 = false →
          (r.step .acceptor).client.interest = some hangUpOnly := by
        rw [step_acceptor hacc]
        simp only [exec]
        split
        · intro hok
          cases hok
        · exact fun _ => hinterest
      revert hinterest'
      cases (exec r.acceptorAnswers (.epollMod ev) r.client).1 with
      | true =>
        intro _
        exact ⟨fun x hx => hkept _ x hx,
          .inr ⟨huntil'.mono fun _ => Op.Quiet.gentle, fun x hx => absurd hx (hkept _ x)⟩⟩
      | false =>
        intro hinterest'
        exact ⟨hinterest' rfl, htimers', huntil', fun x hx => hkept _ x hx,
          fun x hx => absurd hx (hkept _ x)⟩
    · have hinterest' : (r.step .acceptor).client.interest = some hangUpOnly := by
        rw [step_acceptor hacc]
        exact (exec_advancing_interest hadvancing fun ev hev => hmod ⟨ev, hev⟩).trans hinterest
      cases o with
      | epollMod ev => exact absurd ⟨ev, rfl⟩ hmod
      | deregister => exact hadvancing.elim
      | _ => exact ⟨hinterest', htimers', huntil', hkept⟩

/-- After the refused registration the acceptor destroys the new task's question and disconnects
the client in turn. -/
theorem acceptor_refused (hacc : r.acceptor = .call o k) (h : r.Holds .refused)
    (hallowed : acceptorDiscipline.Allowed .refused o) (hturn : r.InTurn .acceptor) :
    (r.step .acceptor).Holds
      (acceptorDiscipline.next .refused o (exec r.acceptorAnswers o r.client).1) := by
  obtain ⟨hinterest, htimers, huntil, huntouched, hquestions⟩ := h
  have hworker : ∀ x, ¬ (r.step .acceptor).Destroyed .worker x :=
    fun x hx => huntouched x (destroyed_worker_step_acceptor hacc hx)
  rcases hallowed with rfl | ⟨hadvancing, hdestroys⟩
  · have hreturned : r.worker.Returned := hturn (by rw [hacc]; rfl)
    rw [step_acceptor hacc] at hworker ⊢
    exact ⟨⟨rfl, htimers⟩, hreturned, hworker⟩
  · -- the acceptor destroys its own question, which the worker does not know
    have hquestions' : ∀ x, (r.step .acceptor).Destroyed .acceptor x →
        ∃ no, x = .question no := by
      intro x hx
      rcases destroyed_record (record_step_acceptor hacc) hx with ⟨-, hguarded, hnew⟩ | hold
      · exact gentle_of_advancing hadvancing x hnew hguarded
      · exact hquestions x hold
    cases o with
    | free x =>
      rw [step_acceptor hacc] at hworker hquestions' ⊢
      exact ⟨hinterest, htimers, huntil, hworker, hquestions'⟩
    | _ => cases hdestroys

/-- One operation of the acceptor keeps what holds, in the phase it leads to. -/
theorem acceptor_holds {φ : Phase} (hacc : r.acceptor = .call o k) (h : r.Holds φ)
    (hallowed : acceptorDiscipline.Allowed φ o) (hturn : r.InTurn .acceptor) :
    (r.step .acceptor).Holds
      (acceptorDiscipline.next φ o (exec r.acceptorAnswers o r.client).1) := by
  cases φ with
  | hidden => exact acceptor_hidden hacc h hallowed
  | visible => exact acceptor_visible hacc h hallowed hturn
  | refused => exact acceptor_refused hacc h hallowed hturn
  | shown =>
    obtain ⟨huntouched, hreturned | ⟨huntil, hdone⟩⟩ := h
    · rw [hacc] at hreturned
      cases hreturned
    · refine ⟨fun x hx => huntouched x (destroyed_step_acceptor hacc hallowed.2 hx),
        .inr ⟨?_, fun x hx => ?_⟩⟩
      · rw [step_acceptor hacc]
        exact huntil
      · have hevery := hdone x (destroyed_worker_step_acceptor hacc hx)
        rw [AcceptorDoneWith, hacc] at hevery
        rw [AcceptorDoneWith, step_acceptor hacc]
        exact hevery.2 _
  | closed =>
    obtain ⟨hgone, hreturned, huntouched⟩ := h
    refine ⟨?_, ?_, fun x hx => huntouched x (destroyed_worker_step_acceptor hacc hx)⟩
    · rw [step_acceptor hacc]
      exact exec_closing_gone hallowed hgone
    · rw [step_acceptor hacc]
      exact hreturned

/-- An operation of the acceptor keeps the invariant. -/
theorem acceptor_inv {φ : Phase} (h : r.Inv φ) (hturn : r.InTurn .acceptor) :
    ∃ ψ, (r.step .acceptor).Inv ψ := by
  obtain ⟨hfollows, hsafe, hholds⟩ := h
  cases hacc : r.acceptor with
  | ret b =>
    -- an acceptor that has returned does nothing
    have hsame : r.step .acceptor = r := by
      simp only [step, hacc, Prog.step, Prog.next?, record]
      rw [← hacc]
    rw [hsame]
    exact ⟨φ, hfollows, hsafe, hholds⟩
  | call o k =>
    rw [hacc] at hfollows
    refine ⟨_, ?_, ?_, acceptor_holds hacc hholds hfollows.1 hturn⟩
    · rw [step_acceptor hacc]
      exact hfollows.2 _
    · refine noUseAfterFree_record (record_step_acceptor hacc) hsafe fun other x hother hx => ?_
      cases other with
      | acceptor => exact absurd rfl hother
      | worker => exact not_mem_uses_acceptor hacc hholds hx

end Race

end Acceptor

/-! ### One operation of the worker, one event -/

namespace Race

variable {r : Race}

theorem step_worker {o : Op} {k : o.Ans → Program Unit} (hworker : r.worker = .call o k) :
    r.step .worker =
      { r with
        client := (exec r.workerAnswers o r.client).2
        worker := k (exec r.workerAnswers o r.client).1
        accesses := r.record .worker (some o) } := by
  simp only [step, hworker, Prog.step, Prog.next?]

/-- In a phase in which the acceptor cannot have returned, the worker does not disconnect the
client. -/
theorem quiet_of_until {φ : Phase} {o : Op} {k : o.Ans → Program Unit}
    (hworker : r.worker = .call o k) (hturn : r.InTurn .worker) (hfinal : ¬ φ.Final)
    (hfollows : r.acceptor.Follows acceptorDiscipline (fun _ => Phase.Final) φ)
    (huntil : r.worker.Until Op.StartsDisconnect Op.Quiet) :
    o = .readEvent ∧ ∀ a, (k a).Until Op.StartsDisconnect Op.Quiet := by
  rw [hworker] at huntil
  refine huntil.resolve_left fun hstop => ?_
  have hreturned : r.acceptor.Returned := hturn.1 (by rw [hworker, hstop.symm]; rfl)
  cases hacc : r.acceptor with
  | ret b =>
    rw [hacc] at hfollows
    exact hfinal hfollows
  | call o' k' =>
    rw [hacc] at hreturned
    nomatch hreturned

/-- An operation of the worker after the client was given its first task. -/
theorem worker_shown (hworker : r.worker = .call o k) (hturn : r.InTurn .worker)
    (h : r.Holds .shown) : (r.step .worker).Holds .shown := by
  have hrecord : (r.step .worker).accesses = r.record .worker (some o) := by
    rw [step_worker hworker]
  obtain ⟨huntouched, hrest⟩ := h
  refine ⟨fun x hx => huntouched x (destroyed_of_record_other hrecord
    (show Thread.acceptor ≠ .worker by decide) hx), ?_⟩
  have hkept : r.acceptor.Returned → (r.step .worker).acceptor.Returned := by
    rw [step_worker hworker]
    exact fun h => h
  -- either the acceptor has returned, or the worker is gentle
  rcases hrest with hreturned | ⟨huntil, hdone⟩
  · exact .inl (hkept hreturned)
  · rw [hworker] at huntil
    rcases huntil with hstop | ⟨hgentle, hnext⟩
    · exact .inl (hkept (hturn.1 (by rw [hworker, hstop.symm]; rfl)))
    · refine .inr ⟨?_, fun x hx => ?_⟩
      · rw [step_worker hworker]
        exact hnext _
      · -- a question may only be destroyed when the acceptor is done with it
        have hdone' : r.AcceptorDoneWith x := by
          rcases destroyed_record hrecord hx with ⟨-, hguarded, hnew⟩ | hold
          · obtain ⟨no, rfl⟩ := hgentle x hnew hguarded
            refine hturn.2 no ?_
            cases o with
            | free y => rw [hworker, ← Option.some.inj hnew]; rfl
            | _ => nomatch hnew
          · exact hdone x hold
        rw [AcceptorDoneWith, step_worker hworker]
        exact hdone'

/-- An operation of the worker keeps the invariant, and the acceptor stays in its phase. -/
theorem worker_inv {φ : Phase} (h : r.Inv φ) (hturn : r.InTurn .worker) :
    (r.step .worker).Inv φ := by
  obtain ⟨hfollows, hsafe, hholds⟩ := h
  cases hworker : r.worker with
  | ret u =>
    -- a worker that waits for events does nothing
    have hsame : r.step .worker = r := by
      simp only [step, hworker, Prog.step, Prog.next?, record]
      rw [← hworker]
    rw [hsame]
    exact ⟨hfollows, hsafe, hholds⟩
  | call o k =>
    have hbusy : ¬ r.worker.Returned := by
      rw [hworker]
      exact nofun
    have hrecord : (r.step .worker).accesses = r.record .worker (some o) := by
      rw [step_worker hworker]
    have hsafe' (hclear : ∀ x, r.Destroyed .acceptor x → x ∉ o.uses r.client) :
        (r.step .worker).NoUseAfterFree := by
      refine noUseAfterFree_record hrecord hsafe fun other x hother hx => ?_
      cases other with
      | acceptor => exact hclear x hx
      | worker => exact absurd rfl hother
    have hfollows' : (r.step .worker).acceptor.Follows acceptorDiscipline
        (fun _ => Phase.Final) φ := by
      rw [step_worker hworker]
      exact hfollows
    cases φ with
    | hidden => exact absurd hholds.2.1 hbusy
    | closed => exact absurd hholds.2.1 hbusy
    | visible =>
      obtain ⟨hinterest, htimers, huntil, huntouched⟩ := hholds
      obtain ⟨rfl, hrest⟩ := quiet_of_until hworker hturn (fun h => h.1 rfl) hfollows huntil
      refine ⟨hfollows', hsafe' fun x hx => absurd hx (huntouched _ x), ?_⟩
      rw [step_worker hworker]
      exact ⟨hinterest, htimers, hrest _, fun thread x hx =>
        huntouched thread x (destroyed_of_record (o := .readEvent) rfl nofun hx)⟩
    | refused =>
      obtain ⟨hinterest, htimers, huntil, huntouched, hquestions⟩ := hholds
      obtain ⟨rfl, hrest⟩ := quiet_of_until hworker hturn (fun h => h.2 rfl) hfollows huntil
      refine ⟨hfollows', hsafe' fun x hx hmem => ?_, ?_⟩
      · obtain ⟨no, rfl⟩ := hquestions x hx
        nomatch List.mem_singleton.1 hmem
      · rw [step_worker hworker]
        exact ⟨hinterest, htimers, hrest _,
          fun x hx => huntouched x (destroyed_of_record (o := .readEvent) rfl nofun hx),
          fun x hx => hquestions x (destroyed_of_record (o := .readEvent) rfl nofun hx)⟩
    | shown =>
      exact ⟨hfollows', hsafe' fun x hx => absurd hx (hholds.1 x),
        worker_shown hworker hturn hholds⟩

/-- Reporting an event keeps the invariant. -/
theorem event_inv {φ : Phase} (h : r.Inv φ) (e : Event) (answers : Answers) :
    (r.step (.event e answers)).Inv φ := by
  obtain ⟨hfollows, hsafe, hholds⟩ := h
  simp only [step]
  split
  next hevent =>
    refine ⟨hfollows, hsafe, ?_⟩
    obtain ⟨-, hreportable⟩ := hevent
    -- without timers, and with hang-ups asked for only, it is a hang-up
    have hquiet (hinterest : r.client.interest = some hangUpOnly) (htimers : r.client.timers = []) :
        (workerHandler e).Until Op.StartsDisconnect Op.Quiet := by
      cases e with
      | timer id => simp [State.Reportable, htimers] at hreportable
      | client ev =>
        obtain ⟨asked, hasked, hwithin⟩ := hreportable
        obtain rfl : hangUpOnly = asked := Option.some.inj (hinterest.symm.trans hasked)
        exact workerHandler_quiet hwithin
    -- nothing is reported about a client that is gone
    have hnever : ¬ r.client.Gone := by
      intro hgone
      cases e with
      | timer id => simp [State.Reportable, hgone.timers] at hreportable
      | client ev => simp [State.Reportable, hgone.interest] at hreportable
    cases φ with
    | hidden => exact absurd hholds.1 hnever
    | closed => exact absurd hholds.1 hnever
    | visible => exact ⟨hholds.1, hholds.2.1, hquiet hholds.1 hholds.2.1, hholds.2.2.2⟩
    | refused => exact ⟨hholds.1, hholds.2.1, hquiet hholds.1 hholds.2.1, hholds.2.2.2⟩
    | shown =>
      exact ⟨hholds.1, hholds.2.imp_right fun hrest => ⟨workerHandler_gentle e, hrest.2⟩⟩
  next => exact ⟨hfollows, hsafe, hholds⟩

/-- A step in turn keeps the invariant. -/
theorem step_inv (r : Race) (t : Step) (h : ∃ φ, r.Inv φ) (hturn : r.InTurn t) :
    ∃ φ, (r.step t).Inv φ := by
  obtain ⟨φ, h⟩ := h
  cases t with
  | acceptor => exact acceptor_inv h hturn
  | worker => exact ⟨φ, worker_inv h hturn⟩
  | event e answers => exact ⟨φ, event_inv h e answers⟩

end Race

/-- In every run whose steps are in turn, no thread uses a client, a stream or a question that
the other thread has destroyed. -/
theorem noUseAfterFree_throughout (answers : Answers) (steps : List Step)
    (hturn : InputMachine.Meets Race.step Race.InTurn (Race.start answers) steps) :
    InputMachine.Always Race.step Race.NoUseAfterFree (Race.start answers) steps := by
  have hinv := InputMachine.always_of_invariant Race.step_inv ⟨_, Race.start_inv answers⟩ hturn
  exact hinv.mono Race.step fun r ⟨φ, h⟩ => h.safe

/-! ### Adding first, handling later -/

namespace Race

/-- Once the acceptor has returned, every step is in turn. -/
theorem meets_of_returned {r : Race} (h : r.acceptor.Returned) (steps : List Step) :
    InputMachine.Meets step InTurn r steps := by
  induction steps generalizing r with
  | nil => trivial
  | cons t steps ih =>
    cases hacc : r.acceptor with
    | call o k =>
      rw [hacc] at h
      nomatch h
    | ret b =>
      -- both conditions ask that the acceptor has returned or is done
      have hturn : r.InTurn t := by
        cases t with
        | acceptor => exact fun hnext => by rw [hacc] at hnext; nomatch hnext
        | worker => exact ⟨fun _ => h, fun no _ => by rw [AcceptorDoneWith, hacc]; trivial⟩
        | event e answers => trivial
      have hstays : (r.step t).acceptor.Returned := by
        cases t with
        | acceptor => simp only [step, hacc, Prog.step]; rfl
        | worker => exact h
        | event e answers => simp only [step]; split <;> exact h
      exact ⟨hturn, ih hstays⟩

/-- While the worker waits for events, the acceptor's steps are in turn. -/
theorem meets_acceptor {r : Race} (h : r.worker.Returned) (n : ℕ) :
    InputMachine.Meets step InTurn r (List.replicate n .acceptor) := by
  induction n generalizing r with
  | zero => trivial
  | succ n ih => exact ⟨fun _ => h, ih h⟩

end Race

/-- The client hangs up. -/
def hangUp : Event := .client hangUpOnly

/-- The acceptor adds the client, and then the worker handles its hanging up. -/
def hangUpAfterAdding : List Step :=
  List.replicate 17 .acceptor ++ .event hangUp generous :: List.replicate 10 .worker

/-- A client that hangs up after it has been added. -/
theorem noUseAfterFree_hangUp_after_adding :
    InputMachine.Meets Race.step Race.InTurn (Race.start generous) hangUpAfterAdding ∧
      InputMachine.Always Race.step Race.NoUseAfterFree (Race.start generous)
        hangUpAfterAdding := by
  have hreturned : (InputMachine.run Race.step (Race.start generous)
      (List.replicate 17 .acceptor)).acceptor.Returned := by decide +kernel
  have hwaits : (Race.start generous).worker.Returned := rfl
  have hturn : InputMachine.Meets Race.step Race.InTurn (Race.start generous)
      hangUpAfterAdding :=
    (InputMachine.meets_append Race.step _ _ _).2
      ⟨Race.meets_acceptor hwaits 17, Race.meets_of_returned hreturned _⟩
  exact ⟨hturn, noUseAfterFree_throughout generous hangUpAfterAdding hturn⟩

/-- The client hangs up when the acceptor has registered it, and the worker disconnects it
before the acceptor goes on. -/
def hangUpWhileAdding : List Step :=
  List.replicate 6 .acceptor ++ .event hangUp generous :: List.replicate 10 .worker ++
    [.acceptor]

/-- A client that hangs up while it is being added: the acceptor flushes the stream of a client
that has been freed. -/
theorem useAfterFree_hangUp :
    ¬ InputMachine.Always Race.step Race.NoUseAfterFree (Race.start generous)
      hangUpWhileAdding := by
  intro h
  have hlast : ¬ (InputMachine.run Race.step (Race.start generous)
      hangUpWhileAdding).NoUseAfterFree := by decide +kernel
  exact hlast (h.last Race.step)

end Qkmetisc.Server
