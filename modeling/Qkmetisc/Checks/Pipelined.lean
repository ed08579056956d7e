import Qkmetisc.Checks.Task
import Qkmetisc.Server.Descriptor

/-!
# Answers sent ahead

A client may send the answer to its next task before it has been given that task. The check of the
current task reads through a stream of its own, and what the stream has read ahead of the task's
function is forgotten when the stream is closed.

The server of the other modules is run here with the verdicts that the checks find on the client's
socket.

## Main definitions

* `Connection`, `Connection.step`: a client with its task and what has arrived on its socket.
* `Connection.Conserved`: what a check did not consume is what the next one starts from.
* `CheckTask.AnsweredAhead`: the current answer is right and more follows it.
* `KeepsInput`: the condition on a step under which nothing is lost.

## Main results

* `Connection.Inv.step`: one step.
* `conserved_throughout`: a run whose steps all meet the condition.
* `not_conserved_two_answers`: two answers in one segment.
-/

open Arith BufferedFile Decimal
open Qkmetisc.Server (Answers AnswerState Event Events Input State generous)

namespace Qkmetisc.Checks

open EqGen PythonShellcode

/-- One client of a worker. -/
structure Connection where
  client : State
  /-- What `client->current_task` points to. -/
  task : CheckTask
  /-- The bytes that can be read from the socket. -/
  socket : List Char
  /-- The bytes that arrived and that no check has consumed. The source does not keep them. -/
  unread : List Char

/-- What the environment answers to a check that ends with this verdict. -/
def answersWith (ans : Answers) (res : AnswerState) : Answers := { ans with check := res }

section Steps

variable (size : ℕ) (mpzInpStr : MpzInpStr)

/-- Something that happens to a client. -/
inductive ConnectionStep where
  /-- Bytes arrive on the socket. -/
  | receive (bytes : List Char)
  /-- The worker handles an event. The verdict of a check is that on the bytes in the socket, and
  the task given after a right one, if any, is `next`. -/
  | event (i : Input) (next : {task : CheckTask // task.Current size mpzInpStr})

variable {size mpzInpStr}

/-- The event makes the worker check the current task. -/
def Connection.ChecksOn (s : Connection) (e : Event) : Prop :=
  s.client.Deliverable e ∧ e.Checks ∧ s.client.currentTask.isSome

instance (s : Connection) (e : Event) : Decidable (s.ChecksOn e) :=
  inferInstanceAs (Decidable (_ ∧ _ ∧ _))

/-- One step of a client. -/
def Connection.step (s : Connection) : ConnectionStep size mpzInpStr → Connection
  | .receive bytes => { s with socket := s.socket ++ bytes, unread := s.unread ++ bytes }
  | .event i next =>
    if s.ChecksOn i.event then
      match plotTaskCheckFd size mpzInpStr i.answers.dup i.answers.fdopen s.task s.socket with
      | .error _ => s  -- a failed assertion is the end of the process
      | .ok c =>
        let answers := answersWith i.answers c.res
        { client := s.client.serve { event := i.event, answers }
          task := if c.res = .right ∧ answers.Shows then next else c.task
          socket := c.socket
          unread := c.unread }
    else { s with client := s.client.serve i }

/-- An event with a check that returns. -/
theorem Connection.step_event {s : Connection} {i : Input} {c : Checked}
    (next : {task : CheckTask // task.Current size mpzInpStr}) (hchecks : s.ChecksOn i.event)
    (hc : plotTaskCheckFd size mpzInpStr i.answers.dup i.answers.fdopen s.task s.socket = .ok c) :
    s.step (.event i next) =
      { client := s.client.serve { event := i.event, answers := answersWith i.answers c.res }
        task := if c.res = .right ∧ (answersWith i.answers c.res).Shows then next else c.task
        socket := c.socket
        unread := c.unread } := by
  simp only [Connection.step, if_pos hchecks, hc]

/-- The client after `server_worker_add_client`, with the first task it was given. -/
def Connection.start (ans : Answers) (first : CheckTask) : Connection :=
  { client := .added ans, task := first, socket := [], unread := [] }

/-- While the client is there, the next check starts from the bytes that no check has consumed. -/
def Connection.Conserved (s : Connection) : Prop :=
  s.client.interest.isSome → s.socket = s.unread

end Steps

/-- The socket holds the right answer to the task and more. For a shellcode task that is harmless
if the bytes it asks for fill the stream's buffer a number of times. -/
def CheckTask.AnsweredAhead (size : ℕ) : CheckTask → List Char → Prop
  | .eq priv, socket => ∃ n, scan false socket = some n ∧ IsAnswer priv n ∧ socket ≠ n.text
  | .python priv, socket => priv.needed < socket.length ∧ ¬size ∣ priv.needed ∧
      priv.received ++ socket.take priv.needed = priv.answer
  | .echo, _ => False

/-- The step is no check that finds the right answer and more, with a next task for the client. -/
def KeepsInput {size : ℕ} {mpzInpStr : MpzInpStr} (s : Connection) :
    ConnectionStep size mpzInpStr → Prop
  | .receive _ => True
  | .event i _ => s.ChecksOn i.event → i.answers.dup → i.answers.fdopen → i.answers.Shows →
      ¬s.task.AnsweredAhead size s.socket

section Handler

variable {ans : Answers} {s : State}

/-- After this verdict a client is disconnected at once, or has no next task to go on with. -/
def Refuses (e : Event) (ans : Answers) : Prop :=
  match Server.plotTaskCheckFd ans with
  | .wrong => True
  | .more => ∃ id, e = .timer id
  | .right => ¬ans.Shows

/-- `client_next_task` of a client in the ring fails if a call it makes does. -/
theorem clientNextTask_fails (h : s.InRing) (hshows : ¬ans.Shows) :
    Server.clientNextTask.wp (Server.exec ans) (fun ok _ => ok = false) s :=
  Prog.wp_mono (Server.clientNextTask_result h.registered) fun ok _ hok => by
    cases ok with
    | true => exact absurd (hok.1 rfl) hshows
    | false => rfl

/-- The branch for `EPOLLIN`. -/
theorem handleInput_gone {ev : Events} (h : s.InRing) (htask : s.currentTask.isSome)
    (hrefuses : Refuses (.client ev) ans) :
    Server.WorkerHandler.handleInput.wp (Server.exec ans)
      (fun goesOn s' => goesOn = false ∧ s'.Gone) s := by
  unfold Server.WorkerHandler.handleInput
  refine Prog.wp_call (R := fun pt s' => pt.isSome ∧ s' = s) ⟨htask, rfl⟩ fun pt s1 ⟨hpt, hs1⟩ => ?_
  obtain ⟨pt, rfl⟩ := Option.isSome_iff_exists.1 hpt
  refine Prog.wp_call (R := fun res s' => res = Server.plotTaskCheckFd ans ∧ s'.InRing)
    ⟨rfl, Server.exec_inRing ans trivial (hs1 ▸ h)⟩ fun res s2 ⟨hres, h2⟩ => ?_
  rw [Refuses, ← hres] at hrefuses
  cases res with
  | wrong => exact Prog.wp_seq Server.clientDisconnect_gone fun _ _ hgone => ⟨rfl, hgone⟩
  | more =>
    obtain ⟨id, hid⟩ := hrefuses
    cases hid
  | right =>
    refine Prog.wp_seq (clientNextTask_fails h2 hrefuses) fun ok s3 hok => ?_
    rw [hok]
    exact Prog.wp_seq Server.clientDisconnect_gone fun _ _ hgone => ⟨rfl, hgone⟩

/-- An expired timer. -/
theorem timerExpired_gone {id : ℕ} (h : s.InRing) (htask : s.currentTask.isSome)
    (hrefuses : Refuses (.timer id) ans) :
    (Server.WorkerHandler.timerExpired id).wp (Server.exec ans) (fun _ => State.Gone) s := by
  unfold Server.WorkerHandler.timerExpired
  refine Prog.wp_call (R := fun _ s' => s'.InRing ∧ s'.currentTask = s.currentTask)
    ⟨Server.exec_inRing ans trivial h, rfl⟩ fun _ s1 ⟨h1, htask1⟩ => ?_
  refine Prog.wp_call (R := fun pt s' => pt.isSome ∧ s'.InRing)
    ⟨(congrArg _ htask1).trans htask, h1⟩ fun pt s2 ⟨hpt, h2⟩ => ?_
  obtain ⟨pt, rfl⟩ := Option.isSome_iff_exists.1 hpt
  refine Prog.wp_call (R := fun res s' => res = Server.plotTaskCheckFd ans ∧ s'.InRing)
    ⟨rfl, Server.exec_inRing ans trivial h2⟩ fun res s3 ⟨hres, h3⟩ => ?_
  rw [Refuses, ← hres] at hrefuses
  by_cases hright : res = .right
  · rw [hright] at hrefuses
    rw [if_neg (not_not.2 hright)]
    refine Prog.wp_seq (clientNextTask_fails h3 hrefuses) fun ok s4 hok => ?_
    rw [hok]
    exact Server.clientDisconnect_gone
  · rw [if_pos hright]
    exact Server.clientDisconnect_gone

/-- A client whose answer is refused is gone after the event. -/
theorem serve_gone {e : Event} (h : s.InRing) (hdeliverable : s.Deliverable e) (hchecks : e.Checks)
    (htask : s.currentTask.isSome) (hrefuses : Refuses e ans) :
    (s.serve { event := e, answers := ans }).Gone := by
  rw [State.serve, if_pos hdeliverable]
  cases e with
  | timer id => exact timerExpired_gone h htask hrefuses
  | client ev =>
    have hinput : ev.input = true := hchecks
    have hhandler : (Server.workerHandler (.client ev)).wp (Server.exec ans)
        (fun _ => State.Gone) s := by
      refine Prog.wp_call (R := fun _ s' => s' = s) rfl fun _ s1 hs1 => ?_
      rw [hs1, if_pos hinput]
      refine Prog.wp_seq (handleInput_gone h htask hrefuses) fun goesOn s2 ⟨hstop, hgone⟩ => ?_
      rw [hstop]
      exact hgone
    exact hhandler

end Handler

section Runs

variable {size : ℕ} {mpzInpStr : MpzInpStr}

/-- What a check of a client's task leaves: bytes are lost only behind an answer that is right. -/
structure Checked.Sound (size : ℕ) (mpzInpStr : MpzInpStr) (task : CheckTask) (socket : List Char)
    (c : Checked) : Prop where
  current : c.task.Current size mpzInpStr
  more : c.res = .more → c.socket = c.unread
  right : c.res = .right → (c.socket = c.unread ↔ ¬task.AnsweredAhead size socket)

/-- A check leaves a task that a client can have. -/
theorem current_of_plotTaskCheckFd {task : CheckTask} (h : task.Current size mpzInpStr)
    {dup fdopen : Bool} {socket : List Char} {c : Checked}
    (hcheck : plotTaskCheckFd size mpzInpStr dup fdopen task socket = .ok c) :
    c.task.Current size mpzInpStr := by
  unfold plotTaskCheckFd at hcheck
  split at hcheck
  · cases hcheck
    exact h
  · split at hcheck
    · cases hcheck
      exact h
    · cases htask : taskCheck size mpzInpStr task (.fopen socket) with
      | error e =>
        rw [htask] at hcheck
        cases hcheck
      | ok out =>
        rw [htask] at hcheck
        cases hcheck
        exact h.checked htask

/-- A check of a client's task returns. -/
theorem plotTaskCheckFd_sound (hsize : 0 < size) (hinp : ReadsNumbers size mpzInpStr)
    {task : CheckTask} (h : task.Current size mpzInpStr) (dup fdopen : Bool)
    (socket : List Char) :
    ∃ c, plotTaskCheckFd size mpzInpStr dup fdopen task socket = .ok c ∧
      c.Sound size mpzInpStr task socket ∧ (c.res = .right → dup = true ∧ fdopen = true) := by
  have hrefused {dup fdopen : Bool} (hnot : ¬(dup = true ∧ fdopen = true)) :
      plotTaskCheckFd size mpzInpStr dup fdopen task socket =
        .ok { task, res := .wrong, unread := socket, socket } := by
    cases dup <;> cases fdopen <;> simp_all [plotTaskCheckFd]
  by_cases hopened : dup = true ∧ fdopen = true
  · obtain ⟨rfl, rfl⟩ := hopened
    cases task with
    | echo => exact ⟨_, rfl, ⟨h, by simp, fun _ => iff_of_true rfl not_false⟩, fun _ => ⟨rfl, rfl⟩⟩
    | eq priv =>
      have hsound : EqSound priv := h.sound
      cases hscan : scan false socket with
      | none =>
        obtain ⟨c, hc, hwrong⟩ := plotTaskCheckFd_noNumeral hinp hsound hscan
        exact ⟨c, hc, ⟨current_of_plotTaskCheckFd h hc, by simp [hwrong], by simp [hwrong]⟩,
          fun _ => ⟨rfl, rfl⟩⟩
      | some n =>
        obtain ⟨c, hc, hmore, hright, hlost⟩ := plotTaskCheckFd_numeral hsize hinp hsound hscan
        refine ⟨c, hc, ⟨current_of_plotTaskCheckFd h hc, fun hres => absurd hres hmore,
          fun hres => ?_⟩, fun _ => ⟨rfl, rfl⟩⟩
        have hanswer := hright.1 hres
        simp [hlost, CheckTask.AnsweredAhead, hscan, hanswer]
    | python priv =>
      by_cases hneeded : priv.needed ≤ socket.length
      · obtain ⟨c, hc, hres, hlost⟩ :=
          plotTaskCheckFd_python_complete mpzInpStr hsize hneeded
        refine ⟨c, hc, ⟨current_of_plotTaskCheckFd h hc, ?_, fun hright => ?_⟩,
          fun _ => ⟨rfl, rfl⟩⟩
        · rw [hres, PythonShellcodeTaskPriv.verdict]
          split <;> simp
        · have hanswer : priv.received ++ socket.take priv.needed = priv.answer := by
            by_contra hne
            rw [hres, PythonShellcodeTaskPriv.verdict, if_neg hne] at hright
            cases hright
          rw [hlost]
          simp only [CheckTask.AnsweredAhead, hanswer, and_true, not_and, not_not]
          omega
      · obtain ⟨next, hc, -⟩ :=
          plotTaskCheckFd_python_more mpzInpStr hsize (Nat.not_le.1 hneeded)
        exact ⟨_, hc, ⟨current_of_plotTaskCheckFd h hc, fun _ => rfl, by simp⟩,
          fun _ => ⟨rfl, rfl⟩⟩
  · exact ⟨_, hrefused hopened, ⟨h, fun _ => rfl, by simp⟩, by simp⟩

/-- The verdict the server sees is that of the check on the socket. -/
theorem plotTaskCheckFd_answersWith {task : CheckTask} {socket : List Char} {ans : Answers}
    {c : Checked} (hcheck : plotTaskCheckFd size mpzInpStr ans.dup ans.fdopen task socket = .ok c) :
    Server.plotTaskCheckFd (answersWith ans c.res) = c.res := by
  unfold plotTaskCheckFd at hcheck
  unfold Server.plotTaskCheckFd answersWith
  split at hcheck
  next hdup =>
    cases hcheck
    simp [hdup]
  next hdup =>
    split at hcheck
    next hfdopen =>
      cases hcheck
      simp [hdup, hfdopen]
    next hfdopen => simp [hdup, hfdopen]

/-- What holds between two steps. -/
structure Connection.Inv (size : ℕ) (mpzInpStr : MpzInpStr) (s : Connection) : Prop where
  client : s.client.InRing ∨ s.client.Gone
  task : s.task.Current size mpzInpStr
  conserved : s.Conserved

theorem Connection.Inv.start (ans : Answers) {first : CheckTask}
    (h : first.Current size mpzInpStr) : (Connection.start ans first).Inv size mpzInpStr where
  client := by
    have hnew : State.start.Left 0 := ⟨⟨rfl, rfl⟩, rfl⟩
    have hadded : Server.serverWorkerAddClient.wp (Server.exec ans)
        (fun _ s' => s'.InRing ∨ s'.Gone) .start :=
      Prog.wp_mono (Server.serverWorkerAddClient_closes hnew) fun ok s' hs' => by
        cases ok with
        | true => exact .inl hs'.1
        | false =>
          simp only [Bool.false_eq_true, if_false] at hs'
          split at hs'
          · exact .inr hs'.1.gone
          · exact .inr hs'.gone
    exact hadded
  task := h
  conserved := fun _ => rfl

/-- Every step that loses nothing keeps the invariant. -/
theorem Connection.Inv.step (hsize : 0 < size) (hinp : ReadsNumbers size mpzInpStr)
    {s : Connection} (h : s.Inv size mpzInpStr) (step : ConnectionStep size mpzInpStr)
    (hkeeps : KeepsInput s step) : (s.step step).Inv size mpzInpStr := by
  have hserve (i : Input) : (s.client.serve i).InRing ∨ (s.client.serve i).Gone := by
    rcases h.client with hring | hgone
    · exact (Server.live_inRing hring (.event i)).imp_right fun hleft => hleft.gone
    · exact .inr ((hgone.serve i).symm ▸ hgone)
  have hregistered (i : Input) (hstays : (s.client.serve i).interest.isSome) : s.client.InRing := by
    refine h.client.resolve_right fun hgone => ?_
    rw [hgone.serve i, hgone.interest] at hstays
    cases hstays
  cases step with
  | receive bytes =>
    refine ⟨h.client, h.task, fun hstays => ?_⟩
    exact congrArg (· ++ bytes) (h.conserved hstays)
  | event i next =>
    by_cases hchecks : s.ChecksOn i.event
    · obtain ⟨c, hc, hsound, hopened⟩ :=
        plotTaskCheckFd_sound hsize hinp h.task i.answers.dup i.answers.fdopen s.socket
      have hverdict := plotTaskCheckFd_answersWith hc
      rw [Connection.step_event next hchecks hc]
      refine ⟨hserve _, ?_, fun hstays => ?_⟩
      · show CheckTask.Current size mpzInpStr (if _ then _ else _)
        split
        · exact next.2
        · exact hsound.current
      · have hring := hregistered _ hstays
        -- a client that is still there was not refused
        have hnot : ¬Refuses i.event (answersWith i.answers c.res) := by
          intro hrefuses
          have hgone := serve_gone hring hchecks.1 hchecks.2.1 hchecks.2.2 hrefuses
          have hstays' : (s.client.serve ⟨i.event, answersWith i.answers c.res⟩).interest.isSome :=
            hstays
          rw [hgone.interest] at hstays'
          cases hstays'
        rw [Refuses, hverdict] at hnot
        show c.socket = c.unread
        cases hres : c.res with
        | wrong =>
          rw [hres] at hnot
          exact absurd trivial hnot
        | more => exact hsound.more hres
        | right =>
          rw [hres] at hnot
          obtain ⟨hdup, hfdopen⟩ := hopened hres
          exact (hsound.right hres).2 (hkeeps hchecks hdup hfdopen (not_not.1 hnot))
    · rw [Connection.step, if_neg hchecks]
      exact ⟨hserve i, h.task, fun hstays => h.conserved (hregistered i hstays).registered⟩

/-- In every run from the time a client is added: if no check finds the right answer with more
behind it while there is a next task, then what a check does not consume is always what the next
one starts from. -/
theorem conserved_throughout (hsize : 0 < size) (hinp : ReadsNumbers size mpzInpStr)
    (ans : Answers) {first : CheckTask} (hfirst : first.Current size mpzInpStr)
    (steps : List (ConnectionStep size mpzInpStr))
    (hkeeps : InputMachine.Meets Connection.step KeepsInput (.start ans first) steps) :
    InputMachine.Always Connection.step Connection.Conserved (.start ans first) steps := by
  have hinv : InputMachine.Always Connection.step (Connection.Inv size mpzInpStr)
      (.start ans first) steps :=
    InputMachine.always_of_invariant
      (fun _ step hs hok => Connection.Inv.step hsize hinp hs step hok) (.start ans hfirst) hkeeps
  exact hinv.mono _ fun _ hs => hs.conserved

/-- An event on the socket that has bytes to read. -/
def inputArrives : Input :=
  { event := .client { input := true, output := false, rdhup := false }, answers := generous }

/-- The task of the equation `12` again, as the next one. -/
def twelveAgain (size : ℕ) (mpzInpStr : MpzInpStr) :
    {task : CheckTask // task.Current size mpzInpStr} :=
  ⟨.eq twelveTask, twelveTask_current size mpzInpStr⟩

/-- The right answer, and nothing else until it has been checked. -/
theorem conserved_one_answer :
    InputMachine.Always Connection.step Connection.Conserved (.start generous (.eq twelveTask))
      [.receive ['1', '2'], .event inputArrives (twelveAgain 4096 (readNumber 4096)),
        .receive ['7', '\n']] := by
  refine conserved_throughout (by decide) (readNumber_readsNumbers 4096) _
    (twelveTask_current _ _) _ ⟨trivial, ?_, trivial, trivial⟩
  rintro - - - - ⟨n, hscan, -, hne⟩
  have htext : (scan false ['1', '2']).map Numeral.text = some ['1', '2'] := by decide
  have hsocket : scan false ['1', '2'] = some n := hscan
  rw [hsocket, Option.map_some, Option.some.injEq] at htext
  exact hne htext.symm

/-- The answers to this task and the next in one segment: the second is lost. -/
theorem not_conserved_two_answers :
    ¬∀ (size : ℕ) (mpzInpStr : MpzInpStr), 0 < size → ReadsNumbers size mpzInpStr →
      ∀ (ans : Answers) (first : CheckTask), first.Current size mpzInpStr →
        ∀ steps : List (ConnectionStep size mpzInpStr),
          InputMachine.Always Connection.step Connection.Conserved (.start ans first) steps := by
  intro hall
  have hinp := readNumber_readsNumbers 4096
  have htask := twelveTask_current 4096 (readNumber 4096)
  let s : Connection :=
    { client := .added generous, task := .eq twelveTask
      socket := ['1', '2', '\n', '1', '2'], unread := ['1', '2', '\n', '1', '2'] }
  have hlast : (s.step (.event inputArrives (twelveAgain 4096 (readNumber 4096)))).Conserved :=
    (hall 4096 _ (by decide) hinp generous _ htask
      [.receive s.socket, .event inputArrives (twelveAgain _ _)]).last
  have hanswers : (scan false ['1', '2', '\n', '1', '2']).map
      (fun n => (n.value, n.text)) = some (12, ['1', '2']) := by decide
  obtain ⟨n, hscan, hn⟩ := Option.map_eq_some_iff.1 hanswers
  rw [Prod.mk.injEq] at hn
  obtain ⟨c, hc, -, hright, hlost⟩ :=
    plotTaskCheckFd_numeral (by decide) hinp (show EqSound twelveTask from htask.sound) hscan
  have hres : c.res = .right :=
    hright.2 ⟨denotes_twelveTask.2 hn.1, by rw [hn.2]; decide⟩
  have hchecks : s.ChecksOn inputArrives.event := by decide +kernel
  have hstays : ((State.added generous).serve
      { event := inputArrives.event, answers := answersWith generous .right }).interest.isSome := by
    decide +kernel
  rw [Connection.step_event _ hchecks hc, hres] at hlast
  have hequal := hlost.1 (hlast hstays)
  rw [hn.2] at hequal
  exact absurd hequal (by decide)

end Runs

end Qkmetisc.Checks
