import Qkmetisc.Server.Descriptor

/-!
# Tasks and questions of a client

A client owns the task it is asked about and the question while it is being sent; locals of
`client_next_task` own the next ones before they are stored. Tasks are destroyed before the client
forgets them. A question is forgotten when the next one is stored over it, which happens to a
client that answers right before it has been sent the whole question.

## Main definitions

* `State.DestroyedOnce`: what is not held any more has been destroyed, once.
* `State.SendsBefore`: the condition on one step.
* `Ledger`: the tasks and questions that were returned and are not destroyed yet.

## Main results

* `clientNextTask_ledger`, `clientSendText_owns`, `clientDisconnect_released`: one function each.
* `destroyedOnce_throughout`: the condition is enough over whole lives.
* `not_destroyedOnce_early_answer`: a right answer to a question not yet sent.
-/

namespace Qkmetisc.Server

namespace State

/-- The client is there and holds the task with this number. -/
def HoldsTask (s : State) (no : ℕ) : Prop :=
  s.interest.isSome = true ∧ s.currentTask.map Task.no = some no

/-- The client is there and holds the question about the task with this number. -/
def HoldsQuestion (s : State) (no : ℕ) : Prop :=
  s.interest.isSome = true ∧ s.currentQuestion.map Question.no = some no

instance (s : State) (no : ℕ) : Decidable (s.HoldsTask no) := inferInstanceAs (Decidable (_ ∧ _))

instance (s : State) (no : ℕ) : Decidable (s.HoldsQuestion no) :=
  inferInstanceAs (Decidable (_ ∧ _))

/-- Every task and every question that was returned for the client has been destroyed exactly
once, or the client still holds it and it has not been destroyed. -/
structure DestroyedOnce (s : State) : Prop where
  tasks : ∀ no, .gotTask no ∈ s.log →
    s.log.count (.freed (.task no)) = if s.HoldsTask no then 0 else 1
  questions : ∀ no, .gotQuestion no ∈ s.log →
    s.log.count (.freed (.question no)) = if s.HoldsQuestion no then 0 else 1

/-- The step does not move the client on to another task while a question is being sent. -/
def SendsBefore (s : State) : LifeStep → Prop
  | .event i => s.Deliverable i.event → i.event.Checks → plotTaskCheckFd i.answers = .right →
      i.answers.Shows → s.currentQuestion = none
  | .destroy _ => True

instance (s : State) (step : LifeStep) : Decidable (s.SendsBefore step) :=
  match step with
  | .event i => inferInstanceAs (Decidable (s.Deliverable i.event → i.event.Checks →
      plotTaskCheckFd i.answers = .right → i.answers.Shows → s.currentQuestion = none))
  | .destroy _ => inferInstanceAs (Decidable True)

end State

/-! ## What is owned -/

/-- The tasks and questions with these numbers were returned and have not been destroyed, all
others that were returned have been destroyed once. No question has been asked about a task after
number `asked`. -/
structure Ledger (tasks questions : List ℕ) (asked : ℕ) (s : State) : Prop where
  task : ∀ no, s.log.count (.gotTask no) = s.log.count (.freed (.task no)) + tasks.count no
  question : ∀ no,
    s.log.count (.gotQuestion no) = s.log.count (.freed (.question no)) + questions.count no
  taskOnce : ∀ no, s.log.count (.gotTask no) ≤ if no ≤ s.taken then 1 else 0
  questionOnce : ∀ no, s.log.count (.gotQuestion no) ≤ if no ≤ asked then 1 else 0

/-- The operation neither returns nor destroys a task or a question. -/
def Op.Idle : Op → Prop
  | plotGetTask | plotTaskGetQuestion _ | free (.task _) | free (.question _) => False
  | _ => True

variable {ans : Answers} {o : Op} {s : State} {tasks questions : List ℕ} {asked : ℕ}

/-- The action is about no task and no question. -/
def Action.Unowned : Action → Prop
  | gotTask _ | gotQuestion _ | freed (.task _) | freed (.question _) => False
  | _ => True

/-- An idle operation logs at most an action about neither. -/
theorem exec_idle (ans : Answers) (s : State) (ho : o.Idle) :
    (exec ans o s).2.taken = s.taken ∧
      ((exec ans o s).2.log = s.log ∨
        ∃ a : Action, a.Unowned ∧ (exec ans o s).2.log = a :: s.log) := by
  cases o with
  | plotGetTask | plotTaskGetQuestion pt => exact ho.elim
  | register ev =>
    simp only [exec]
    split
    · exact ⟨rfl, .inr ⟨_, by trivial, rfl⟩⟩
    · exact ⟨rfl, .inl rfl⟩
  | epollMod ev =>
    simp only [exec]
    split <;> exact ⟨rfl, .inl rfl⟩
  | free x =>
    refine ⟨rfl, .inr ⟨.freed x, ?_, rfl⟩⟩
    cases x with
    | task no | question no => exact ho.elim
    | _ => trivial
  | deregister | closeSocket | plotTaskCheckFd pt | readFd len | armTimer msec
  | timerDestroy id | abort => exact ⟨rfl, .inr ⟨_, by trivial, rfl⟩⟩
  | _ => exact ⟨rfl, .inl rfl⟩

namespace Ledger

theorem of_log {s' : State} (h : Ledger tasks questions asked s) (htaken : s'.taken = s.taken)
    (hlog : s'.log = s.log ∨ ∃ a : Action, a.Unowned ∧ s'.log = a :: s.log) :
    Ledger tasks questions asked s' := by
  rcases hlog with hlog | ⟨a, ha, hlog⟩
  · exact ⟨hlog ▸ h.task, hlog ▸ h.question, by rw [hlog, htaken]; exact h.taskOnce,
      hlog ▸ h.questionOnce⟩
  · -- none of the counts sees the new action
    have hcount (b : Action) (hb : ¬ b.Unowned) : s'.log.count b = s.log.count b := by
      rw [hlog, List.count_cons_of_ne]
      rintro rfl
      exact hb ha
    refine ⟨fun no => ?_, fun no => ?_, fun no => ?_, fun no => ?_⟩
    · rw [hcount _ id, hcount _ id]
      exact h.task no
    · rw [hcount _ id, hcount _ id]
      exact h.question no
    · rw [hcount _ id, htaken]
      exact h.taskOnce no
    · rw [hcount _ id]
      exact h.questionOnce no

/-- An idle operation changes nothing. -/
theorem exec (h : Ledger tasks questions asked s) (ho : o.Idle) :
    Ledger tasks questions asked (exec ans o s).2 :=
  h.of_log (exec_idle ans s ho).1 (exec_idle ans s ho).2

/-- A task is destroyed. -/
theorem free_task {no : ℕ} (h : Ledger (no :: tasks) questions asked s) :
    Ledger tasks questions asked (Server.exec ans (.free (.task no)) s).2 where
  task no' := by
    have := h.task no'
    simp only [Server.exec, State.observe, List.count_cons] at this ⊢
    grind
  question no' := by simpa [Server.exec, State.observe] using h.question no'
  taskOnce no' := (List.count_cons_of_ne (by simp)).trans_le (h.taskOnce no')
  questionOnce no' := (List.count_cons_of_ne (by simp)).trans_le (h.questionOnce no')

/-- A question is destroyed. -/
theorem free_question {no : ℕ} (h : Ledger tasks (no :: questions) asked s) :
    Ledger tasks questions asked (Server.exec ans (.free (.question no)) s).2 where
  task no' := by simpa [Server.exec, State.observe] using h.task no'
  question no' := by
    have := h.question no'
    simp only [Server.exec, State.observe, List.count_cons] at this ⊢
    grind
  taskOnce no' := (List.count_cons_of_ne (by simp)).trans_le (h.taskOnce no')
  questionOnce no' := (List.count_cons_of_ne (by simp)).trans_le (h.questionOnce no')

/-- More questions might have been asked. -/
theorem mono {asked' : ℕ} (h : Ledger tasks questions asked s) (hle : asked ≤ asked') :
    Ledger tasks questions asked' s :=
  ⟨h.task, h.question, h.taskOnce, fun no => (h.questionOnce no).trans (by grind)⟩

/-- A task is taken from the plot. -/
theorem take (h : Ledger tasks questions asked s) (timeout : ℕ) :
    Ledger ((s.taken + 1) :: tasks) questions asked (s.take timeout).2 where
  task no := by
    have := h.task no
    simp only [State.take, State.observe, List.count_cons] at this ⊢
    grind
  question no := by simpa [State.take, State.observe] using h.question no
  taskOnce no := by
    have := h.taskOnce no
    simp only [State.take, State.observe, List.count_cons] at this ⊢
    grind
  questionOnce no := (List.count_cons_of_ne (by simp)).trans_le (h.questionOnce no)

/-- A question is asked about a task after the last one asked about. -/
theorem ask {no : ℕ} (h : Ledger tasks questions asked s) (hno : asked < no) :
    Ledger tasks (no :: questions) no (s.observe (.gotQuestion no)) where
  task no' := by simpa [State.observe] using h.task no'
  question no' := by
    have := h.question no'
    simp only [State.observe, List.count_cons] at this ⊢
    grind
  taskOnce no' := (List.count_cons_of_ne (by simp)).trans_le (h.taskOnce no')
  questionOnce no' := by
    have := h.questionOnce no'
    simp only [State.observe, List.count_cons] at this ⊢
    grind

end Ledger

/-! ## The functions -/

/-- What is not destroyed yet is what the fields of the client point to. -/
def State.Balanced (s : State) : Prop :=
  Ledger (s.currentTask.map Task.no).toList (s.currentQuestion.map Question.no).toList s.taken s

/-- The client is there and its fields point to what is not destroyed yet. -/
structure State.Owns (s : State) : Prop where
  registered : s.interest.isSome = true
  balanced : s.Balanced

/-- The client is gone and everything has been destroyed. -/
structure State.Released (s : State) : Prop where
  gone : s.Gone
  ledger : Ledger [] [] s.taken s

/-- The client has no current task, while it is created or moved on. -/
structure State.Changing (question : Option Question) (tasks questions : List ℕ) (asked : ℕ)
    (s : State) : Prop where
  task : s.currentTask = none
  question : s.currentQuestion = question
  asked_le : asked ≤ s.taken
  ledger : Ledger tasks questions asked s

/-- An idle operation that leaves the fields alone. -/
theorem State.Changing.exec {question : Option Question}
    (h : s.Changing question tasks questions asked) (ho : o.Idle)
    (htask : (exec ans o s).2.currentTask = s.currentTask)
    (hquestion : (exec ans o s).2.currentQuestion = s.currentQuestion) :
    (exec ans o s).2.Changing question tasks questions asked :=
  ⟨htask.trans h.task, hquestion.trans h.question,
    h.asked_le.trans_eq (exec_idle ans s ho).1.symm, h.ledger.exec ho⟩

/-- The current task, if there is one, is destroyed. -/
theorem destroyCurrentTask_ledger
    (h : Ledger (s.currentTask.map Task.no).toList questions asked s) :
    destroyCurrentTask.wp (exec ans) (fun _ s' => Ledger [] questions asked s' ∧
      s'.currentQuestion = s.currentQuestion ∧ s'.taken = s.taken) s := by
  unfold destroyCurrentTask
  refine Prog.wp_call (R := fun pt s' => pt = s.currentTask ∧ s' = s) ⟨rfl, rfl⟩
    fun pt s' ⟨hpt, hs'⟩ => ?_
  subst hs'
  cases pt with
  | none => exact ⟨by simpa [← hpt] using h, rfl, rfl⟩
  | some pt =>
    rw [← hpt] at h
    have hfree : Ledger [] questions asked (exec ans (.free (.task pt.no)) s').2 := h.free_task
    exact ⟨hfree, rfl, rfl⟩

theorem destroyCurrentQuestion_ledger
    (h : Ledger tasks (s.currentQuestion.map Question.no).toList asked s) :
    destroyCurrentQuestion.wp (exec ans) (fun _ s' => Ledger tasks [] asked s' ∧
      s'.currentTask = s.currentTask ∧ s'.taken = s.taken) s := by
  unfold destroyCurrentQuestion
  refine Prog.wp_call (R := fun q s' => q = s.currentQuestion ∧ s' = s) ⟨rfl, rfl⟩
    fun q s' ⟨hq, hs'⟩ => ?_
  subst hs'
  cases q with
  | none => exact ⟨by simpa [← hq] using h, rfl, rfl⟩
  | some q =>
    rw [← hq] at h
    have hfree : Ledger tasks [] asked (exec ans (.free (.question q.no)) s').2 := h.free_question
    exact ⟨hfree, rfl, rfl⟩

/-- The end of `client_next_task`: the new task and the new question are stored. -/
theorem showTask_ledger {question : Option Question} {newTask : Task} {q : Question}
    (h : s.Changing question [newTask.no] questions asked) :
    (ClientNextTask.showTask newTask q).wp (exec ans) (fun _ s' =>
      s'.currentTask = some newTask ∧ s'.currentQuestion = some q ∧
        Ledger [newTask.no] questions s'.taken s') s := by
  have hledger := h.ledger.mono h.asked_le
  have hkeep : ∀ o s', Op.Idle o ∧ (∃ owner cells, o = .writeBorrow owner cells ∨
      o = .writeMem cells) → s'.currentTask = some newTask ∧ s'.currentQuestion = some q ∧
        Ledger [newTask.no] questions s'.taken s' →
      (exec ans o s').2.currentTask = some newTask ∧ (exec ans o s').2.currentQuestion = some q ∧
        Ledger [newTask.no] questions (exec ans o s').2.taken (exec ans o s').2 := by
    rintro o s' ⟨ho, owner, cells, rfl | rfl⟩ ⟨htask, hq, hl⟩
    · exact ⟨htask, hq, hl.exec ho⟩
    · exact ⟨htask, hq, hl.exec ho⟩
  unfold ClientNextTask.showTask
  refine Prog.wp_call (R := fun _ s' => s'.currentTask = some newTask ∧
    Ledger [newTask.no] questions s'.taken s') ⟨rfl, hledger.exec trivial⟩
    fun _ s1 ⟨htask1, h1⟩ => ?_
  refine Prog.wp_call (R := fun _ s' => s'.currentTask = some newTask ∧
    s'.currentQuestion = some q ∧ Ledger [newTask.no] questions s'.taken s')
    ⟨htask1, rfl, h1.exec trivial⟩ fun _ s2 h2 => ?_
  refine Prog.wp_call (R := fun _ s' => s' = s2) rfl ?_
  rintro text _ rfl
  -- writing the text changes the stream only
  have hwrites : (clientSendTaskText newTask.no text (plotTaskGetTimeoutMsec newTask)).Every
      fun o => Op.Idle o ∧ ∃ owner cells, o = .writeBorrow owner cells ∨ o = .writeMem cells := by
    unfold clientSendTaskText
    split
    · exact ⟨⟨trivial, _, _, .inl rfl⟩, fun _ => ⟨⟨trivial, none, _, .inr rfl⟩, fun _ => trivial⟩⟩
    · exact ⟨⟨trivial, _, _, .inl rfl⟩, fun _ => ⟨⟨trivial, _, _, .inl rfl⟩, fun _ => trivial⟩⟩
  exact Prog.wp_seq (hwrites.wp hkeep h2) fun _ _ h3 => h3

/-- `client_next_task`: the question that was there before stays on the ledger. -/
theorem clientNextTask_ledger
    (h : Ledger (s.currentTask.map Task.no).toList questions s.taken s) :
    clientNextTask.wp (exec ans) (fun ok s' =>
      if ok then ∃ pt q, s'.currentTask = some pt ∧ s'.currentQuestion = some q ∧
        Ledger [pt.no] (q.no :: questions) s'.taken s'
      else s'.currentTask = none ∧ s'.currentQuestion = s.currentQuestion ∧
        Ledger [] questions s'.taken s') s := by
  unfold clientNextTask
  refine Prog.wp_call (R := fun _ s' => Ledger (s'.currentTask.map Task.no).toList questions
    s'.taken s' ∧ s'.currentQuestion = s.currentQuestion) ⟨h.exec trivial, rfl⟩
    fun _ s1 h1 => ?_
  obtain ⟨h1, hq1⟩ := h1
  refine Prog.wp_seq (destroyCurrentTask_ledger h1) fun _ s2 h2 => ?_
  obtain ⟨h2, hq2, htaken2⟩ := h2
  refine Prog.wp_call (R := fun _ s' => s'.Changing s.currentQuestion [] questions s'.taken)
    ⟨rfl, hq2.trans hq1, Nat.le_refl _, htaken2 ▸ h2.exec trivial⟩ fun _ s3 h3 => ?_
  -- from here on a failure has to give back what was taken
  refine Prog.wp_call (R := fun pt s' =>
    pt.elim (s'.Changing s.currentQuestion [] questions s'.taken) fun pt =>
      s'.Changing s.currentQuestion [pt.no] questions s3.taken ∧ s3.taken < pt.no ∧
        pt.no ≤ s'.taken) ?_ fun pt s4 h4 => ?_
  · simp only [exec]
    cases ans.task with
    | none => exact h3
    | some timeout =>
      exact ⟨⟨h3.task, h3.question, Nat.le_succ _, h3.ledger.take timeout⟩, Nat.lt_succ_self _,
        Nat.le_refl _⟩
  have hfail {s' : State} {qs : List ℕ} {no : ℕ} {n : ℕ}
      (hs' : s'.Changing s.currentQuestion [no] qs n) :
      (exec ans (.free (.task no)) s').2.Changing s.currentQuestion [] qs n :=
    ⟨hs'.task, hs'.question, hs'.asked_le, hs'.ledger.free_task⟩
  cases pt with
  | none => exact ⟨h4.task, h4.question, h4.ledger⟩
  | some pt =>
    obtain ⟨h4, hlt, hle⟩ := h4
    refine Prog.wp_call (R := fun q s' =>
      q.elim (s'.Changing s.currentQuestion [pt.no] questions s3.taken) fun q =>
        s'.Changing s.currentQuestion [pt.no] (q.no :: questions) pt.no) ?_ fun q s5 h5 => ?_
    · simp only [exec]
      cases ans.question with
      | none => exact h4
      | some text => exact ⟨h4.task, h4.question, hle, h4.ledger.ask hlt⟩
    cases q with
    | none =>
      have hfreed := hfail h5
      exact ⟨hfreed.task, hfreed.question, hfreed.ledger.mono hfreed.asked_le⟩
    | some q =>
      refine Prog.wp_call (R := fun _ s' => s'.Changing s.currentQuestion [pt.no]
        (q.no :: questions) pt.no) ?_ fun ok s6 h6 => ?_
      · refine h5.exec trivial ?_ ?_ <;> simp only [exec] <;> split <;> rfl
      cases ok with
      | true =>
        refine Prog.wp_mono (Prog.wp_and (showTask_result pt q) (showTask_ledger h6)) ?_
        rintro _ s7 ⟨rfl, htask, hq, hledger⟩
        exact ⟨pt, q, htask, hq, hledger⟩
      | false =>
        have hquestion : (exec ans (.free (.question q.no)) s6).2.Changing s.currentQuestion
            [pt.no] questions pt.no := ⟨h6.task, h6.question, h6.asked_le, h6.ledger.free_question⟩
        have hfreed := hfail hquestion
        exact ⟨hfreed.task, hfreed.question, hfreed.ledger.mono hfreed.asked_le⟩

/-- The operation neither returns nor destroys a task or a question, nor does it store one. -/
def Op.Inert : Op → Prop
  | plotGetTask | plotTaskGetQuestion _ | free (.task _) | free (.question _) | initClient
  | setCurrentTask _ | setCurrentQuestion _ => False
  | _ => True

theorem Op.Inert.idle (h : o.Inert) : o.Idle := by
  cases o with
  | plotGetTask | plotTaskGetQuestion pt => exact h
  | free x =>
    cases x with
    | task no | question no => exact h
    | _ => trivial
  | _ => trivial

theorem Op.Arming.inert (h : o.Arming) : o.Inert := by
  cases o with
  | free x =>
    cases x with
    | task no | question no => exact h
    | _ => trivial
  | plotGetTask | plotTaskGetQuestion pt | initClient | setCurrentTask pt
  | setCurrentQuestion q => exact h
  | _ => trivial

/-- An inert operation keeps the balance. -/
theorem State.Balanced.exec (h : s.Balanced) (ho : o.Inert) : (exec ans o s).2.Balanced := by
  have hfields : (Server.exec ans o s).2.currentTask = s.currentTask ∧
      (Server.exec ans o s).2.currentQuestion = s.currentQuestion := by
    cases o with
    | plotGetTask | plotTaskGetQuestion pt | initClient | setCurrentTask pt
    | setCurrentQuestion q => exact ho.elim
    | register ev | epollMod ev => simp only [Server.exec]; split <;> exact ⟨rfl, rfl⟩
    | _ => exact ⟨rfl, rfl⟩
  rw [Balanced, hfields.1, hfields.2, (exec_idle ans s ho.idle).1]
  exact Ledger.exec h ho.idle

theorem State.Owns.exec (h : s.Owns) (ho : o.Inert) (hsocket : o.KeepsSocket) :
    (exec ans o s).2.Owns :=
  ⟨(exec_keepsSocket ans s hsocket).1.trans h.registered, h.balanced.exec ho⟩

/-- A question is destroyed by the client that holds it. -/
theorem questionDestroy_ledger (h : s.Balanced) :
    (questionDestroy s.currentQuestion).wp (exec ans) (fun _ s' =>
      s'.interest = s.interest ∧ Ledger (s'.currentTask.map Task.no).toList [] s'.taken s') s := by
  cases hq : s.currentQuestion with
  | none =>
    rw [State.Balanced, hq] at h
    have habort : Ledger (s.currentTask.map Task.no).toList [] s.taken (exec ans .abort s).2 :=
      h.exec trivial
    exact ⟨rfl, habort⟩
  | some q =>
    rw [State.Balanced, hq] at h
    have hfree : Ledger (s.currentTask.map Task.no).toList [] s.taken
        (exec ans (.free (.question q.no)) s).2 := h.free_question
    exact ⟨rfl, hfree⟩

/-- `client_send_text`: the question is destroyed before the client forgets it. -/
theorem clientSendText_owns (h : s.Owns) :
    clientSendText.wp (exec ans) (fun _ => State.Owns) s := by
  unfold clientSendText
  refine Prog.wp_call (R := fun _ => State.Owns) h fun q s1 h1 => ?_
  cases q with
  | none => exact h1
  | some q =>
    refine Prog.wp_call (R := fun _ => State.Owns) (h1.exec trivial trivial) fun _ s2 h2 => ?_
    refine Prog.wp_call (R := fun _ => State.Owns) (h2.exec trivial trivial) fun _ s3 h3 => ?_
    refine Prog.wp_call (R := fun _ => State.Owns) h3 fun left s4 h4 => ?_
    split
    · refine Prog.wp_call (R := fun q s' => q = s'.currentQuestion ∧ s'.Owns) ⟨rfl, h4⟩ ?_
      rintro _ s5 ⟨rfl, h5⟩
      refine Prog.wp_seq (questionDestroy_ledger h5.balanced) fun _ s6 ⟨hin6, h6⟩ => ?_
      have hin : s6.interest.isSome = true := by rw [hin6, h5.registered]
      -- the client forgets the question that has just been destroyed
      refine Prog.wp_call (R := fun _ => State.Owns) ⟨hin, h6.exec trivial⟩ fun _ s7 h7 => ?_
      refine Prog.wp_call (R := fun _ => State.Owns) (h7.exec trivial trivial) fun ok s8 h8 => ?_
      have hsetup : ∀ o s, Op.Arming o → State.Owns s → (exec ans o s).2.Owns :=
        fun _ _ ho hs => hs.exec ho.inert ho.sending.keepsSocket
      cases ok with
      | true => exact Prog.wp_seq (startTimer_every.wp hsetup h8) fun _ _ h9 => h9
      | false => exact h8
    · exact h4

/-- The loop over the timers. -/
theorem destroyTimers_ledger (timers : List Timer) (h : Ledger tasks questions s.taken s) :
    (destroyTimers timers).wp (exec ans) (fun _ s' => Ledger tasks questions s'.taken s') s := by
  induction timers generalizing s with
  | nil => exact h
  | cons timer timers ih => exact ih (h.exec (o := .timerDestroy timer.id) trivial)

/-- `client_disconnect` destroys what the client owns. -/
theorem clientDisconnect_released (h : s.Owns) :
    clientDisconnect.wp (exec ans) (fun _ => State.Released) s := by
  have hledger : clientDisconnect.wp (exec ans) (fun _ s' => Ledger [] [] s'.taken s') s := by
    unfold clientDisconnect ClientDisconnect.release
    -- five operations before the question and the task
    refine Prog.wp_call (R := fun _ => State.Balanced) (h.balanced.exec trivial) fun _ s1 h1 => ?_
    refine Prog.wp_call (R := fun _ => State.Balanced) (h1.exec trivial) fun _ s2 h2 => ?_
    refine Prog.wp_call (R := fun _ => State.Balanced) (h2.exec trivial) fun _ s3 h3 => ?_
    refine Prog.wp_call (R := fun _ => State.Balanced) (h3.exec trivial) fun _ s4 h4 => ?_
    refine Prog.wp_call (R := fun _ => State.Balanced) (h4.exec trivial) fun _ s5 h5 => ?_
    refine Prog.wp_seq (destroyCurrentQuestion_ledger h5) fun _ s6 ⟨h6, htask6, htaken6⟩ => ?_
    rw [← htask6, ← htaken6] at h6
    refine Prog.wp_seq (destroyCurrentTask_ledger h6) fun _ s7 ⟨h7, _, htaken7⟩ => ?_
    rw [← htaken7] at h7
    -- the timers and the client itself
    refine Prog.wp_call (R := fun _ s' => Ledger [] [] s'.taken s') h7 fun timers s8 h8 => ?_
    refine Prog.wp_seq (destroyTimers_ledger timers h8) fun _ s9 h9 => ?_
    have hclient : Ledger [] [] s9.taken (exec ans (.free .client) s9).2 := h9.exec trivial
    exact hclient
  exact Prog.wp_mono (Prog.wp_and clientDisconnect_gone hledger)
    fun _ _ ⟨hgone, hreleased⟩ => ⟨hgone, hreleased⟩

/-- `client_next_task`, when there is no question that would be forgotten. -/
theorem clientNextTask_owns (h : s.Owns) (hsent : ans.Shows → s.currentQuestion = none) :
    clientNextTask.wp (exec ans) (fun _ => State.Owns) s := by
  refine Prog.wp_mono (Prog.wp_and (Prog.wp_and (clientNextTask_ledger h.balanced)
    (clientNextTask_result h.registered)) (wp_keepsSocket (clientNextTask_every.mono
      fun _ => Op.Advancing.keepsSocket))) fun ok s' ⟨⟨hledger, hshows⟩, hin, _⟩ => ?_
  refine ⟨hin.trans h.registered, ?_⟩
  cases ok with
  | true =>
    obtain ⟨pt, q, htask, hq, hledger⟩ := hledger
    rw [hsent (hshows.1 rfl)] at hledger
    rw [State.Balanced, htask, hq]
    exact hledger
  | false =>
    obtain ⟨htask, hq, hledger⟩ := hledger
    rw [State.Balanced, htask, hq]
    exact hledger

theorem Op.Building.idle (h : o.Building) : o.Idle := by
  cases o with
  | plotGetTask | plotTaskGetQuestion pt => exact h
  | free x =>
    cases x with
    | task no | question no => exact h
    | _ => trivial
  | _ => trivial

/-- `client_create` stores neither a task nor a question. -/
theorem exec_building (ans : Answers) (ho : o.Building) (h : s.Changing none [] [] 0) :
    (exec ans o s).2.Changing none [] [] 0 := by
  cases o with
  | register ev =>
    refine h.exec trivial ?_ ?_ <;> simp only [exec] <;> split <;> rfl
  | initClient => exact h.exec trivial h.task.symm h.question.symm
  | malloc x | construct | streamCreate | free x => exact h.exec ho.idle rfl rfl
  | _ => exact ho.elim

/-- `client_create`: a new client owns nothing. -/
theorem clientCreate_owns :
    clientCreate.wp (exec ans) (fun ok s' =>
      if ok then s'.Owns ∧ s'.currentQuestion = none else s'.Released) .start := by
  have hstart : State.Changing none [] [] 0 .start :=
    ⟨rfl, rfl, Nat.le_refl _, fun _ => rfl, fun _ => rfl, fun _ => Nat.zero_le _,
      fun _ => Nat.zero_le _⟩
  refine Prog.wp_mono (Prog.wp_and (clientCreate_inRing ⟨⟨rfl, rfl⟩, rfl⟩)
    (clientCreate_building.wp (fun _ _ ho hs => exec_building ans ho hs) hstart))
    fun ok s' ⟨hring, h⟩ => ?_
  have hledger := h.ledger.mono h.asked_le
  cases ok with
  | true =>
    refine ⟨⟨hring.registered, ?_⟩, h.question⟩
    rw [State.Balanced, h.task, h.question]
    exact hledger
  | false => exact ⟨hring.gone, hledger⟩

/-- `server_worker_add_client`: what was got before a failure is given back. -/
theorem serverWorkerAddClient_owns :
    serverWorkerAddClient.wp (exec ans) (fun ok s' => if ok then s'.Owns else s'.Released)
      .start := by
  unfold serverWorkerAddClient
  refine Prog.wp_seq clientCreate_owns fun ok s1 h1 => ?_
  cases ok with
  | false => exact h1
  | true =>
    refine Prog.wp_seq (clientNextTask_owns h1.1 fun _ => h1.2) fun ok s2 h2 => ?_
    cases ok with
    | true => exact h2
    | false => exact Prog.wp_seq (clientDisconnect_released h2) fun _ _ h3 => h3

/-- The acceptor owns no task and no question itself. -/
theorem serverMainThreadLoop_owns :
    serverMainThreadLoop.wp (exec ans) (fun _ s' => s'.Owns ∨ s'.Released) .start := by
  unfold serverMainThreadLoop
  refine Prog.wp_seq serverWorkerAddClient_owns fun ok s1 h1 => ?_
  cases ok with
  | true => exact .inl h1
  | false =>
    have hledger : Ledger [] [] (exec ans .closeSocket s1).2.taken (exec ans .closeSocket s1).2 :=
      h1.ledger.exec trivial
    exact .inr ⟨⟨h1.gone.interest, h1.gone.timers⟩, hledger⟩

/-! ## Whole lives -/

/-- What a client owns is what it holds. -/
theorem State.Owns.destroyedOnce (h : s.Owns) : s.DestroyedOnce where
  tasks no hgot := by
    have hcount := h.balanced.task no
    have honce := h.balanced.taskOnce no
    have hpos := List.count_pos_iff.2 hgot
    simp only [State.HoldsTask, h.registered, true_and]
    cases htask : s.currentTask with
    | none => grind
    | some pt => simp [htask, List.count_cons] at hcount ⊢; grind
  questions no hgot := by
    have hcount := h.balanced.question no
    have honce := h.balanced.questionOnce no
    have hpos := List.count_pos_iff.2 hgot
    simp only [State.HoldsQuestion, h.registered, true_and]
    cases hq : s.currentQuestion with
    | none => grind
    | some q => simp [hq, List.count_cons] at hcount ⊢; grind

/-- A client that is gone holds nothing. -/
theorem State.Released.destroyedOnce (h : s.Released) : s.DestroyedOnce where
  tasks no hgot := by
    have hcount := h.ledger.task no
    have honce := h.ledger.taskOnce no
    have hpos := List.count_pos_iff.2 hgot
    rw [if_neg fun hholds => by simp [State.HoldsTask, h.gone.interest] at hholds]
    grind
  questions no hgot := by
    have hcount := h.ledger.question no
    have honce := h.ledger.questionOnce no
    have hpos := List.count_pos_iff.2 hgot
    rw [if_neg fun hholds => by simp [State.HoldsQuestion, h.gone.interest] at hholds]
    grind

/-- The steps of the handler, when the client is not moved on while it is sent a question. -/
theorem owns_outline (e : Event) (ans : Answers) :
    Outline e ans (fun _ => True)
      (fun s => s.Owns ∧ (e.Checks → plotTaskCheckFd ans = .right → ans.Shows →
        s.currentQuestion = none))
      (fun s => s.Owns ∧ (ans.Shows → s.currentQuestion = none))
      State.Owns State.Owns State.Released where
  startMoment _ _ := trivial
  waitsMoment _ _ := trivial
  timer _ _ h := ⟨h.1.exec trivial trivial, h.2⟩
  abort _ h := h.1.exec trivial trivial
  right _ _ he h _ hright := ⟨h.1.exec trivial trivial, h.2 he hright⟩
  more _ _ _ h _ _ := h.1.exec trivial trivial
  refused _ _ _ h _ _ := h.1.exec trivial trivial
  skip _ h := h.1
  next _ h := Prog.wpAlong_true.2 <| Prog.wp_mono (clientNextTask_owns h.1 h.2)
    fun ok _ h' => by cases ok <;> exact h'
  send _ h := Prog.wpAlong_true.2 <| Prog.wp_mono (clientSendText_owns h)
    fun ok _ h' => by cases ok <;> exact h'
  hangUp _ h := h
  disconnect _ h := Prog.wpAlong_true.2 (clientDisconnect_released h)

/-- A step in the life of a client. -/
theorem live_owns (h : s.Owns ∨ s.Released) (step : LifeStep) (hsends : s.SendsBefore step) :
    (s.live step).Owns ∨ (s.live step).Released := by
  rcases h with howns | hreleased
  · cases step with
    | event i =>
      by_cases hdeliver : s.Deliverable i.event
      · exact (owns_outline i.event i.answers).serve ⟨howns, hsends hdeliver⟩
      · have hserve : s.live (.event i) = s := if_neg hdeliver
        rw [hserve]
        exact .inl howns
    | destroy answers =>
      have hlive : (serverWorkerDestroy.run (exec answers) s).2.Released :=
        clientDisconnect_released howns
      exact .inr (by simpa [State.live, howns.registered] using hlive)
  · rw [hreleased.gone.live step]
    exact .inr hreleased

/-- From the acceptor to the end of the client, everything that was returned for it is destroyed
once when the client does not hold it any more, as long as no right answer moves the client on
while its question is being sent. -/
theorem destroyedOnce_throughout (ans : Answers) (steps : List LifeStep)
    (hsends : InputMachine.Meets State.live State.SendsBefore (State.accepted ans) steps) :
    InputMachine.Always State.live State.DestroyedOnce (State.accepted ans) steps := by
  have haccepted : (State.accepted ans).Owns ∨ (State.accepted ans).Released :=
    serverMainThreadLoop_owns
  have hstep : ∀ (s : State) (step : LifeStep), s.Owns ∨ s.Released → s.SendsBefore step →
      (s.live step).Owns ∨ (s.live step).Released := fun _ step h => live_owns h step
  exact (InputMachine.always_of_invariant hstep haccepted hsends).mono State.live
    fun _ h => h.elim State.Owns.destroyedOnce State.Released.destroyedOnce

/-- A client that is sent its question, answers it, and is there when the worker is destroyed. -/
theorem destroyedOnce_after_sending :
    InputMachine.Meets State.live State.SendsBefore (State.accepted generous)
        [.event sendsAll, .event answersRight, .destroy generous] ∧
      InputMachine.Always State.live State.DestroyedOnce (State.accepted generous)
        [.event sendsAll, .event answersRight, .destroy generous] := by
  have hsends : InputMachine.Meets State.live State.SendsBefore (State.accepted generous)
      [.event sendsAll, .event answersRight, .destroy generous] := by
    refine ⟨?_, ?_, ?_, trivial⟩ <;> decide +kernel
  exact ⟨hsends, destroyedOnce_throughout generous _ hsends⟩

/-- A client that gives the right answer before it has been sent the question: the question is
never destroyed, not even with the client. -/
theorem not_destroyedOnce_early_answer :
    ¬ InputMachine.Always State.live State.DestroyedOnce (State.accepted generous)
      [.event answersRight, .destroy generous] := by
  rintro ⟨-, -, hdestroyed⟩
  have honce := hdestroyed.questions 1 (by decide +kernel)
  revert honce
  decide +kernel

end Qkmetisc.Server
