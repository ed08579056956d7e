import Qkmetisc.Server.Clients

/-!
# The threads between their locked sections

What a thread does to the client it works on from one locked section to the next, when the other
threads do nothing to the client. Whatever the environment answers, no assertion fails, and the
thread leaves a client in the ring only with the current task it needs, and a client that is not
in the ring, in the end, without timers.

## Main definitions

* `clientTerms`: what a thread may do to the client, and what it leaves at a pause.
* `State.AtRest`: what a thread leaves when it is done with a client.

## Main results

* `clientNextTask_upheld`, `clientSendText_upheld`, `clientDisconnect_upheld`.
* `serverMainThreadLoop_upheld`: the acceptor with a new client.
* `workerHandler_upheld`: the worker with an event of a settled client.
-/

namespace Qkmetisc.Server

variable {ans : Answers} {adds : Bool} {s : State}

/-! ## Terms -/

/-- The timers in the ring have numbers of their own, and the next number is not among them. -/
structure State.Numbered (s : State) : Prop where
  nodup : (s.timers.map Timer.id).Nodup
  lt : ∀ timer ∈ s.timers, timer.id < s.timersMade

/-- What a thread leaves at a pause. -/
structure State.Paused (s : State) : Prop where
  numbered : s.Numbered
  current : s.interest.isSome → s.HasTask

/-- What a thread leaves when it is done. -/
structure State.AtRest (s : State) : Prop extends s.Paused where
  timers : s.interest = none → s.timers = []

/-- Nothing happens to the client. Timers of other clients may be armed. -/
structure State.Waited (s s' : State) : Prop where
  timersMade : s.timersMade ≤ s'.timersMade
  same : s' = { s with timersMade := s'.timersMade }

/-- What a thread may do to the client it works on. No assertion fails, only the acceptor adds a
client, only a client in the ring is taken out of it, and only armed timers are destroyed. -/
def Op.Permitted (adds : Bool) : Op → State → Prop
  | abort, _ => False
  | register _, s => adds = true ∧ s.interest = none
  | deregister, s => s.interest.isSome
  | timerDestroy id, s => ∃ timer ∈ s.timers, timer.id = id
  | _, _ => True

/-- The terms of a thread that works on a client. -/
def clientTerms (adds : Bool) : Prog.Terms Op State where
  locked := Op.locked
  Permitted := Op.Permitted adds
  Pause := State.Paused
  Rely := State.Waited

/-- The program keeps to the terms and ends with a result and a client in `Q`. -/
abbrev Upholds {α : Type} (ans : Answers) (adds : Bool) (p : Program α) (Q : α → State → Prop)
    (s : State) : Prop := p.Upheld (exec ans) (clientTerms adds) Q s

/-- A client without timers. -/
theorem State.numbered_nil (h : s.timers = []) : s.Numbered := by
  constructor
  · simp [h]
  · simp [h]

/-- The numbers stay as they are while the ring does, and while others arm timers. -/
theorem State.Numbered.congr {s' : State} (h : s.Numbered) (htimers : s'.timers = s.timers)
    (hmade : s.timersMade ≤ s'.timersMade) : s'.Numbered where
  nodup := htimers ▸ h.nodup
  lt timer hmem := (h.lt timer (htimers ▸ hmem)).trans_le hmade

theorem State.Waited.refl (s : State) : s.Waited s := ⟨le_refl _, rfl⟩

theorem State.Waited.trans {s' s'' : State} (h : s.Waited s') (h' : s'.Waited s'') :
    s.Waited s'' where
  timersMade := h.timersMade.trans h'.timersMade
  same := by rw [h'.same, h.same]

theorem State.Waited.timers {s' : State} (h : s.Waited s') : s'.timers = s.timers := by
  rw [h.same]

theorem State.Waited.interest {s' : State} (h : s.Waited s') : s'.interest = s.interest := by
  rw [h.same]

theorem State.Waited.currentTask {s' : State} (h : s.Waited s') :
    s'.currentTask = s.currentTask := by
  rw [h.same]

theorem State.Waited.currentQuestion {s' : State} (h : s.Waited s') :
    s'.currentQuestion = s.currentQuestion := by
  rw [h.same]

theorem State.Waited.numbered {s' : State} (h : s.Waited s') (hs : s.Numbered) : s'.Numbered :=
  hs.congr h.timers h.timersMade

/-- Waiting leaves a client with the task it needs. -/
theorem State.HasTask.waited {s' : State} (hs : s.HasTask) (h : s.Waited s') : s'.HasTask := by
  rw [State.HasTask, h.timers, h.currentTask, h.currentQuestion]
  exact hs

theorem State.Paused.waited {s' : State} (hs : s.Paused) (h : s.Waited s') : s'.Paused where
  numbered := h.numbered hs.numbered
  current hring := (hs.current (h.interest ▸ hring)).waited h

/-- Waiting leaves a settled client settled. -/
theorem State.AtRest.waited {s' : State} (hs : s.AtRest) (h : s.Waited s') : s'.AtRest where
  toPaused := hs.toPaused.waited h
  timers := by
    intro hnone
    rw [h.timers]
    exact hs.timers (h.interest ▸ hnone)

/-! ## The operations -/

/-- A new timer has a number of its own, and destroying one leaves the others theirs. -/
theorem exec_numbered (ans : Answers) (o : Op) (h : s.Numbered) : (exec ans o s).2.Numbered := by
  cases o with
  | armTimer msec =>
    constructor
    · -- the numbers before are smaller than the new one
      have hnew : s.timersMade ∉ s.timers.map Timer.id := by
        intro hmem
        obtain ⟨timer, htimer, hid⟩ := List.mem_map.1 hmem
        exact absurd hid (h.lt timer htimer).ne
      simpa [exec, State.arm, State.observe, List.nodup_append, h.nodup] using hnew
    · intro timer hmem
      rcases List.mem_append.1 hmem with hold | hnew
      · exact (h.lt timer hold).trans (Nat.lt_succ_self _)
      · rw [List.mem_singleton.1 hnew]
        exact Nat.lt_succ_self _
  | timerDestroy id =>
    -- the others stay in their order
    constructor
    · exact h.nodup.sublist (List.filter_sublist.map _)
    · exact fun timer hmem => h.lt timer (List.mem_filter.1 hmem).1
  | initClient => exact State.numbered_nil rfl
  | plotGetTask | plotTaskGetQuestion pt | register ev | epollMod ev =>
    simp only [exec]
    split <;> exact h.congr rfl (le_refl _)
  | _ => exact h.congr rfl (le_refl _)

/-- Operations that leave the socket alone keep a client in the ring, or out of it. -/
theorem exec_interest (ans : Answers) (o : Op) (h : o.KeepsSocket) (s : State) :
    (exec ans o s).2.interest.isSome = s.interest.isSome :=
  (exec_keepsSocket ans s h).1

theorem Op.Advancing.unlocked {o : Op} (h : o.Advancing) : o.locked = false := by
  cases o with
  | register ev | deregister => exact h.elim
  | _ => rfl

theorem Op.Advancing.permitted {o : Op} (h : o.Advancing) (adds : Bool) (s : State) :
    o.Permitted adds s := by
  cases o with
  | abort | register ev | deregister | timerDestroy id => exact h.elim
  | _ => trivial

theorem Op.SettingUp.unlocked {o : Op} (h : o.SettingUp) : o.locked = false := by
  cases o with
  | register ev | deregister => exact h.elim
  | _ => rfl

theorem Op.SettingUp.permitted {o : Op} (h : o.SettingUp) (adds : Bool) (s : State) :
    o.Permitted adds s := by
  cases o with
  | abort | register ev | deregister | timerDestroy id => exact h.elim
  | _ => trivial

/-! ## `client_next_task` -/

/-- The text is put into the send stream only. -/
theorem clientSendTaskText_currentTask (no : ℕ) (text : List Char) (timeout : ℕ) :
    (clientSendTaskText no text timeout).wp (exec ans)
      (fun _ s' => s'.currentTask = s.currentTask) s := by
  unfold clientSendTaskText
  split
  · rfl
  · rfl

/-- A call that succeeds leaves a current task. -/
theorem clientNextTask_currentTask :
    clientNextTask.wp (exec ans) (fun ok s' => ok = true → s'.currentTask.isSome) s := by
  have hfail {s' : State} : false = true → s'.currentTask.isSome := by simp
  unfold clientNextTask
  -- the old task is gone before the plot is asked for a new one
  refine Prog.wp_skip fun _ s1 => Prog.wp_skip fun _ s2 => Prog.wp_skip fun _ s3 =>
    Prog.wp_skip fun pt s4 => ?_
  cases pt with
  | none => exact hfail
  | some newTask =>
    refine Prog.wp_skip fun q s5 => ?_
    cases q with
    | none => exact hfail
    | some q =>
      refine Prog.wp_skip fun ok s6 => ?_
      cases ok with
      | false => exact hfail
      | true =>
        unfold ClientNextTask.showTask
        refine Prog.wp_call (R := fun _ s' => s'.currentTask = some newTask) rfl
          fun _ s7 h7 => ?_
        refine Prog.wp_call (R := fun _ s' => s'.currentTask = some newTask) h7
          fun _ s8 h8 => ?_
        refine Prog.wp_call (R := fun _ s' => s'.currentTask = some newTask) h8
          fun text s9 h9 => ?_
        refine Prog.wp_seq (clientSendTaskText_currentTask newTask.no text _) fun _ s10 h10 => ?_
        have htask : s10.currentTask.isSome := by simp [h10, h9]
        exact fun _ => htask

/-- `client_next_task` leaves the ring and the timers alone, and where it succeeds the client has
a current task. -/
theorem clientNextTask_upheld (hnumbered : s.Numbered) :
    Upholds ans adds clientNextTask (fun ok s' => s'.Numbered ∧ s'.timers = s.timers ∧
      s'.interest.isSome = s.interest.isSome ∧ (ok = true → s'.currentTask.isSome)) s := by
  -- what every operation keeps, and what only the whole call leaves, are shown apart
  have hkeep : Upholds ans adds clientNextTask (fun _ s' => s'.Numbered ∧ s'.timers = s.timers ∧
      s'.interest.isSome = s.interest.isSome) s := by
    refine clientNextTask_every.upheld (fun o s1 ho h1 => ?_) ⟨hnumbered, rfl, rfl⟩
    refine ⟨ho.unlocked, ho.permitted adds s1, exec_numbered ans o h1.1, ?_, ?_⟩
    · exact (exec_advancing_timers ans ho).trans h1.2.1
    · exact (exec_interest ans o ho.keepsSocket s1).trans h1.2.2
  have hunlocked : clientNextTask.Every fun o => Op.locked o = false :=
    clientNextTask_every.mono fun o => Op.Advancing.unlocked
  refine (hkeep.and_wp hunlocked clientNextTask_currentTask).mono fun ok s' h' => ?_
  exact ⟨h'.1.1, h'.1.2.1, h'.1.2.2, h'.2⟩

/-! ## `client_send_text` -/

/-- A client that is in the ring and has a current task. -/
structure State.Working (s : State) : Prop where
  numbered : s.Numbered
  ring : s.interest.isSome
  task : s.currentTask.isSome

theorem State.Working.paused (h : s.Working) : s.Paused := ⟨h.numbered, fun _ _ => h.task⟩

theorem State.Working.settled (h : s.Working) : s.AtRest where
  toPaused := h.paused
  timers hnone := by
    have hring := h.ring
    simp [hnone] at hring

/-- Setting up a timer leaves the current task alone. -/
theorem exec_settingUp_working {o : Op} (ho : o.SettingUp) (h : s.Working) :
    (exec ans o s).2.Working := by
  refine ⟨exec_numbered ans o h.numbered, ?_, ?_⟩
  · rw [exec_interest ans o ho.arming.sending.keepsSocket s]
    exact h.ring
  · cases o with
    | malloc x | timerfdCreate | epollAddTimer | armTimer msec | free x => exact h.task
    | _ => exact ho.elim

/-- The assertion on the current task holds. -/
theorem startTimer_upheld (h : s.Working) :
    Upholds ans adds startTimer (fun _ => State.Working) s := by
  unfold startTimer
  refine Prog.upheld_call (R := fun pt s' => pt.isSome ∧ s'.Working) rfl trivial ⟨h.task, h⟩
    fun pt s1 h1 => ?_
  obtain ⟨hpt, h1⟩ := h1
  cases pt with
  -- here the assertion would fail
  | none => simp at hpt
  | some pt =>
    dsimp only
    split
    · have hsetup : Upholds ans adds (clientTimerSetup (plotTaskGetTimeoutMsec pt))
          (fun _ => State.Working) s1 := by
        refine (clientTimerSetup_setting _).upheld (fun o s2 ho h2 => ?_) h1
        exact ⟨ho.unlocked, ho.permitted adds s2, exec_settingUp_working ho h2⟩
      exact hsetup.bind fun _ _ h2 => h2
    · exact h1

/-- An operation of `client_send_text` before the question is destroyed. -/
theorem exec_working {o : Op} (h : s.Working) (ho : o.KeepsSocket)
    (htask : (exec ans o s).2.currentTask = s.currentTask) : (exec ans o s).2.Working where
  numbered := exec_numbered ans o h.numbered
  ring := (exec_interest ans o ho s).trans h.ring
  task := htask ▸ h.task

/-- `client_send_text` neither takes a client out of the ring nor its current task, and the
question that it destroys is there. -/
theorem clientSendText_upheld (hnumbered : s.Numbered) (hring : s.interest.isSome)
    (hcurrent : s.HasTask) :
    Upholds ans adds clientSendText (fun _ s' => s'.Numbered ∧ s'.interest.isSome ∧ s'.HasTask)
      s := by
  have hworking {s' : State} (h : s'.Working) :
      s'.Numbered ∧ s'.interest.isSome ∧ s'.HasTask := ⟨h.numbered, h.ring, fun _ => h.task⟩
  unfold clientSendText
  refine Prog.upheld_call (R := fun q s' => q = s.currentQuestion ∧ s = s') rfl trivial
    ⟨rfl, rfl⟩ ?_
  rintro q _ ⟨hq, rfl⟩
  cases q with
  | none => exact ⟨hnumbered, hring, hcurrent⟩
  | some q =>
    -- a pending question comes with a current task
    have hpending {s' : State} (hs' : s'.Working ∧ s'.currentQuestion.isSome)
        (o : Op) (ho : o.KeepsSocket) (htask : (exec ans o s').2.currentTask = s'.currentTask)
        (hquestion : (exec ans o s').2.currentQuestion = s'.currentQuestion) :
        (exec ans o s').2.Working ∧ (exec ans o s').2.currentQuestion.isSome :=
      ⟨exec_working hs'.1 ho htask, hquestion ▸ hs'.2⟩
    have h0 : s.Working ∧ s.currentQuestion.isSome := by
      have hsome : s.currentQuestion.isSome := by simp [← hq]
      exact ⟨⟨hnumbered, hring, hcurrent (.inl hsome)⟩, hsome⟩
    refine Prog.upheld_call (R := fun _ s' => s'.Working ∧ s'.currentQuestion.isSome) rfl trivial
      h0 fun len s1 h1 => ?_
    refine Prog.upheld_call (R := fun _ s' => s'.Working ∧ s'.currentQuestion.isSome) rfl trivial
      (hpending h1 (.readFd len) trivial rfl rfl) fun _ s2 h2 => ?_
    refine Prog.upheld_call (R := fun _ s' => s'.Working ∧ s'.currentQuestion.isSome) rfl trivial
      h2 fun left s3 h3 => ?_
    split
    · -- the whole text has been sent
      refine Prog.upheld_call (R := fun q s' => q.isSome ∧ s'.Working) rfl trivial
        ⟨h3.2, h3.1⟩ fun q s4 h4 => ?_
      obtain ⟨hq4, h4⟩ := h4
      cases q with
      | none => simp at hq4
      | some q =>
        -- the question is destroyed, and the socket is not polled for output any more
        refine Prog.upheld_call (R := fun _ => State.Working) rfl trivial
          (exec_working (o := .free (.question q.no)) h4 trivial rfl) fun _ s5 h5 => ?_
        refine Prog.upheld_call (R := fun _ => State.Working) rfl trivial
          (exec_working (o := .setCurrentQuestion none) h5 trivial rfl) fun _ s6 h6 => ?_
        refine Prog.upheld_call (R := fun _ => State.Working) rfl trivial
          (exec_working (o := .epollMod _) h6 trivial ?_) fun ok s7 h7 => ?_
        · simp only [exec]
          split <;> rfl
        cases ok with
        | false => exact hworking h7
        | true => exact (startTimer_upheld h7).bind fun _ _ h8 => hworking h8
    · exact hworking h3.1

/-! ## `client_disconnect` -/

/-- A client that has been taken out of the ring, and its timers. -/
structure State.Leaving (s : State) (timers : List Timer) : Prop where
  numbered : s.Numbered
  ring : s.interest = none
  timers : s.timers = timers

theorem State.Leaving.settled (h : s.Leaving []) : s.AtRest where
  numbered := h.numbered
  current hring := by simp [h.ring] at hring
  timers _ := h.timers

/-- Each timer the loop destroys is still armed. -/
theorem destroyTimers_upheld {timers : List Timer} (h : s.Leaving timers) :
    Upholds ans adds (destroyTimers timers) (fun _ s' => s'.Leaving []) s := by
  induction timers generalizing s with
  | nil => exact h
  | cons timer timers ih =>
    have hmem : ∃ t ∈ s.timers, t.id = timer.id := ⟨timer, by simp [h.timers], rfl⟩
    -- the numbers differ, so that the head is the only timer destroyed
    have hrest : (exec ans (.timerDestroy timer.id) s).2.timers = timers := by
      have hnodup := h.numbered.nodup
      rw [h.timers, List.map_cons, List.nodup_cons] at hnodup
      have hne : ∀ t ∈ timers, t.id ≠ timer.id := by
        intro t ht heq
        exact hnodup.1 (heq ▸ List.mem_map_of_mem ht)
      simpa [exec, State.observe, h.timers] using hne
    unfold destroyTimers
    refine Prog.upheld_call (R := fun _ s' => s'.Leaving timers) rfl hmem
      ⟨exec_numbered ans _ h.numbered, h.ring, hrest⟩ fun _ s1 h1 => ih h1

/-- After its locked section `client_disconnect` destroys all timers of the client. -/
theorem release_upheld {timers : List Timer} (h : s.Leaving timers) :
    Upholds ans adds ClientDisconnect.release (fun _ s' => s'.Leaving []) s := by
  have hkeep {s' : State} (o : Op) (hs' : s'.Leaving timers)
      (hring : (exec ans o s').2.interest = s'.interest)
      (htimers : (exec ans o s').2.timers = s'.timers) : (exec ans o s').2.Leaving timers :=
    ⟨exec_numbered ans o hs'.numbered, hring.trans hs'.ring, htimers.trans hs'.timers⟩
  have hfree {s' : State} (x : Obj) (hs' : s'.Leaving timers) :
      (exec ans (.free x) s').2.Leaving timers := hkeep (.free x) hs' rfl rfl
  have hquestion {s' : State} (hs' : s'.Leaving timers) :
      Upholds ans adds destroyCurrentQuestion (fun _ s' => s'.Leaving timers) s' := by
    refine Prog.upheld_call (R := fun _ s' => s'.Leaving timers) rfl trivial hs'
      fun q s1 h1 => ?_
    cases q with
    | none => exact h1
    | some q => exact ⟨trivial, hfree _ h1⟩
  have htask {s' : State} (hs' : s'.Leaving timers) :
      Upholds ans adds destroyCurrentTask (fun _ s' => s'.Leaving timers) s' := by
    refine Prog.upheld_call (R := fun _ s' => s'.Leaving timers) rfl trivial hs'
      fun pt s1 h1 => ?_
    cases pt with
    | none => exact h1
    | some pt => exact ⟨trivial, hfree _ h1⟩
  -- nothing before the loop touches the ring or the timers
  unfold ClientDisconnect.release
  refine Prog.upheld_call (R := fun _ s' => s'.Leaving timers) rfl trivial
    (hkeep .closeSocket h rfl rfl) fun _ s1 h1 => ?_
  refine Prog.upheld_call (R := fun _ s' => s'.Leaving timers) rfl trivial (hfree .event h1)
    fun _ s2 h2 => ?_
  refine Prog.upheld_call (R := fun _ s' => s'.Leaving timers) rfl trivial (hfree .plot h2)
    fun _ s3 h3 => ?_
  refine Prog.upheld_call (R := fun _ s' => s'.Leaving timers) rfl trivial (hfree .stream h3)
    fun _ s4 h4 => ?_
  refine (hquestion h4).bind fun _ s5 h5 => (htask h5).bind fun _ s6 h6 => ?_
  refine Prog.upheld_call (R := fun ts s' => ts = timers ∧ s'.Leaving timers) rfl trivial
    ⟨h6.timers, h6⟩ ?_
  rintro _ s7 ⟨rfl, h7⟩
  refine (destroyTimers_upheld h7).bind fun _ s8 h8 => ?_
  exact ⟨trivial, exec_numbered ans _ h8.numbered, h8.ring, h8.timers⟩

/-- `client_disconnect` of a client in the ring. -/
theorem clientDisconnect_upheld (hnumbered : s.Numbered) (hring : s.interest.isSome) :
    Upholds ans adds clientDisconnect (fun _ s' => s'.Leaving []) s := by
  have hpause : (exec ans .deregister s).2.Leaving s.timers :=
    ⟨exec_numbered ans _ hnumbered, rfl, rfl⟩
  unfold clientDisconnect
  refine Prog.upheld_locked (R := fun _ s' => s'.Leaving s.timers) rfl hring ⟨hpause.numbered, ?_⟩
    (fun s1 hwait => ?_) fun _ s1 h1 => release_upheld h1
  · intro hring
    simp [hpause.ring] at hring
  · exact ⟨hwait.numbered hpause.numbered, hwait.interest.trans hpause.ring,
      hwait.timers.trans hpause.timers⟩

/-- The client is disconnected where a call has failed. -/
theorem clientDisconnect_settled (hnumbered : s.Numbered) (hring : s.interest.isSome) :
    Upholds ans adds clientDisconnect (fun _ => State.AtRest) s :=
  (clientDisconnect_upheld hnumbered hring).mono fun _ _ => State.Leaving.settled

/-! ## The acceptor -/

/-- A client that is being created: it has neither timers nor a question. -/
structure State.Empty (s : State) : Prop where
  timers : s.timers = []
  question : s.currentQuestion = none

theorem State.Empty.paused (h : s.Empty) : s.Paused where
  numbered := State.numbered_nil h.timers
  current _ hneeds := by simp [h.timers, h.question] at hneeds

theorem State.Empty.waited {s' : State} (hs : s.Empty) (h : s.Waited s') : s'.Empty :=
  ⟨h.timers.trans hs.timers, h.currentQuestion.trans hs.question⟩

/-- `client_create` returns a client in the ring, or no client. -/
theorem clientCreate_upheld (h : s.Empty) (hring : s.interest = none) :
    Upholds ans true clientCreate (fun ok s' => s'.Empty ∧ s'.interest.isSome = ok) s := by
  have hfree {s' : State} (x : Obj) {ok : Bool} (hs' : s'.Empty ∧ s'.interest.isSome = ok) :
      (exec ans (.free x) s').2.Empty ∧ (exec ans (.free x) s').2.interest.isSome = ok :=
    ⟨⟨hs'.1.timers, hs'.1.question⟩, hs'.2⟩
  have h0 : s.Empty ∧ s.interest.isSome = false := ⟨h, by simp [hring]⟩
  -- each allocation that fails gives back the ones before it
  unfold clientCreate
  refine Prog.upheld_call (R := fun _ s' => s'.Empty ∧ s'.interest.isSome = false) rfl trivial h0
    fun ok s1 h1 => ?_
  cases ok with
  | false => exact h1
  | true =>
    refine Prog.upheld_call (R := fun _ s' => s'.Empty ∧ s'.interest.isSome = false) rfl trivial
      h1 fun ok s2 h2 => ?_
    cases ok with
    | false => exact ⟨trivial, hfree .client h2⟩
    | true =>
      refine Prog.upheld_call (R := fun _ s' => s'.Empty ∧ s'.interest.isSome = false) rfl
        trivial ⟨⟨h2.1.timers, h2.1.question⟩, h2.2⟩ fun ok s3 h3 => ?_
      cases ok with
      | false => exact ⟨trivial, trivial, hfree .client (hfree .plot h3)⟩
      | true =>
        refine Prog.upheld_call (R := fun _ s' => s'.Empty ∧ s'.interest.isSome = false) rfl
          trivial ⟨⟨rfl, rfl⟩, h3.2⟩ fun _ s4 h4 => ?_
        refine Prog.upheld_call (R := fun _ s' => s'.Empty ∧ s'.interest.isSome = false) rfl
          trivial h4 fun ok s5 h5 => ?_
        cases ok with
        | false =>
          exact ⟨trivial, trivial, trivial, hfree .client (hfree .plot (hfree .stream h5))⟩
        | true =>
          -- the locked section is the only one that puts the client into the ring
          have hregister (ev : Events) : (exec ans (.register ev) s5).2.Empty ∧
              (exec ans (.register ev) s5).2.interest.isSome = (exec ans (.register ev) s5).1 := by
            simp only [exec]
            split
            · exact ⟨⟨h5.1.timers, h5.1.question⟩, rfl⟩
            · exact h5
          have hout : s5.interest = none := by simpa using h5.2
          refine Prog.upheld_locked (R := fun ok s' => s'.Empty ∧ s'.interest.isSome = ok) rfl
            ⟨rfl, hout⟩ (hregister _).1.paused (fun s6 hwait => ?_) fun ok s6 h6 => ?_
          · refine ⟨(hregister _).1.waited hwait, ?_⟩
            rw [hwait.interest]
            exact (hregister _).2
          cases ok with
          | false =>
            exact ⟨trivial, trivial, trivial, trivial,
              hfree .client (hfree .plot (hfree .stream (hfree .event h6)))⟩
          | true => exact h6

/-- The acceptor leaves a new client settled, whether or not it could be added. -/
theorem serverMainThreadLoop_upheld (h : s.Empty) (hring : s.interest = none) :
    Upholds ans true serverMainThreadLoop (fun _ => State.AtRest) s := by
  have hadd : Upholds ans true serverWorkerAddClient (fun _ => State.AtRest) s := by
    unfold serverWorkerAddClient
    refine (clientCreate_upheld h hring).bind fun ok s1 h1 => ?_
    obtain ⟨hempty, hring1⟩ := h1
    cases ok with
    | false => exact ⟨hempty.paused, fun _ => hempty.timers⟩
    | true =>
      refine (clientNextTask_upheld hempty.paused.numbered).bind fun ok s2 h2 => ?_
      obtain ⟨hnumbered2, -, hring2, htask2⟩ := h2
      have hring2 : s2.interest.isSome := hring2.trans hring1
      cases ok with
      | true => exact State.Working.settled ⟨hnumbered2, hring2, htask2 rfl⟩
      | false => exact (clientDisconnect_settled hnumbered2 hring2).bind fun _ _ h3 => h3
  unfold serverMainThreadLoop
  refine Prog.Upheld.bind hadd fun ok s1 h1 => ?_
  cases ok with
  | true => exact h1
  | false => exact ⟨trivial, ⟨⟨exec_numbered ans _ h1.numbered, h1.current⟩, h1.timers⟩⟩

/-! ## The worker -/

/-- What the handler does after a right answer. -/
theorem clientNextTask_working (hnumbered : s.Numbered) (hring : s.interest.isSome) :
    Upholds ans adds clientNextTask (fun ok s' => if ok then s'.Working
      else s'.Numbered ∧ s'.interest.isSome) s := by
  refine (clientNextTask_upheld hnumbered).mono fun ok s' h' => ?_
  obtain ⟨hnumbered', -, hring', htask'⟩ := h'
  cases ok with
  | true => exact ⟨hnumbered', hring'.trans hring, htask' rfl⟩
  | false => exact ⟨hnumbered', hring'.trans hring⟩

/-- A client in the ring that gets an event. -/
structure State.Serving (s : State) : Prop where
  numbered : s.Numbered
  ring : s.interest.isSome
  current : s.HasTask

theorem State.Working.serving (h : s.Working) : s.Serving := ⟨h.numbered, h.ring, fun _ => h.task⟩

/-- A settled client that can get an event is in the ring. -/
theorem State.AtRest.serving {e : Event} (h : s.AtRest) (he : s.Reportable e) : s.Serving := by
  have hring : s.interest ≠ none := by
    intro hnone
    cases e with
    | timer id =>
      obtain ⟨timer, hmem, -⟩ := he
      simp [h.timers hnone] at hmem
    | client ev =>
      obtain ⟨asked, hmem, -⟩ := he
      simp [hnone] at hmem
  have hring : s.interest.isSome := Option.isSome_iff_ne_none.2 hring
  exact ⟨h.numbered, hring, h.current hring⟩

theorem State.Serving.waited {s' : State} (hs : s.Serving) (h : s.Waited s') : s'.Serving where
  numbered := h.numbered hs.numbered
  ring := h.interest ▸ hs.ring
  current := hs.current.waited h

theorem State.Waited.reportable {s' : State} {e : Event} (h : s.Waited s')
    (he : s.Reportable e) : s'.Reportable e := by
  cases e with
  | timer id =>
    rw [State.Reportable, h.timers]
    exact he
  | client ev =>
    rw [State.Reportable, h.interest]
    exact he

theorem State.Serving.settled (h : s.Serving) : s.AtRest where
  numbered := h.numbered
  current _ := h.current
  timers hnone := by
    have hring := h.ring
    simp [hnone] at hring

/-- The branch for `EPOLLIN`. -/
theorem handleInput_upheld (h : s.Serving) :
    Upholds ans adds WorkerHandler.handleInput
      (fun goesOn s' => if goesOn then s'.Serving else s'.AtRest) s := by
  unfold WorkerHandler.handleInput
  refine Prog.upheld_call (R := fun _ s' => s'.Serving) rfl trivial h fun pt s1 h1 => ?_
  cases pt with
  | none => exact h1
  | some pt =>
    have hchecked : (exec ans (.plotTaskCheckFd pt) s1).2.Serving :=
      ⟨exec_numbered ans _ h1.numbered, h1.ring, h1.current⟩
    refine Prog.upheld_call (R := fun _ s' => s'.Serving) rfl trivial hchecked fun res s2 h2 => ?_
    cases res with
    | wrong => exact (clientDisconnect_settled h2.numbered h2.ring).bind fun _ _ h3 => h3
    | more => exact h2.settled
    | right =>
      refine (clientNextTask_working h2.numbered h2.ring).bind fun ok s3 h3 => ?_
      cases ok with
      | true => exact State.Working.serving h3
      | false => exact (clientDisconnect_settled h3.1 h3.2).bind fun _ _ h4 => h4

/-- The branch for `EPOLLOUT`. -/
theorem handleOutput_upheld (h : s.Serving) :
    Upholds ans adds WorkerHandler.handleOutput
      (fun goesOn s' => if goesOn then s'.Serving else s'.AtRest) s := by
  unfold WorkerHandler.handleOutput
  refine (clientSendText_upheld h.numbered h.ring h.current).bind fun ok s1 h1 => ?_
  cases ok with
  | true => exact State.Serving.mk h1.1 h1.2.1 h1.2.2
  | false => exact (clientDisconnect_settled h1.1 h1.2.1).bind fun _ _ h2 => h2

/-- An expired timer: the client it belongs to is in the ring and has a current task. -/
theorem timerExpired_upheld {id : ℕ} (h : s.Serving) (harmed : ∃ timer ∈ s.timers, timer.id = id) :
    Upholds ans adds (WorkerHandler.timerExpired id) (fun _ => State.AtRest) s := by
  have htask : s.currentTask.isSome := by
    obtain ⟨timer, hmem, -⟩ := harmed
    exact h.current (.inr (List.ne_nil_of_mem hmem))
  have hworking : s.Working := ⟨h.numbered, h.ring, htask⟩
  unfold WorkerHandler.timerExpired
  refine Prog.upheld_call (R := fun _ => State.Working) rfl harmed
    (exec_working (o := .timerDestroy id) hworking trivial rfl) fun _ s1 h1 => ?_
  refine Prog.upheld_call (R := fun pt s' => pt.isSome ∧ s'.Working) rfl trivial ⟨h1.task, h1⟩
    fun pt s2 h2 => ?_
  obtain ⟨hpt, h2⟩ := h2
  cases pt with
  | none => simp at hpt
  | some pt =>
    refine Prog.upheld_call (R := fun _ => State.Working) rfl trivial
      (exec_working (o := .plotTaskCheckFd pt) h2 trivial rfl) fun res s3 h3 => ?_
    split
    · exact clientDisconnect_settled h3.numbered h3.ring
    · refine (clientNextTask_working h3.numbered h3.ring).bind fun ok s4 h4 => ?_
      cases ok with
      | true => exact State.Working.settled h4
      | false => exact clientDisconnect_settled h4.1 h4.2

/-- The worker leaves a client that gets an event settled. -/
theorem workerHandler_upheld {e : Event} (h : s.Serving) (hreportable : s.Reportable e) :
    Upholds ans adds (workerHandler e) (fun _ => State.AtRest) s := by
  cases e with
  | timer id => exact timerExpired_upheld h hreportable
  | client ev =>
    unfold workerHandler
    refine Prog.upheld_call (R := fun _ s' => s'.Serving) rfl trivial h fun _ s1 h1 => ?_
    have hinput : Upholds ans adds (if ev.input then WorkerHandler.handleInput else pure true)
        (fun goesOn s' => if goesOn then s'.Serving else s'.AtRest) s1 := by
      split
      · exact handleInput_upheld h1
      · exact h1
    refine Prog.Upheld.bind hinput fun goesOn s2 h2 => ?_
    cases goesOn with
    | false => exact h2
    | true =>
      have houtput : Upholds ans adds (if ev.output then WorkerHandler.handleOutput else pure true)
          (fun goesOn s' => if goesOn then s'.Serving else s'.AtRest) s2 := by
        split
        · exact handleOutput_upheld h2
        · exact h2
      unfold WorkerHandler.afterInput
      refine Prog.Upheld.bind houtput fun goesOn s3 h3 => ?_
      cases goesOn with
      | false => exact h3
      | true =>
        simp only [↓reduceIte]
        split
        · exact clientDisconnect_settled (State.Serving.numbered h3) (State.Serving.ring h3)
        · exact State.Serving.settled h3

end Qkmetisc.Server
