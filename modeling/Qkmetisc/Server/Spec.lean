import Qkmetisc.Server.Worker

/-!
# What the operations of a client keep

Facts about single operations, and which operations the functions of `server_worker.c` perform.
An invariant that concerns only some part of the state is kept by a whole function because the
operations of the function keep it.

## Main definitions

* `Op.Closing`, `Op.Advancing`, `Op.Sending`: the operations of `client_disconnect`, of
  `client_next_task` and of `client_send_text`.

## Main results

* `exec_valid`: every operation keeps the send stream valid.
* `clientDisconnect_every`, `clientNextTask_every`, `clientSendText_every`.
* `clientDisconnect_gone`, `clientCreate_gone`: a client that is disconnected, or could not be
  created, has neither an epoll entry nor a timer.
-/

namespace Qkmetisc.Server

variable {ans : Answers} {o : Op} {s : State}

/-! ## The log -/

/-- What has been observed stays observed. -/
theorem exec_log (ans : Answers) (o : Op) (s : State) : s.log <:+ (exec ans o s).2.log := by
  cases o with
  | register ev | plotGetTask | plotTaskGetQuestion pt | epollMod ev =>
    simp only [exec]
    split
    all_goals first | exact List.suffix_rfl | exact List.suffix_cons _ _
  | deregister | closeSocket | free x | plotTaskCheckFd pt | readFd len | armTimer msec
  | timerDestroy id | abort => exact List.suffix_cons _ _
  | _ => exact List.suffix_rfl

/-- A run only adds to the log. -/
theorem run_log {α : Type} (ans : Answers) (p : Program α) (s : State) :
    p.wp (exec ans) (fun _ s' => s.log <:+ s'.log) s := by
  induction p generalizing s with
  | ret a => exact List.suffix_rfl
  | call o k ih => exact (exec_log ans o s).trans (ih (exec ans o s).1 (exec ans o s).2)

/-! ## Tasks taken -/

/-- Only `plot_get_task` takes a task from the plot. -/
theorem exec_taken (ans : Answers) (s : State) (ho : o ≠ .plotGetTask) :
    (exec ans o s).2.taken = s.taken := by
  cases o with
  | plotGetTask => exact absurd rfl ho
  | register ev | epollMod ev | plotTaskGetQuestion pt => simp only [exec]; split <;> rfl
  | _ => rfl

/-- The number of tasks taken from the plot does not go down. -/
theorem exec_taken_le (ans : Answers) (o : Op) (s : State) : s.taken ≤ (exec ans o s).2.taken := by
  by_cases ho : o = .plotGetTask
  · subst ho
    simp only [exec]
    split
    · exact Nat.le_refl _
    · exact Nat.le_succ _
  · exact (exec_taken ans s ho).ge

theorem run_taken {α : Type} (ans : Answers) (p : Program α) (s : State) :
    p.wp (exec ans) (fun _ s' => s.taken ≤ s'.taken) s := by
  induction p generalizing s with
  | ret a => exact Nat.le_refl _
  | call o k ih => exact (exec_taken_le ans o s).trans (ih (exec ans o s).1 (exec ans o s).2)

/-! ## The send stream -/

/-- Every operation keeps the send stream valid. -/
theorem exec_valid (ans : Answers) (o : Op) (h : s.sendStream.Valid) :
    (exec ans o s).2.sendStream.Valid := by
  cases o with
  | streamCreate => exact Bstream.valid_create
  | flush => exact Bstream.exec_valid s.sendStream .flush h
  | writeBorrow owner cells => exact Bstream.exec_valid s.sendStream (.writeBorrow cells _) h
  | writeMem cells => exact (Bstream.writeMem_spec h cells ans.block).1
  | readFd len => exact (Bstream.readFd_spec h ans.write len).1
  | plotGetTask | plotTaskGetQuestion pt => simp only [exec]; split <;> exact h
  | register ev | epollMod ev => simp only [exec]; split <;> exact h
  | _ => exact h

/-- A property of bytes that holds of all bytes in the stream and of those being written holds
of all bytes afterwards. -/
theorem forall_content_writeBorrow {P : Cell → Prop} {owner : Option Obj} {cells : List Cell}
    (hvalid : s.sendStream.Valid) (h : ∀ c ∈ s.sendStream.content, P c) (hnew : ∀ c ∈ cells, P c) :
    ∀ c ∈ (exec ans (.writeBorrow owner cells) s).2.sendStream.content, P c := by
  have hspec := Bstream.writeBorrow_spec hvalid.wf hvalid.lt cells (ans.borrow cells)
  simp only [exec, hspec.content, List.mem_append]
  rintro c (hc | hc)
  · exact h c hc
  · exact hnew c (List.mem_of_mem_take hc)

theorem forall_content_writeMem {P : Cell → Prop} {cells : List Cell}
    (hvalid : s.sendStream.Valid) (h : ∀ c ∈ s.sendStream.content, P c) (hnew : ∀ c ∈ cells, P c) :
    ∀ c ∈ (exec ans (.writeMem cells) s).2.sendStream.content, P c := by
  obtain ⟨-, front, hfront, hcontent⟩ := Bstream.writeMem_spec hvalid cells ans.block
  simp only [exec, hcontent, List.mem_append]
  rintro c (hc | hc)
  · exact h c hc
  · exact hnew c (hfront.subset hc)

/-- The bytes sent and the bytes left were in the stream. -/
theorem forall_content_send {P : Cell → Prop} {written : ℕ → Option ℕ} {len : ℕ}
    (hvalid : s.sendStream.Valid) (h : ∀ c ∈ s.sendStream.content, P c) :
    (∀ c ∈ (s.sendStream.readFd written len).2.2, P c) ∧
      ∀ c ∈ (s.sendStream.readFd written len).2.1.content, P c := by
  have hspec := (Bstream.readFd_spec hvalid written len).2
  rw [← hspec] at h
  exact ⟨fun c hc => h c (List.mem_append_left _ hc),
    fun c hc => h c (List.mem_append_right _ hc)⟩

/-! ## Which operations a function performs -/

/-- The operations of `client_disconnect`. -/
def Op.Closing : Op → Prop
  | deregister | closeSocket | free _ | getCurrentQuestion | getCurrentTask | getTimers
  | timerDestroy _ => True
  | _ => False

/-- The operations of `client_disconnect` after the socket has been closed. -/
def Op.Releasing : Op → Prop
  | free _ | getCurrentQuestion | getCurrentTask | getTimers | timerDestroy _ => True
  | _ => False

theorem Op.Releasing.closing (h : o.Releasing) : o.Closing := by
  cases o with
  | free x | getCurrentQuestion | getCurrentTask | getTimers | timerDestroy id => trivial
  | _ => exact h.elim

/-- The operations of `client_next_task`. -/
def Op.Advancing : Op → Prop
  | flush | free (.task _) | free (.question _) | getCurrentTask | setCurrentTask _
  | setCurrentQuestion _ | plotGetTask | plotTaskGetQuestion _ | questionGetText _ | epollMod _
  | writeBorrow _ _ | writeMem _ => True
  | _ => False

/-- The operations of `client_send_text`. -/
def Op.Sending : Op → Prop
  | getCurrentQuestion | setCurrentQuestion _ | getCurrentTask | streamLen | readFd _
  | free (.question _) | free .timer | free .timerEvent | epollMod _ | malloc _ | timerfdCreate
  | epollAddTimer | armTimer _ | abort => True
  | _ => False

/-- The operations that set up a timer. -/
def Op.Arming : Op → Prop
  | getCurrentTask | malloc _ | timerfdCreate | epollAddTimer | armTimer _ | free .timer
  | free .timerEvent | abort => True
  | _ => False

theorem Op.Arming.sending (h : o.Arming) : o.Sending := by
  cases o with
  | free x =>
    cases x with
    | timer | timerEvent => trivial
    | _ => exact h.elim
  | getCurrentTask | malloc x | timerfdCreate | epollAddTimer | armTimer msec | abort => trivial
  | _ => exact h.elim

/-- The operations of `client_timer_setup`. -/
def Op.SettingUp : Op → Prop
  | malloc _ | timerfdCreate | epollAddTimer | armTimer _ | free .timer | free .timerEvent => True
  | _ => False

theorem Op.SettingUp.arming (h : o.SettingUp) : o.Arming := by
  cases o with
  | free x =>
    cases x with
    | timer | timerEvent => trivial
    | _ => exact h.elim
  | malloc x | timerfdCreate | epollAddTimer | armTimer msec => trivial
  | _ => exact h.elim

/-- The operations of `client_create`. -/
def Op.Creating : Op → Prop
  | malloc _ | construct | streamCreate | initClient | register _ | free _ => True
  | _ => False

/-- The same, with the objects that `client_create` frees when it fails. -/
def Op.Building : Op → Prop
  | malloc _ | construct | streamCreate | initClient | register _ | free .client | free .event
  | free .plot | free .stream => True
  | _ => False

theorem Op.Building.creating (h : o.Building) : o.Creating := by
  cases o with
  | malloc x | construct | streamCreate | initClient | register ev | free x => trivial
  | _ => exact h.elim

theorem destroyCurrentQuestion_every : destroyCurrentQuestion.Every Op.Releasing := by
  refine ⟨trivial, fun q => ?_⟩
  cases q with
  | none => trivial
  | some q => exact ⟨trivial, fun _ => trivial⟩

theorem destroyCurrentTask_every {P : Op → Prop} (hget : P .getCurrentTask)
    (hfree : ∀ no, P (.free (.task no))) : destroyCurrentTask.Every P := by
  refine ⟨hget, fun pt => ?_⟩
  cases pt with
  | none => trivial
  | some pt => exact ⟨hfree _, fun _ => trivial⟩

theorem destroyTimers_every (timers : List Timer) :
    (destroyTimers timers).Every Op.Releasing := by
  induction timers with
  | nil => trivial
  | cons timer timers ih => exact ⟨trivial, fun _ => ih⟩

/-- What is left of `client_disconnect` once the socket is closed. -/
theorem release_rest_every :
    (do
      perform (.free .event)
      perform (.free .plot)
      perform (.free .stream)
      destroyCurrentQuestion
      destroyCurrentTask
      let timers ← perform .getTimers
      destroyTimers timers
      perform (.free .client) : Program Unit).Every Op.Releasing := by
  refine ⟨trivial, fun _ => ⟨trivial, fun _ => ⟨trivial, fun _ => ?_⟩⟩⟩
  -- the loops and conditions after the first three operations
  refine destroyCurrentQuestion_every.bind fun _ => ?_
  refine (destroyCurrentTask_every trivial fun _ => trivial).bind fun _ => ?_
  refine ⟨trivial, fun timers => ?_⟩
  exact (destroyTimers_every timers).bind fun _ => ⟨trivial, fun _ => trivial⟩

theorem release_every : ClientDisconnect.release.Every Op.Closing :=
  ⟨trivial, fun _ => release_rest_every.mono fun _ => Op.Releasing.closing⟩

theorem clientDisconnect_every : clientDisconnect.Every Op.Closing :=
  ⟨trivial, fun _ => release_every⟩

theorem clientSendTaskText_every (no : ℕ) (text : List Char) (timeout : ℕ) :
    (clientSendTaskText no text timeout).Every Op.Advancing := by
  unfold clientSendTaskText
  split
  · exact ⟨trivial, fun _ => ⟨trivial, fun _ => trivial⟩⟩
  · exact ⟨trivial, fun _ => ⟨trivial, fun _ => trivial⟩⟩

theorem showTask_every (newTask : Task) (q : Question) :
    (ClientNextTask.showTask newTask q).Every Op.Advancing :=
  ⟨trivial, fun _ => ⟨trivial, fun _ => ⟨trivial, fun text =>
    (clientSendTaskText_every _ text _).bind fun _ => trivial⟩⟩⟩

theorem clientNextTask_every : clientNextTask.Every Op.Advancing := by
  refine ⟨trivial, fun _ => ?_⟩
  refine (destroyCurrentTask_every trivial fun _ => trivial).bind fun _ => ?_
  refine ⟨trivial, fun _ => ⟨trivial, fun newTask => ?_⟩⟩
  cases newTask with
  | none => trivial
  | some newTask =>
    refine ⟨trivial, fun q => ?_⟩
    cases q with
    | none => exact ⟨trivial, fun _ => trivial⟩
    | some q =>
      refine ⟨trivial, fun ok => ?_⟩
      cases ok with
      | true => exact showTask_every newTask q
      | false => exact ⟨trivial, fun _ => ⟨trivial, fun _ => trivial⟩⟩

theorem clientTimerSetup_setting (msecTimeout : ℕ) :
    (clientTimerSetup msecTimeout).Every Op.SettingUp := by
  refine ⟨trivial, fun ok => ?_⟩
  cases ok with
  | false => trivial
  | true =>
    refine ⟨trivial, fun ok => ?_⟩
    cases ok with
    | false => exact ⟨trivial, fun _ => trivial⟩
    | true =>
      refine ⟨trivial, fun ok => ?_⟩
      cases ok with
      | false => exact ⟨trivial, fun _ => ⟨trivial, fun _ => trivial⟩⟩
      | true =>
        refine ⟨trivial, fun ok => ?_⟩
        cases ok with
        | false => exact ⟨trivial, fun _ => ⟨trivial, fun _ => trivial⟩⟩
        | true => exact ⟨trivial, fun _ => trivial⟩

theorem clientTimerSetup_every (msecTimeout : ℕ) :
    (clientTimerSetup msecTimeout).Every Op.Arming :=
  (clientTimerSetup_setting msecTimeout).mono fun _ => Op.SettingUp.arming

theorem startTimer_every : startTimer.Every Op.Arming := by
  refine ⟨trivial, fun pt => ?_⟩
  cases pt with
  | none => exact ⟨trivial, fun _ => trivial⟩
  | some pt =>
    dsimp only [Prog.bind]
    split
    · exact (clientTimerSetup_every _).bind fun _ => trivial
    · trivial

theorem questionDestroy_every (q : Option Question) :
    (questionDestroy q).Every Op.Sending := by
  cases q with
  | none => exact ⟨trivial, fun _ => trivial⟩
  | some q => exact ⟨trivial, fun _ => trivial⟩

theorem clientSendText_every : clientSendText.Every Op.Sending := by
  refine ⟨trivial, fun q => ?_⟩
  cases q with
  | none => trivial
  | some q =>
    refine ⟨trivial, fun len => ⟨trivial, fun _ => ⟨trivial, fun left => ?_⟩⟩⟩
    dsimp only [Prog.bind]
    split
    · refine ⟨trivial, fun q => (questionDestroy_every q).bind fun _ => ?_⟩
      refine ⟨trivial, fun _ => ⟨trivial, fun ok => ?_⟩⟩
      cases ok with
      | true => exact (startTimer_every.mono fun _ => Op.Arming.sending).bind fun _ => trivial
      | false => trivial
    · trivial

theorem clientCreate_building : clientCreate.Every Op.Building := by
  refine ⟨trivial, fun ok => ?_⟩
  cases ok with
  | false => trivial
  | true =>
    refine ⟨trivial, fun ok => ?_⟩
    cases ok with
    | false => exact ⟨trivial, fun _ => trivial⟩
    | true =>
      refine ⟨trivial, fun ok => ?_⟩
      cases ok with
      | false => exact ⟨trivial, fun _ => ⟨trivial, fun _ => trivial⟩⟩
      | true =>
        refine ⟨trivial, fun _ => ⟨trivial, fun ok => ?_⟩⟩
        cases ok with
        | false =>
          exact ⟨trivial, fun _ => ⟨trivial, fun _ => ⟨trivial, fun _ => trivial⟩⟩⟩
        | true =>
          refine ⟨trivial, fun ok => ?_⟩
          cases ok with
          | false =>
            exact ⟨trivial, fun _ => ⟨trivial, fun _ => ⟨trivial, fun _ =>
              ⟨trivial, fun _ => trivial⟩⟩⟩⟩
          | true => trivial

theorem clientCreate_every : clientCreate.Every Op.Creating :=
  clientCreate_building.mono fun _ => Op.Building.creating

/-! ## Timers -/

/-- The operations of `client_next_task` leave the timers alone. -/
theorem exec_advancing_timers (ans : Answers) (ho : o.Advancing) :
    (exec ans o s).2.timers = s.timers := by
  cases o with
  | plotGetTask | plotTaskGetQuestion pt | epollMod ev => simp only [exec]; split <;> rfl
  | flush | free x | getCurrentTask | setCurrentTask pt | setCurrentQuestion q
  | questionGetText q | writeBorrow owner cells | writeMem cells => rfl
  | _ => exact ho.elim

/-! ## Disconnecting -/

/-- The client is gone: the epoll instance has neither its socket nor a timer of it. -/
structure State.Gone (s : State) : Prop where
  interest : s.interest = none
  timers : s.timers = []

/-- A client that is gone gets no events. -/
theorem State.Gone.not_deliverable (h : s.Gone) (e : Event) : ¬ s.Deliverable e := by
  cases e with
  | timer id => simp [Deliverable, h.timers]
  | client ev => simp [Deliverable, h.interest]

theorem State.Gone.serve (h : s.Gone) (i : Input) : s.serve i = s :=
  if_neg (h.not_deliverable i.event)

/-- The loop over the timers leaves none of them. -/
theorem destroyTimers_spec (timers : List Timer) (h : ∀ timer ∈ s.timers, timer ∈ timers) :
    (destroyTimers timers).wp (exec ans) (fun _ s' => s'.timers = []) s := by
  induction timers generalizing s with
  | nil => exact List.eq_nil_iff_forall_not_mem.2 fun timer htimer => nomatch h timer htimer
  | cons timer timers ih =>
    -- a timer that is still there after the first was destroyed is one of the rest
    refine ih fun other hother => ?_
    obtain ⟨hmem, hne⟩ := List.mem_filter.1 hother
    rcases List.mem_cons.1 (h other hmem) with rfl | htail
    · simp at hne
    · exact htail

/-- The operations after the locked section of `client_disconnect` do not register the socket
again. -/
theorem exec_closing_interest (ho : o.Closing) (h : s.interest = none) :
    (exec ans o s).2.interest = none := by
  cases o with
  | deregister => rfl
  | closeSocket | free x | getCurrentQuestion | getCurrentTask | getTimers | timerDestroy id =>
    exact h
  | _ => exact ho.elim

/-- `client_disconnect` leaves neither an epoll entry nor a timer. -/
theorem clientDisconnect_gone :
    clientDisconnect.wp (exec ans) (fun _ => State.Gone) s := by
  have hkeep : ∀ o s, Op.Closing o → s.interest = none → (exec ans o s).2.interest = none :=
    fun _ _ => exec_closing_interest
  have hinterest : clientDisconnect.wp (exec ans) (fun _ s' => s'.interest = none) s := by
    have hderegistered : (exec ans .deregister s).2.interest = none := rfl
    exact release_every.wp hkeep hderegistered
  -- nothing before the loop matters for the timers, since the loop reads the ring
  have htimers : clientDisconnect.wp (exec ans) (fun _ s' => s'.timers = []) s := by
    refine Prog.wp_skip fun _ _ => Prog.wp_skip fun _ _ => Prog.wp_skip fun _ _ =>
      Prog.wp_skip fun _ _ => Prog.wp_skip fun _ _ => Prog.wp_skip fun _ _ =>
      Prog.wp_skip fun _ s1 => ?_
    -- the loop starts with all timers of the ring, and the last operation does not add one
    have hloop : (destroyTimers s1.timers).wp (exec ans) (fun _ s' => s'.timers = []) s1 :=
      destroyTimers_spec s1.timers fun _ h => h
    have hrest : (destroyTimers s1.timers >>= fun _ => perform (.free .client)).wp (exec ans)
        (fun _ s' => s'.timers = []) s1 := Prog.wp_seq hloop fun _ _ h => h
    exact hrest
  exact ⟨hinterest, htimers⟩

/-- A client that could not be created has neither an epoll entry nor a timer. -/
theorem clientCreate_gone (h : s.Gone) :
    clientCreate.wp (exec ans) (fun ok s' => ok = false → s'.Gone) s := by
  unfold clientCreate
  -- the five calls that can fail, in the order of the source
  refine Prog.wp_call (R := fun _ => State.Gone) h fun ok s1 h1 => ?_
  cases ok with
  | false => exact fun _ => h1
  | true =>
    refine Prog.wp_call (R := fun _ => State.Gone) h1 fun ok s2 h2 => ?_
    cases ok with
    | false => exact fun _ => ⟨h2.interest, h2.timers⟩
    | true =>
      refine Prog.wp_call (R := fun _ => State.Gone) ⟨h2.interest, h2.timers⟩
        fun ok s3 h3 => ?_
      cases ok with
      | false => exact fun _ => ⟨h3.interest, h3.timers⟩
      | true =>
        refine Prog.wp_call (R := fun _ => State.Gone) ⟨h3.interest, rfl⟩ fun _ s4 h4 => ?_
        refine Prog.wp_call (R := fun _ => State.Gone) h4 fun ok s5 h5 => ?_
        cases ok with
        | false => exact fun _ => ⟨h5.interest, h5.timers⟩
        | true =>
          -- a registration that fails leaves no entry
          have hregister (ev : Events) : (exec ans (.register ev) s5).1 = false →
              (exec ans (.register ev) s5).2.Gone := by
            simp only [exec]
            split
            · nofun
            · exact fun _ => h5
          refine Prog.wp_call (R := fun ok s' => ok = false → s'.Gone) (hregister _)
            fun ok s6 h6 => ?_
          cases ok with
          | false => exact fun _ => ⟨(h6 rfl).interest, (h6 rfl).timers⟩
          | true => exact nofun

/-! ## Two events -/

/-- The socket can be written to, and each write takes at most `n` bytes. -/
def takes (n : ℕ) : Input :=
  { event := .client { input := false, output := true, rdhup := false }
    answers := { generous with write := fun _ => some n } }

/-- The socket takes the whole text. -/
def sendsAll : Input := takes 4096

/-- The right answer arrives. -/
def answersRight : Input :=
  { event := .client { input := true, output := false, rdhup := false }
    answers := { generous with check := .right } }

end Qkmetisc.Server
