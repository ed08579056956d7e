import Qkmetisc.Server.Handler

/-!
# A client sees its tasks in order

The log of a client is ordered: a task is taken only when all earlier ones were judged right, a
verdict is asked of the task taken last, and what is sent belongs to tasks whose predecessors
were judged right and comes before any wrong verdict.

Between two events a client that is still there waits for the answer to the last task taken
(`State.Waiting`); while an event is handled, a right verdict comes before the next task
(`State.Tracked` with one more task judged).

## Main definitions

* `TaskOrder`: the order, for every moment of a log.
* `State.Waiting`: the invariant between two events.

## Main results

* `clientNextTask_spec`, `clientSendText_spec`: one function each.
* `waiting_outline`: the steps of the handler.
* `taskOrder`: the order holds in every run.
-/

namespace Qkmetisc.Server

/-! ## Ordered logs -/

/-- The number of the task, if the action is that a task was taken. -/
def Action.task? : Action → Option ℕ
  | .gotTask no => some no
  | _ => none

/-- The action is the verdict that a task's answer is right. -/
def Action.isRight : Action → Bool
  | .verdict _ .right => true
  | _ => false

/-- How many tasks were taken. -/
def takenIn (log : List Action) : ℕ := log.countP fun a => a.task?.isSome

/-- How many verdicts were that the answer is right. -/
def rightsIn (log : List Action) : ℕ := log.countP Action.isRight

/-- The number of the task that was taken last. -/
def latestTask (log : List Action) : Option ℕ := log.findSome? Action.task?

/-- The order of what happens to a client. A log has its latest action first, so in
`later ++ a :: before` the actions before `a` are those of `before`. -/
structure TaskOrder (log : List Action) : Prop where
  /-- At every moment at most one task more has been taken than answers were right. -/
  taken_le : ∀ later before, log = later ++ before → takenIn before ≤ rightsIn before + 1
  /-- The number of a task is the order in which it was taken. -/
  numbered : ∀ later no before, log = later ++ .gotTask no :: before → no = takenIn before + 1
  /-- Every verdict is asked of the task taken last. -/
  latest : ∀ later no res before, log = later ++ .verdict no res :: before →
    latestTask before = some no
  /-- No byte for task `k + 1` is sent before task `k` was judged right. -/
  shown : ∀ later cells before, log = later ++ .sent cells :: before → ∀ c ∈ cells, ∀ k,
    0 < k → c.src.no = k + 1 → .verdict k .right ∈ before
  /-- No byte is sent after a wrong verdict. -/
  silent : ∀ later cells before, log = later ++ .sent cells :: before →
    ∀ no, .verdict no .wrong ∉ before

/-- What an action has to satisfy, given what happened before. -/
def Allowed (before : List Action) : Action → Prop
  | .gotTask no => takenIn before ≤ rightsIn before ∧ no = takenIn before + 1
  | .verdict no _ => latestTask before = some no
  | .sent cells => (∀ no, .verdict no .wrong ∉ before) ∧
      ∀ c ∈ cells, ∀ k, 0 < k → k < c.src.no → .verdict k .right ∈ before
  | _ => True

/-- Every action of the log was allowed when it happened. -/
def Ordered : List Action → Prop
  | [] => True
  | a :: before => Allowed before a ∧ Ordered before

theorem Ordered.of_append {later before : List Action} (h : Ordered (later ++ before)) :
    Ordered before := by
  induction later with
  | nil => exact h
  | cons a later ih => exact ih h.2

theorem Ordered.takenIn_le {log : List Action} (h : Ordered log) :
    takenIn log ≤ rightsIn log + 1 := by
  induction log with
  | nil => exact Nat.zero_le _
  | cons a log ih =>
    obtain ⟨ha, hlog⟩ := h
    have hle := ih hlog
    -- a task adds one to both sides of what its guard says, a verdict can only add to the right one
    cases a with
    | gotTask no =>
      have htaken := ha.1
      simp only [takenIn, rightsIn, List.countP_cons, Action.task?, Action.isRight] at htaken ⊢
      simpa using htaken
    | verdict no res =>
      simp only [takenIn, rightsIn, List.countP_cons, Action.task?] at hle ⊢
      simp only [Option.isSome_none, Bool.false_eq_true, ↓reduceIte, Nat.add_zero]
      omega
    | _ => simpa [takenIn, rightsIn, List.countP_cons, Action.task?, Action.isRight] using hle

/-- An ordered log has the order of tasks. -/
theorem Ordered.to_taskOrder {log : List Action} (h : Ordered log) : TaskOrder log where
  -- each part is the guard of the action, where the log was cut
  taken_le later before hlog := (hlog ▸ h).of_append.takenIn_le
  numbered later no before hlog := (hlog ▸ h).of_append.1.2
  latest later no res before hlog := (hlog ▸ h).of_append.1
  shown later cells before hlog c hc k hk hno :=
    (hlog ▸ h).of_append.1.2 c hc k hk (by omega)
  silent later cells before hlog := (hlog ▸ h).of_append.1.1

/-! ## The invariants -/

namespace State

/-- All tasks below number `r` were judged right, and nothing has gone wrong. -/
structure Tracked (s : State) (r : ℕ) : Prop where
  ordered : Ordered s.log
  noWrong : ∀ no, .verdict no .wrong ∉ s.log
  taken : takenIn s.log = s.taken
  latest : 0 < s.taken → latestTask s.log = some s.taken
  rights : r ≤ rightsIn s.log + 1
  right : ∀ k, 0 < k → k < r → .verdict k .right ∈ s.log

/-- The client waits for the answer to the last task taken, and its stream holds text for no
other task. -/
structure Waiting (s : State) : Prop where
  tracked : s.Tracked s.taken
  valid : s.sendStream.Valid
  current : ∀ pt ∈ s.currentTask, 0 < s.taken ∧ pt.no = s.taken
  cells : ∀ c ∈ s.sendStream.content, c.src.no = s.taken

/-- The answer to the last task taken was judged right. -/
structure Judged (s : State) : Prop where
  tracked : s.Tracked (s.taken + 1)
  valid : s.sendStream.Valid

/-- The client has been disconnected. -/
structure Over (s : State) : Prop where
  ordered : Ordered s.log
  gone : s.Gone

end State

/-! ## Operations that do not concern the order -/

/-- The action is none of those that the order speaks of. -/
def Action.Plain : Action → Prop
  | .gotTask _ | .verdict _ _ | .sent _ => False
  | _ => True

/-- The operation takes no task, asks for no verdict and sends nothing. -/
def Op.Neutral : Op → Prop
  | .plotGetTask | .plotTaskCheckFd _ | .readFd _ => False
  | _ => True

variable (ans : Answers) {o : Op} {s : State} {r : ℕ}

/-- A neutral operation adds at most one plain action to the log. -/
theorem exec_neutral (s : State) (ho : o.Neutral) :
    (exec ans o s).2.taken = s.taken ∧
      ((exec ans o s).2.log = s.log ∨
        ∃ a : Action, a.Plain ∧ (exec ans o s).2.log = a :: s.log) := by
  cases o with
  | plotGetTask | plotTaskCheckFd pt | readFd len => exact ho.elim
  | register ev =>
    simp only [exec]
    split
    · exact ⟨rfl, .inr ⟨.registered, trivial, rfl⟩⟩
    · exact ⟨rfl, .inl rfl⟩
  | plotTaskGetQuestion pt =>
    simp only [exec]
    split
    · exact ⟨rfl, .inl rfl⟩
    · exact ⟨rfl, .inr ⟨.gotQuestion pt.no, trivial, rfl⟩⟩
  | epollMod ev =>
    simp only [exec]
    split <;> exact ⟨rfl, .inl rfl⟩
  | deregister | closeSocket | free x | armTimer msec | timerDestroy id | abort =>
    exact ⟨rfl, .inr ⟨_, by trivial, rfl⟩⟩
  | _ => exact ⟨rfl, .inl rfl⟩

theorem Ordered.plain {log : List Action} {a : Action} (h : Ordered log) (ha : a.Plain) :
    Ordered (a :: log) := by
  refine ⟨?_, h⟩
  cases a with
  | gotTask no | verdict no res | sent cells => exact ha.elim
  | _ => trivial

theorem exec_ordered (ho : o.Neutral) (h : Ordered s.log) : Ordered (exec ans o s).2.log := by
  -- nothing is logged, or something that the order does not speak of
  rcases (exec_neutral ans s ho).2 with hlog | ⟨a, ha, hlog⟩
  · rwa [hlog]
  · exact hlog ▸ h.plain ha

namespace State

/-- A plain action does not change what has been taken and judged. -/
theorem Tracked.plain {s' : State} {a : Action} (h : s.Tracked r) (ha : a.Plain)
    (hlog : s'.log = a :: s.log) (htaken : s'.taken = s.taken) : s'.Tracked r where
  ordered := hlog ▸ h.ordered.plain ha
  noWrong no hmem := by
    rw [hlog] at hmem
    rcases List.mem_cons.1 hmem with rfl | hmem
    · exact ha
    · exact h.noWrong no hmem
  taken := by
    rw [hlog, htaken, ← h.taken]
    cases a with
    | gotTask no => exact ha.elim
    | _ => rfl
  latest hpos := by
    rw [htaken] at hpos ⊢
    rw [hlog, ← h.latest hpos]
    cases a with
    | gotTask no => exact ha.elim
    | _ => rfl
  rights := by
    rw [hlog, rightsIn, List.countP_cons]
    exact h.rights.trans (Nat.add_le_add_right (Nat.le_add_right _ _) 1)
  right k hpos hlt := hlog ▸ List.mem_cons_of_mem _ (h.right k hpos hlt)

end State

/-- A neutral operation does not change what has been taken and judged. -/
theorem exec_tracked (ho : o.Neutral) (h : s.Tracked r) : (exec ans o s).2.Tracked r := by
  obtain ⟨htaken, hlog | ⟨a, ha, hlog⟩⟩ := exec_neutral ans s ho
  · exact ⟨hlog ▸ h.ordered, hlog ▸ h.noWrong, by rw [hlog, htaken, h.taken],
      by rw [hlog, htaken]; exact h.latest, hlog ▸ h.rights, hlog ▸ h.right⟩
  · exact h.plain ha hlog htaken

/-! ## Disconnecting -/

/-- The operations of `client_disconnect` are neutral and leave the stream and the current task
alone. -/
theorem exec_closing (s : State) (ho : o.Closing) :
    o.Neutral ∧ (exec ans o s).2.sendStream = s.sendStream ∧
      (exec ans o s).2.currentTask = s.currentTask := by
  cases o with
  | deregister | closeSocket | free x | getCurrentQuestion | getCurrentTask | getTimers
  | timerDestroy id => exact ⟨trivial, rfl, rfl⟩
  | _ => exact ho.elim

/-- A disconnected client has an ordered log. -/
theorem clientDisconnect_over (h : Ordered s.log) :
    clientDisconnect.wp (exec ans) (fun _ => State.Over) s := by
  have hkeep : ∀ o s, Op.Closing o → Ordered s.log → Ordered (exec ans o s).2.log :=
    fun o s ho => exec_ordered ans (exec_closing ans s ho).1
  have hordered := clientDisconnect_every.wp hkeep h
  exact Prog.wp_mono (Prog.wp_and hordered clientDisconnect_gone)
    fun _ _ hboth => ⟨hboth.1, hboth.2⟩

/-! ## The next task -/

/-- A task has just been taken, and the stream is empty. -/
structure State.Asked (s : State) (pt : Task) : Prop where
  tracked : s.Tracked s.taken
  valid : s.sendStream.Valid
  pos : 0 < s.taken
  no : pt.no = s.taken
  empty : s.sendStream.content = []

/-- A neutral operation that leaves the stream alone does not take back that a task has been
taken. -/
theorem exec_asked {pt : Task} (ho : o.Neutral)
    (hstream : (exec ans o s).2.sendStream = s.sendStream) (h : s.Asked pt) :
    (exec ans o s).2.Asked pt := by
  have htaken := (exec_neutral ans s ho).1
  exact ⟨htaken ▸ exec_tracked ans ho h.tracked, exec_valid ans o h.valid, htaken ▸ h.pos,
    htaken ▸ h.no, hstream ▸ h.empty⟩

/-- A neutral operation that leaves the stream and the current task alone keeps the client
waiting. -/
theorem exec_waiting (ho : o.Neutral)
    (hstream : (exec ans o s).2.sendStream = s.sendStream)
    (hcurrent : (exec ans o s).2.currentTask = s.currentTask) (h : s.Waiting) :
    (exec ans o s).2.Waiting := by
  have htaken := (exec_neutral ans s ho).1
  -- tasks, stream and current task are what they were
  refine ⟨htaken ▸ exec_tracked ans ho h.tracked, exec_valid ans o h.valid, ?_, ?_⟩
  · rw [htaken, hcurrent]
    exact h.current
  · rw [htaken, hstream]
    exact h.cells

/-- Text for the current task may be written. -/
theorem writeBorrow_waiting (owner : Option Obj) {cells : List Cell} (h : s.Waiting)
    (hcells : ∀ c ∈ cells, c.src.no = s.taken) :
    (exec ans (.writeBorrow owner cells) s).2.Waiting :=
  ⟨exec_tracked ans trivial h.tracked, exec_valid ans _ h.valid, h.current,
    forall_content_writeBorrow h.valid h.cells hcells⟩

theorem writeMem_waiting {cells : List Cell} (h : s.Waiting)
    (hcells : ∀ c ∈ cells, c.src.no = s.taken) :
    (exec ans (.writeMem cells) s).2.Waiting :=
  ⟨exec_tracked ans trivial h.tracked, exec_valid ans _ h.valid, h.current,
    forall_content_writeMem h.valid h.cells hcells⟩

theorem src_no_cells (no : ℕ) (text : List Char) :
    ∀ c ∈ Question.cells no text, c.src.no = no := by
  intro c hc
  obtain ⟨char, -, rfl⟩ := List.mem_map.1 hc
  rfl

theorem src_no_timedPrompt (no timeout : ℕ) : ∀ c ∈ timedPrompt no timeout, c.src.no = no := by
  intro c hc
  obtain ⟨char, -, rfl⟩ := List.mem_map.1 hc
  rfl

theorem src_no_untimedPrompt (no : ℕ) : ∀ c ∈ untimedPrompt no, c.src.no = no := by
  intro c hc
  obtain ⟨char, -, rfl⟩ := List.mem_map.1 hc
  rfl

/-- `client_send_task_text` for the task taken last. -/
theorem clientSendTaskText_spec (h : s.Waiting) (text : List Char) (timeout : ℕ) :
    (clientSendTaskText s.taken text timeout).wp (exec ans) (fun _ => State.Waiting) s := by
  have htext := writeBorrow_waiting ans (some (.question s.taken)) h
    (src_no_cells s.taken text)
  unfold clientSendTaskText
  -- the second write depends on whether the task has a timeout
  split
  · exact writeMem_waiting ans htext (src_no_timedPrompt s.taken timeout)
  · exact writeBorrow_waiting ans none htext (src_no_untimedPrompt s.taken)

/-- The end of `client_next_task`: the client waits for the answer to the new task. -/
theorem showTask_spec {newTask : Task} (h : s.Asked newTask) (q : Question) :
    (ClientNextTask.showTask newTask q).wp (exec ans) (fun _ => State.Waiting) s := by
  have hset : (exec ans (.setCurrentTask (some newTask)) s).2.Waiting := by
    refine ⟨exec_tracked ans trivial h.tracked, h.valid, ?_, ?_⟩
    · rintro pt hpt
      obtain rfl : newTask = pt := Option.some.inj hpt
      exact ⟨h.pos, h.no⟩
    · exact fun c hc => nomatch h.empty ▸ hc
  -- setting the task and the question, and then the text
  unfold ClientNextTask.showTask
  refine Prog.wp_call (R := fun _ s' => s'.Waiting ∧ s'.taken = newTask.no) ⟨hset, h.no.symm⟩
    fun _ s1 ⟨h1, hno1⟩ => ?_
  refine Prog.wp_call (R := fun _ s' => s'.Waiting ∧ s'.taken = newTask.no)
    ⟨exec_waiting ans trivial rfl rfl h1, hno1⟩ fun _ s2 ⟨h2, hno2⟩ => ?_
  refine Prog.wp_call (R := fun _ s' => s'.Waiting ∧ s'.taken = newTask.no) ⟨h2, hno2⟩
    fun text s3 ⟨h3, hno3⟩ => ?_
  rw [← hno3]
  exact Prog.wp_seq (clientSendTaskText_spec ans h3 text _) fun _ _ hw => hw

/-- `plot_get_task` after a right answer. -/
theorem plotGetTask_spec (h : s.Judged) (hempty : s.sendStream.content = []) :
    (perform .plotGetTask).wp (exec ans)
      (fun pt s' => Ordered s'.log ∧ ∀ newTask ∈ pt, s'.Asked newTask) s := by
  have htracked := h.tracked
  simp only [Prog.wp, Prog.run_perform, exec]
  split
  · exact ⟨htracked.ordered, by simp⟩
  next timeout htask =>
    have hlast := htracked.rights
    -- all tasks so far were judged right, so the next one may be taken
    have hordered : Ordered (s.take timeout).2.log :=
      ⟨⟨htracked.taken.trans_le (Nat.le_of_succ_le_succ hlast),
        congrArg (· + 1) htracked.taken.symm⟩, htracked.ordered⟩
    refine ⟨hordered, fun newTask hnew => ?_⟩
    obtain rfl : (s.take timeout).1 = newTask := Option.some.inj hnew
    -- the invariant moves from tasks up to the last one to those before the new one
    refine ⟨⟨hordered, ?_, ?_, fun _ => rfl, ?_, ?_⟩, h.valid, Nat.succ_pos _, rfl, hempty⟩
    · intro no hmem
      rcases List.mem_cons.1 hmem with heq | hmem
      · cases heq
      · exact htracked.noWrong no hmem
    · simp [State.take, State.observe, takenIn, Action.task?, ← htracked.taken]
    · simpa [State.take, State.observe, rightsIn, Action.isRight] using hlast
    · exact fun k hpos hlt => List.mem_cons_of_mem _ (htracked.right k hpos hlt)

/-- The answer to the last task taken was judged right, and the stream is empty. -/
structure State.Cleared (s : State) : Prop where
  judged : s.Judged
  empty : s.sendStream.content = []

/-- The operations of `client_disconnect` leave a cleared client cleared. -/
theorem exec_cleared (ho : o.Closing) (h : s.Cleared) : (exec ans o s).2.Cleared := by
  obtain ⟨hneutral, hstream, -⟩ := exec_closing ans s ho
  have htaken := (exec_neutral ans s hneutral).1
  exact ⟨⟨htaken ▸ exec_tracked ans hneutral h.judged.tracked, exec_valid ans o h.judged.valid⟩,
    hstream ▸ h.empty⟩

/-- `client_next_task` after a right answer: on success the client waits for the next one. -/
theorem clientNextTask_spec (h : s.Judged) :
    clientNextTask.wp (exec ans)
      (fun ok s' => Ordered s'.log ∧ (ok = true → s'.Waiting)) s := by
  have hflush : (exec ans .flush s).2.Cleared :=
    ⟨⟨exec_tracked ans trivial h.tracked, exec_valid ans .flush h.valid⟩, rfl⟩
  have hcleared : ∀ o s, Op.Closing o → s.Cleared → (exec ans o s).2.Cleared :=
    fun _ _ => exec_cleared ans
  have hreset : ∀ s : State, s.Cleared → (exec ans (.setCurrentTask none) s).2.Cleared :=
    fun s hs => ⟨⟨exec_tracked ans trivial hs.judged.tracked, hs.judged.valid⟩, hs.empty⟩
  -- the stream is emptied before the task is taken, and stays empty
  unfold clientNextTask
  refine Prog.wp_call (R := fun _ => State.Cleared) hflush fun _ s1 h1 => ?_
  refine Prog.wp_seq ((destroyCurrentTask_every trivial fun _ => trivial).wp hcleared h1)
    fun _ s2 h2 => ?_
  refine Prog.wp_call (R := fun _ => State.Cleared) (hreset s2 h2) fun _ s3 h3 => ?_
  refine Prog.wp_seq (plotGetTask_spec ans h3.judged h3.empty) fun pt s4 ⟨hordered, hasked⟩ => ?_
  cases pt with
  | none => exact ⟨hordered, fun hok => absurd hok Bool.false_ne_true⟩
  | some newTask =>
    have h4 := hasked newTask rfl
    have hquestion : (exec ans (.plotTaskGetQuestion newTask) s4).2.Asked newTask := by
      refine exec_asked ans trivial ?_ h4
      simp only [exec]
      split <;> rfl
    -- both failures end in destroying the task, and say nothing about waiting
    have hfail : ∀ s : State, s.Asked newTask →
        (ClientNextTask.destroyPlotTask newTask).wp (exec ans)
          (fun ok s' => Ordered s'.log ∧ (ok = true → s'.Waiting)) s :=
      fun s hs => ⟨exec_ordered ans (o := .free _) trivial hs.tracked.ordered,
        fun hok => absurd hok Bool.false_ne_true⟩
    refine Prog.wp_call (R := fun _ s' => s'.Asked newTask) hquestion fun q s5 h5 => ?_
    cases q with
    | none => exact hfail s5 h5
    | some q =>
      have hmod : (exec ans (.epollMod { input := true, output := true, rdhup := true })
          s5).2.Asked newTask := by
        refine exec_asked ans trivial ?_ h5
        simp only [exec]
        split <;> rfl
      refine Prog.wp_call (R := fun _ s' => s'.Asked newTask) hmod fun ok s6 h6 => ?_
      cases ok with
      | true =>
        exact Prog.wp_mono (showTask_spec ans h6 q) fun _ _ hw => ⟨hw.tracked.ordered, fun _ => hw⟩
      | false => exact hfail _ (exec_asked ans (o := .free _) trivial rfl h6)

/-! ## Sending -/

/-- Every operation of `client_send_text` keeps the client waiting: what is sent was in the
stream, so it belongs to the task taken last. -/
theorem exec_sending (ho : o.Sending) (h : s.Waiting) : (exec ans o s).2.Waiting := by
  cases o with
  | readFd len =>
    -- what is sent and what is left was written for the last task
    obtain ⟨hsent, hleft⟩ := forall_content_send h.valid h.cells
    have htracked := h.tracked
    refine ⟨⟨⟨⟨htracked.noWrong, fun c hc k hpos hlt => ?_⟩, htracked.ordered⟩, ?_,
      htracked.taken, htracked.latest, ?_, ?_⟩, exec_valid ans (.readFd len) h.valid, h.current,
      hleft⟩
    · exact htracked.right k hpos (hsent c hc ▸ hlt)
    · intro no hmem
      rcases List.mem_cons.1 hmem with heq | hmem
      · nomatch heq
      · exact htracked.noWrong no hmem
    · simpa [exec, State.send, State.observe, rightsIn, Action.isRight] using htracked.rights
    · exact fun k hpos hlt => List.mem_cons_of_mem _ (htracked.right k hpos hlt)
  | epollMod ev =>
    refine exec_waiting ans trivial ?_ ?_ h <;> simp only [exec] <;> split <;> rfl
  | getCurrentQuestion | setCurrentQuestion q | getCurrentTask | streamLen | free x | malloc x
  | timerfdCreate | epollAddTimer | armTimer msec | abort =>
    exact exec_waiting ans trivial rfl rfl h
  | _ => exact ho.elim

/-- `client_send_text` keeps the client waiting, also when it fails. -/
theorem clientSendText_spec (h : s.Waiting) :
    clientSendText.wp (exec ans) (fun _ => State.Waiting) s :=
  clientSendText_every.wp (fun _ _ => exec_sending ans) h

/-! ## Verdicts and events -/

/-- The verdict on the current task. -/
theorem plotTaskCheckFd_spec (h : s.Waiting) {pt : Task} (hpt : s.currentTask = some pt) :
    (perform (.plotTaskCheckFd pt)).wp (exec ans)
      (fun res s' => Ordered s'.log ∧ (res = .right → s'.Judged) ∧ (res = .more → s'.Waiting))
      s := by
  have htracked := h.tracked
  obtain ⟨hpos, hno⟩ := h.current pt hpt
  -- the current task is the last one taken
  have hordered : Ordered (.verdict pt.no (plotTaskCheckFd ans) :: s.log) :=
    ⟨hno ▸ htracked.latest hpos, htracked.ordered⟩
  have hnoWrong : plotTaskCheckFd ans ≠ .wrong →
      ∀ no, .verdict no .wrong ∉ Action.verdict pt.no (plotTaskCheckFd ans) :: s.log := by
    intro hres no hmem
    rcases List.mem_cons.1 hmem with heq | hmem
    · exact hres (Action.verdict.inj heq).2.symm
    · exact htracked.noWrong no hmem
  refine ⟨hordered, fun hres => ?_, fun hres => ?_⟩
  · -- a right verdict covers one task more
    change plotTaskCheckFd ans = .right at hres
    refine ⟨⟨hordered, hnoWrong (by simp [hres]), htracked.taken, htracked.latest, ?_, ?_⟩,
      h.valid⟩
    · have hlast := Nat.succ_le_succ htracked.rights
      simpa [exec, State.observe, rightsIn, List.countP_cons, Action.isRight, hres] using hlast
    · intro k hk hlt
      rcases Nat.lt_succ_iff_lt_or_eq.1 hlt with hlt | rfl
      · exact List.mem_cons_of_mem _ (htracked.right k hk hlt)
      · exact hno ▸ hres ▸ List.mem_cons_self
  · -- an incomplete answer changes nothing
    change plotTaskCheckFd ans = .more at hres
    refine ⟨⟨hordered, hnoWrong (by simp [hres]), htracked.taken, htracked.latest, ?_, ?_⟩,
      h.valid, h.current, h.cells⟩
    · have hrights := htracked.rights
      simpa [exec, State.observe, rightsIn, Action.isRight, hres] using hrights
    · exact fun k hk hlt => List.mem_cons_of_mem _ (htracked.right k hk hlt)

/-- Between two events: the client waits, or it is gone. -/
def State.Settled (s : State) : Prop := s.Waiting ∨ s.Over

theorem State.Settled.ordered (h : s.Settled) : Ordered s.log :=
  h.elim (fun hw => hw.tracked.ordered) State.Over.ordered

/-- The steps of the handler, for a client that waits: a right verdict comes before the next task,
and a client that is to be disconnected has an ordered log. -/
theorem waiting_outline (e : Event) (ans : Answers) :
    Outline e ans (fun _ => True) State.Waiting State.Judged State.Waiting
      (fun s => Ordered s.log) State.Over where
  startMoment _ _ := trivial
  waitsMoment _ _ := trivial
  timer _ _ h := exec_waiting ans trivial rfl rfl h
  abort _ h := exec_waiting ans trivial rfl rfl h
  right _ _ _ h hpt hres := (plotTaskCheckFd_spec ans h hpt).2.1 hres
  more _ _ _ h hpt hres := (plotTaskCheckFd_spec ans h hpt).2.2 hres
  refused _ _ _ h hpt _ := (plotTaskCheckFd_spec ans h hpt).1
  skip _ h := h
  next _ h := by
    refine Prog.wpAlong_true.2 (Prog.wp_mono (clientNextTask_spec ans h) ?_)
    rintro (_ | _) s' ⟨hordered, hok⟩
    · exact hordered
    · exact hok rfl
  send _ h := by
    refine Prog.wpAlong_true.2 (Prog.wp_mono (clientSendText_spec ans h) ?_)
    rintro (_ | _) s' hw
    · exact hw.tracked.ordered
    · exact hw
  hangUp _ h := h.tracked.ordered
  disconnect _ h := Prog.wpAlong_true.2 (clientDisconnect_over ans h)

/-! ## Runs -/

/-- One event keeps a client settled. -/
theorem serve_settled (s : State) (i : Input) (h : s.Settled) : (s.serve i).Settled := by
  -- a client that is gone gets no events any more
  rcases h with hw | hover
  · exact (waiting_outline i.event i.answers).serve hw
  · rw [hover.gone.serve]
    exact .inr hover

/-- Before the first task nothing is left to be judged. -/
theorem start_judged : State.start.Judged := by
  refine ⟨⟨trivial, nofun, rfl, nofun, Nat.le_refl 1, ?_⟩, Bstream.valid_create⟩
  exact fun k hpos hlt => absurd hlt (Nat.not_lt.2 hpos)

/-- The operations of `client_create` do not concern the order. -/
theorem exec_creating (ho : o.Creating) (h : s.Judged) : (exec ans o s).2.Judged := by
  have hneutral : o.Neutral := by
    cases o with
    | plotGetTask | plotTaskCheckFd pt | readFd len => exact ho
    | _ => trivial
  have htaken := (exec_neutral ans s hneutral).1
  exact ⟨htaken ▸ exec_tracked ans hneutral h.tracked, exec_valid ans o h.valid⟩

/-- A client that has been added is settled. -/
theorem added_settled (ans : Answers) : (State.added ans).Settled := by
  have hgone : State.start.Gone := ⟨rfl, rfl⟩
  have hadd : serverWorkerAddClient.wp (exec ans) (fun _ => State.Settled) .start := by
    -- a client that was not created is gone; one that was is judged, as if task 0 had been answered
    unfold serverWorkerAddClient
    refine Prog.wp_seq (Prog.wp_and (clientCreate_every.wp (fun _ _ => exec_creating ans)
      start_judged) (clientCreate_gone hgone)) fun ok s1 ⟨h1, hgone1⟩ => ?_
    cases ok with
    | false => exact .inr ⟨h1.tracked.ordered, hgone1 rfl⟩
    | true =>
      refine Prog.wp_seq (clientNextTask_spec ans h1) fun ok s2 ⟨hordered, hok⟩ => ?_
      cases ok with
      | true => exact .inl (hok rfl)
      | false =>
        exact Prog.wp_seq (clientDisconnect_over ans hordered) fun _ _ hover => .inr hover
  exact hadd

/-- Whatever the plot, the client and the kernel do, in every run of events a client sees its
tasks in order. -/
theorem taskOrder (ans : Answers) (inputs : List Input) :
    TaskOrder (InputMachine.run State.serve (State.added ans) inputs).log :=
  (InputMachine.invariant_run_of_step serve_settled inputs (added_settled ans)).ordered.to_taskOrder

end Qkmetisc.Server
