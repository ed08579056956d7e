import Qkmetisc.Bstream.Exact
import Qkmetisc.Bstream.Segments
import Qkmetisc.Server.Handler
import Qkmetisc.Server.Life

/-!
# What the send stream borrows

The send stream of a client borrows the text of the current question, and the prompt of a task
without timeout. The text lives until the question is destroyed, which happens when the stream is
empty or has been destroyed itself. The prompt lies in an array of `client_send_task_text` and is
gone when that function returns. The acceptor is done with a client before the worker handles its
first event; events that come earlier are the subject of `Server/Race`.

## Main definitions

* `State.BorrowsAlive`: what the stream has borrowed and not sent yet is alive.
* `State.AliveDuring`: the same at all moments of a step.
* `State.PromptCopied`: the condition on a step.

## Main results

* `clientNextTask_alive`, `clientSendText_alive`, `clientDisconnect_alive`: one function each.
* `borrowsAlive_throughout`: the condition is enough over whole lives.
* `not_borrowsAlive_untimed`: a task without timeout.
-/

namespace Qkmetisc.Server

namespace State

/-- The memory of a borrowed byte is alive. Text belongs to its question, which has to be the
current one and not destroyed; a prompt lies in an array of a function that has returned. -/
def Alive (s : State) (c : Cell) : Prop :=
  match c.src with
  | .text no => s.currentQuestion.map Question.no = some no ∧ .freed (.question no) ∉ s.log
  | .prompt _ => False

instance (s : State) (c : Cell) : Decidable (s.Alive c) := by
  unfold Alive
  split <;> infer_instance

/-- As long as the stream has not been destroyed, its unread borrowed bytes are alive. -/
def BorrowsAlive (s : State) : Prop :=
  .freed .stream ∉ s.log → ∀ c ∈ s.sendStream.lent, s.Alive c

instance (s : State) : Decidable s.BorrowsAlive := inferInstanceAs (Decidable (_ → _))

/-- The borrowed bytes are alive at every moment of a step. -/
def AliveDuring (s : State) : LifeStep → Prop
  | .event i => s.Deliverable i.event →
      (workerHandler i.event).wpAlong (exec i.answers) BorrowsAlive (fun _ _ => True) s
  | .destroy answers => s.interest.isSome →
      serverWorkerDestroy.wpAlong (exec answers) BorrowsAlive (fun _ _ => True) s

end State

/-- The next task has no timeout, and its prompt is borrowed. -/
def Answers.LendsPrompt (ans : Answers) (no : ℕ) : Prop :=
  ans.task = some 0 ∧ ans.borrow (untimedPrompt no) ∧
    ∀ text ∈ ans.question, ans.borrow (Question.cells no text) → text.length < SIZE_T_RANGE →
      text.length + (untimedPrompt no).length < SIZE_T_RANGE

instance (ans : Answers) (no : ℕ) : Decidable (ans.LendsPrompt no) :=
  inferInstanceAs (Decidable (_ ∧ _ ∧ _))

/-- The step does not give the client a task whose prompt is borrowed. -/
def State.PromptCopied (s : State) : LifeStep → Prop
  | .event i => s.Deliverable i.event → i.event.Checks → s.currentTask.isSome →
      plotTaskCheckFd i.answers = .right → i.answers.Shows → ¬ i.answers.LendsPrompt (s.taken + 1)
  | .destroy _ => True

instance (s : State) (step : LifeStep) : Decidable (s.PromptCopied step) :=
  match step with
  | .event i => inferInstanceAs (Decidable (s.Deliverable i.event → i.event.Checks →
      s.currentTask.isSome → plotTaskCheckFd i.answers = .right → i.answers.Shows →
        ¬ i.answers.LendsPrompt (s.taken + 1)))
  | .destroy _ => inferInstanceAs (Decidable True)

variable {ans : Answers} {o : Op} {s : State} {n : ℕ}

/-! ## The invariant -/

/-- The stream borrows from the current question only. No question about a task after number `n`
is current or has been destroyed. -/
structure State.Lends (n : ℕ) (s : State) : Prop where
  exact : s.sendStream.Exact
  lent : ∀ c ∈ s.sendStream.lent,
    ∃ no, c.src = .text no ∧ s.currentQuestion.map Question.no = some no
  current : ∀ no, s.currentQuestion.map Question.no = some no →
    no ≤ n ∧ .freed (.question no) ∉ s.log
  freed : ∀ no, .freed (.question no) ∈ s.log → no ≤ n

/-- The same, with nothing in the stream. -/
structure State.Drained (n : ℕ) (s : State) : Prop where
  lends : s.Lends n
  stream : s.sendStream = Bstream.create

/-- The operation changes neither the stream nor the current question, and destroys none. -/
def Op.Unlent : Op → Prop
  | streamCreate | initClient | setCurrentQuestion _ | flush | writeBorrow _ _ | writeMem _
  | readFd _ | free (.question _) => False
  | _ => True

theorem State.Lends.alive (h : s.Lends n) : s.BorrowsAlive := by
  intro _ c hc
  obtain ⟨no, hsrc, hcurrent⟩ := h.lent c hc
  rw [Alive, hsrc]
  exact ⟨hcurrent, (h.current no hcurrent).2⟩

theorem Op.Building.unlent (h : o.Building) (hstream : o ≠ .streamCreate)
    (hinit : o ≠ .initClient) : o.Unlent := by
  cases o with
  | free x =>
    cases x with
    | question no => exact h
    | _ => trivial
  | streamCreate => exact absurd rfl hstream
  | initClient => exact absurd rfl hinit
  | setCurrentQuestion q | flush | writeBorrow owner cells | writeMem cells | readFd len => exact h
  | _ => trivial

theorem Op.Arming.unlent (h : o.Arming) : o.Unlent := by
  cases o with
  | free x =>
    cases x with
    | question no => exact h
    | _ => trivial
  | streamCreate | initClient | setCurrentQuestion q | flush | writeBorrow owner cells
  | writeMem cells | readFd len => exact h
  | _ => trivial

/-- What such an operation does. -/
theorem exec_unlent (ans : Answers) (s : State) (ho : o.Unlent) :
    (exec ans o s).2.sendStream = s.sendStream ∧
      (exec ans o s).2.currentQuestion = s.currentQuestion ∧
      ∀ no, .freed (.question no) ∈ (exec ans o s).2.log → .freed (.question no) ∈ s.log := by
  cases o with
  | streamCreate | initClient | setCurrentQuestion q | flush | writeBorrow owner cells
  | writeMem cells | readFd len => exact ho.elim
  | register ev | epollMod ev | plotGetTask | plotTaskGetQuestion pt =>
    simp only [exec]
    split <;> simp [State.observe, State.take]
  | free x =>
    cases x with
    | question no => exact ho.elim
    | _ => simp [exec, State.observe]
  | _ => simp [exec, State.observe, State.arm]

theorem State.Lends.exec (h : s.Lends n) (ho : o.Unlent) : (exec ans o s).2.Lends n := by
  obtain ⟨hstream, hquestion, hlog⟩ := exec_unlent ans s ho
  refine ⟨?_, ?_, ?_, fun no hno => h.freed no (hlog no hno)⟩
  · rw [hstream]
    exact h.exact
  · rw [hstream, hquestion]
    exact h.lent
  · intro no hno
    rw [hquestion] at hno
    exact ⟨(h.current no hno).1, fun hfreed => (h.current no hno).2 (hlog no hfreed)⟩

theorem State.Drained.exec (h : s.Drained n) (ho : o.Unlent) : (exec ans o s).2.Drained n :=
  ⟨h.lends.exec ho, (exec_unlent ans s ho).1.trans h.stream⟩

/-- More numbers count as seen. -/
theorem State.Drained.mono {m : ℕ} (h : s.Drained n) (hle : n ≤ m) : s.Drained m where
  lends := ⟨h.lends.exact, h.lends.lent,
    fun no hno => ⟨(h.lends.current no hno).1.trans hle, (h.lends.current no hno).2⟩,
    fun no hno => (h.lends.freed no hno).trans hle⟩
  stream := h.stream

theorem State.Drained.lends_taken (h : s.Drained n) (hle : n ≤ s.taken) : s.Lends s.taken :=
  (h.mono hle).lends

/-- A stream that is emptied has borrowed nothing. -/
theorem State.Lends.flush (h : s.Lends n) : (Server.exec ans .flush s).2.Drained n where
  lends := ⟨Bstream.exact_create, fun _ hc => absurd hc List.not_mem_nil, h.current, h.freed⟩
  stream := rfl

/-- What is sent is not borrowed any more. -/
theorem State.Lends.readFd {len : ℕ} (h : s.Lends n) : (Server.exec ans (.readFd len) s).2.Lends n
    where
  exact := h.exact.readFd _ _
  lent c hc := h.lent c (Bstream.lent_readFd _ _ _ hc)
  current no hno := ⟨(h.current no hno).1, by simpa [Server.exec, State.send, State.observe] using
    (h.current no hno).2⟩
  freed no hno := h.freed no (by simpa [Server.exec, State.send, State.observe] using hno)

/-- A question that is not the current one is destroyed. -/
theorem State.Drained.free_question {no : ℕ} (h : s.Drained n) (hno : n < no) :
    (Server.exec ans (.free (.question no)) s).2.Drained no where
  lends := by
    refine ⟨h.lends.exact, h.lends.lent, fun no' hno' => ?_, fun no' hno' => ?_⟩
    · obtain ⟨hle, hlog⟩ := h.lends.current no' hno'
      refine ⟨by omega, ?_⟩
      simp only [Server.exec, State.observe, List.mem_cons, Action.freed.injEq,
        Obj.question.injEq, not_or]
      exact ⟨by omega, hlog⟩
    · rcases List.mem_cons.1 hno' with heq | hlog
      · cases heq
        exact Nat.le_refl _
      · exact (h.lends.freed no' hlog).trans hno.le
  stream := h.stream

/-- A new question becomes the current one. -/
theorem State.Drained.setCurrentQuestion {q : Question} (h : s.Drained n) (hno : n < q.no) :
    (Server.exec ans (.setCurrentQuestion (some q)) s).2.Drained q.no where
  lends := by
    refine ⟨h.lends.exact, fun c hc => ?_, fun no hcurrent => ?_,
      fun no hfreed => (h.lends.freed no hfreed).trans hno.le⟩
    · change c ∈ s.sendStream.lent at hc
      rw [h.stream] at hc
      exact absurd hc List.not_mem_nil
    · cases hcurrent
      refine ⟨Nat.le_refl _, fun hfreed => ?_⟩
      exact absurd (h.lends.freed q.no hfreed) (Nat.not_le.2 hno)
  stream := h.stream

/-! ## Writing the text of a task -/

/-- Where the condition on the prompt does not hold, borrowing it takes nothing. -/
theorem writeBorrow_untimed {no : ℕ} {text : List Char} (htask : ans.task = some 0)
    (hquestion : ans.question = some text) (hprompt : ¬ ans.LendsPrompt no) {bs : Bstream Cell}
    (hbs : bs = (Bstream.create.writeBorrow (Question.cells no text)
      (ans.borrow (Question.cells no text))).2) :
    (bs.writeBorrow (untimedPrompt no) (ans.borrow (untimedPrompt no))).2 = bs := by
  by_cases hborrow : ans.borrow (untimedPrompt no) = true
  · -- the lengths of the text and the prompt do not fit together
    obtain ⟨htext, hlt, hover⟩ : ans.borrow (Question.cells no text) = true ∧
        text.length < SIZE_T_RANGE ∧ SIZE_T_RANGE ≤ text.length + (untimedPrompt no).length := by
      by_contra hnot
      refine hprompt ⟨htask, hborrow, fun text' htext' hb hlt => ?_⟩
      rw [hquestion, Option.mem_some_iff] at htext'
      subst htext'
      by_contra hover
      exact hnot ⟨hb, hlt, by omega⟩
    have hlen : (Question.cells no text).length = text.length := List.length_map _
    have htotal : bs.totalLen = text.length := by
      rw [hbs, htext, Bstream.writeBorrow, if_neg (by simp [Bstream.create, hlen, hlt])]
      simp [BufferBorrowed.create, Bstream.create, hlen]
    rw [Bstream.writeBorrow, if_pos (by rw [htotal]; exact hover)]
  · rw [Bool.not_eq_true] at hborrow
    unfold Bstream.writeBorrow
    split
    · rfl
    · rw [hborrow]
      rfl

/-- The text of the current question is borrowed. -/
theorem State.Drained.writeText {no : ℕ} {text : List Char} {owner : Option Obj} (h : s.Drained n)
    (hno : s.currentQuestion.map Question.no = some no) :
    (Server.exec ans (.writeBorrow owner (Question.cells no text)) s).2.Lends n := by
  refine ⟨h.lends.exact.writeBorrow _ _, fun c hc => ⟨no, ?_, hno⟩, h.lends.current,
    h.lends.freed⟩
  have hmem := Bstream.lent_writeBorrow _ _ _ hc
  rw [h.stream] at hmem
  obtain ⟨char, -, rfl⟩ := List.mem_map.1 hmem
  rfl

/-- What is copied is not borrowed. -/
theorem State.Lends.writeMem {cells : List Cell} (h : s.Lends n)
    (hfull : s.sendStream.tailFree = 0) : (Server.exec ans (.writeMem cells) s).2.Lends n := by
  refine ⟨h.exact.writeMem_of_full _ _ hfull, fun c hc => ?_, h.current, h.freed⟩
  rw [Server.exec, Bstream.lent_writeMem] at hc
  exact h.lent c hc

/-- `client_send_task_text` into an empty stream. -/
theorem clientSendTaskText_alive {no timeout : ℕ} {text : List Char} (h : s.Drained n)
    (hno : s.currentQuestion.map Question.no = some no) (htask : ans.task = some timeout)
    (hquestion : ans.question = some text) (hprompt : ¬ ans.LendsPrompt no) :
    (clientSendTaskText no text timeout).wpAlong (exec ans) State.BorrowsAlive
      (fun _ s' => s'.Lends n ∧ s'.taken = s.taken) s := by
  unfold clientSendTaskText
  split
  next htimed =>
    refine Prog.wpAlong_call (R := fun _ s' => s'.Lends n ∧ s'.sendStream.tailFree = 0 ∧
      s'.taken = s.taken) h.lends.alive ⟨h.writeText hno, ?_, rfl⟩ fun _ s1 h1 => ?_
    · simp only [exec, h.stream]
      exact Bstream.tailFree_writeBorrow_create _ _
    obtain ⟨h1, hfull, ht1⟩ := h1
    -- the timed prompt is copied into a buffer of its own
    have h2 : (exec ans (.writeMem (timedPrompt no timeout)) s1).2.Lends n := h1.writeMem hfull
    exact Prog.wpAlong_perform h1.alive h2.alive ⟨h2, ht1⟩
  next huntimed =>
    rw [not_not] at huntimed
    subst huntimed
    refine Prog.wpAlong_call (R := fun _ s' => s'.Lends n ∧ s'.sendStream =
      (Bstream.create.writeBorrow (Question.cells no text)
        (ans.borrow (Question.cells no text))).2 ∧
      s'.taken = s.taken) h.lends.alive ⟨h.writeText hno, ?_, rfl⟩ fun _ s1 h1 => ?_
    · simp only [exec, h.stream]
    obtain ⟨h1, hs1, ht1⟩ := h1
    have hsame : (exec ans (.writeBorrow none (untimedPrompt no)) s1).2 = s1 := by
      simp only [exec]
      rw [writeBorrow_untimed htask hquestion hprompt hs1]
    have h2 : (exec ans (.writeBorrow none (untimedPrompt no)) s1).2.Lends n := by rwa [hsame]
    exact Prog.wpAlong_perform h1.alive h2.alive ⟨h2, ht1⟩

/-! ## The functions -/

/-- The end of `client_next_task`. -/
theorem showTask_alive {newTask : Task} {q : Question} (h : s.Drained n) (hlt : n < newTask.no)
    (hle : newTask.no ≤ s.taken) (hq : q.no = newTask.no) (htask : ans.task = some newTask.timeout)
    (hquestion : ans.question = some q.text) (hprompt : ¬ ans.LendsPrompt newTask.no) :
    (ClientNextTask.showTask newTask q).wpAlong (exec ans) State.BorrowsAlive
      (fun _ s' => s'.Lends s'.taken) s := by
  unfold ClientNextTask.showTask
  refine Prog.wpAlong_call (R := fun _ s' => s'.Drained n ∧ s'.taken = s.taken) h.lends.alive
    ⟨h.exec trivial, rfl⟩ fun _ s1 ⟨h1, ht1⟩ => ?_
  refine Prog.wpAlong_call (R := fun _ s' => s'.Drained newTask.no ∧ s'.currentQuestion = some q ∧
    s'.taken = s.taken) h1.lends.alive ⟨hq ▸ h1.setCurrentQuestion (hq ▸ hlt), rfl, ht1⟩
    fun _ s2 ⟨h2, hq2, ht2⟩ => ?_
  refine Prog.wpAlong_call (R := fun text s' => text = q.text ∧ s' = s2) h2.lends.alive ⟨rfl, rfl⟩
    ?_
  rintro _ s2 ⟨rfl, rfl⟩
  have hno : s2.currentQuestion.map Question.no = some newTask.no := by rw [hq2, ← hq]; rfl
  refine Prog.wpAlong_seq (clientSendTaskText_alive h2 hno htask hquestion hprompt)
    fun _ s3 hm3 ⟨h3, ht3⟩ => ⟨hm3, ?_⟩
  refine ⟨h3.exact, h3.lent, fun no hcurrent => ?_, fun no hfreed => ?_⟩
  · exact ⟨(h3.current no hcurrent).1.trans (by omega), (h3.current no hcurrent).2⟩
  · exact (h3.freed no hfreed).trans (by omega)

/-- `client_next_task`. -/
theorem clientNextTask_alive (h : s.Lends s.taken)
    (hprompt : ans.Shows → ¬ ans.LendsPrompt (s.taken + 1)) :
    clientNextTask.wpAlong (exec ans) State.BorrowsAlive (fun _ s' => s'.Lends s'.taken) s := by
  have hkeep : ∀ o s', o.Unlent ∧ o ≠ .plotGetTask → s'.Drained s.taken ∧ s'.taken = s.taken →
      (exec ans o s').2.Drained s.taken ∧ (exec ans o s').2.taken = s.taken :=
    fun _ s' ho hs' => ⟨hs'.1.exec ho.1, (exec_taken ans s' ho.2).trans hs'.2⟩
  unfold clientNextTask
  refine Prog.wpAlong_call (R := fun _ s' => s'.Drained s.taken ∧ s'.taken = s.taken) h.alive
    ⟨h.flush, rfl⟩ fun _ s1 h1 => ?_
  refine Prog.wpAlong_seq ((destroyCurrentTask_every ⟨trivial, by simp⟩
    fun _ => ⟨trivial, by simp⟩).wpAlong hkeep (fun _ h => h.1.lends.alive) h1)
    fun _ s2 _ h2 => ?_
  refine Prog.wpAlong_call (R := fun _ s' => s'.Drained s.taken ∧ s'.taken = s.taken)
    h2.1.lends.alive ⟨h2.1.exec trivial, h2.2⟩ fun _ s3 h3 => ?_
  obtain ⟨h3, ht3⟩ := h3
  -- the new task has a number that no question had before
  refine Prog.wpAlong_call (R := fun pt s' => s'.Drained s.taken ∧
    pt.elim (s'.taken = s.taken) fun pt =>
      s'.taken = s.taken + 1 ∧ pt.no = s.taken + 1 ∧ ans.task = some pt.timeout)
    h3.lends.alive ⟨h3.exec trivial, ?_⟩ fun pt s4 h4 => ?_
  · simp only [exec]
    cases htask : ans.task with
    | none => exact ht3
    | some timeout => exact ⟨congrArg (· + 1) ht3, congrArg (· + 1) ht3, rfl⟩
  obtain ⟨h4, ht4⟩ := h4
  cases pt with
  | none => exact ⟨h4.lends.alive, h4.lends_taken (Nat.le_of_eq ht4.symm)⟩
  | some pt =>
    obtain ⟨ht4, hno, htask⟩ := ht4
    refine Prog.wpAlong_call (R := fun q s' => s'.Drained s.taken ∧ s'.taken = s.taken + 1 ∧
      ∀ q' ∈ q, q'.no = pt.no ∧ ans.question = some q'.text) h4.lends.alive
      ⟨h4.exec trivial, (exec_taken ans s4 (by simp)).trans ht4, ?_⟩ fun q s5 h5 => ?_
    · simp only [exec]
      cases ans.question with
      | none => simp
      | some text =>
        rintro _ ⟨⟩
        exact ⟨rfl, rfl⟩
    obtain ⟨h5, ht5, hq⟩ := h5
    cases q with
    | none =>
      have h6 : (exec ans (.free (.task pt.no)) s5).2.Drained s.taken := h5.exec trivial
      have hle : s.taken ≤ s5.taken := by omega
      exact ⟨h5.lends.alive, h6.lends.alive, h6.lends_taken hle⟩
    | some q =>
      obtain ⟨hqno, hquestion⟩ := hq q rfl
      refine Prog.wpAlong_call (R := fun ok s' => s'.Drained s.taken ∧ s'.taken = s.taken + 1 ∧
        (ok = true → ans.mod { input := true, output := true, rdhup := true } = true))
        h5.lends.alive ⟨h5.exec trivial, (exec_taken ans s5 (by simp)).trans ht5, ?_⟩
        fun ok s6 h6 => ?_
      · simp only [exec]
        split <;> simp_all
      obtain ⟨h6, ht6, hok⟩ := h6
      cases ok with
      | true =>
        have hshows : ans.Shows := by
          refine ⟨?_, ?_, hok rfl⟩
          · rw [htask]; rfl
          · rw [hquestion]; rfl
        exact showTask_alive h6 (by omega) (by omega) hqno htask hquestion
          (hno ▸ hprompt hshows)
      | false =>
        -- the question that is destroyed has never been current
        have h7 : (exec ans (.free (.question q.no)) s6).2.Drained q.no :=
          h6.free_question (by omega)
        have h8 : (exec ans (.free (.task pt.no))
            (exec ans (.free (.question q.no)) s6).2).2.Drained q.no := h7.exec trivial
        have hle : q.no ≤ s6.taken := by omega
        exact ⟨h6.lends.alive, h7.lends.alive, h8.lends.alive, h8.lends_taken hle⟩

/-- A question that is destroyed when nothing is borrowed from it. -/
theorem questionDestroy_alive (h : s.Lends n) (hlent : s.sendStream.lent = []) :
    (questionDestroy s.currentQuestion).wpAlong (exec ans) State.BorrowsAlive
      (fun _ s' => s'.sendStream = s.sendStream ∧ s'.taken = s.taken ∧
        ∀ no, .freed (.question no) ∈ s'.log → no ≤ n) s := by
  have hempty {s' : State} (hs' : s'.sendStream = s.sendStream) : s'.BorrowsAlive := by
    intro _ c hc
    rw [hs', hlent] at hc
    exact absurd hc List.not_mem_nil
  cases hq : s.currentQuestion with
  | none =>
    refine ⟨h.alive, hempty rfl, rfl, rfl, fun no hno => h.freed no ?_⟩
    exact (exec_unlent ans s (o := .abort) trivial).2.2 no hno
  | some q =>
    refine ⟨h.alive, hempty rfl, rfl, rfl, fun no hno => ?_⟩
    have hcurrent := h.current q.no (by rw [hq]; rfl)
    rcases List.mem_cons.1 hno with heq | hlog
    · cases heq
      exact hcurrent.1
    · exact h.freed no hlog

/-- `client_send_text`: the question is destroyed when the stream is empty. -/
theorem clientSendText_alive (h : s.Lends s.taken) :
    clientSendText.wpAlong (exec ans) State.BorrowsAlive (fun _ s' => s'.Lends s'.taken) s := by
  have hkeep : ∀ o s', Op.Arming o → s'.Lends s'.taken →
      (exec ans o s').2.Lends (exec ans o s').2.taken := by
    intro o s' ho hs'
    rw [exec_taken ans s' (by rintro rfl; exact ho)]
    exact hs'.exec ho.unlent
  unfold clientSendText
  refine Prog.wpAlong_call (R := fun _ s' => s'.Lends s'.taken) h.alive h fun q s1 h1 => ?_
  cases q with
  | none => exact ⟨h1.alive, h1⟩
  | some q =>
    refine Prog.wpAlong_call (R := fun _ s' => s'.Lends s'.taken) h1.alive h1 fun _ s2 h2 => ?_
    refine Prog.wpAlong_call (R := fun _ s' => s'.Lends s'.taken) h2.alive h2.readFd
      fun _ s3 h3 => ?_
    refine Prog.wpAlong_call (R := fun left s' => left = s'.sendStream.len ∧ s'.Lends s'.taken)
      h3.alive ⟨rfl, h3⟩ fun left s4 ⟨hleft, h4⟩ => ?_
    split
    next hempty =>
      have hlent : s4.sendStream.lent = [] := by
        have hcontent := h4.exact.content_eq_nil_iff.2 (hleft.symm.trans hempty)
        exact List.subset_nil.1 (hcontent ▸ s4.sendStream.lent_subset_content)
      refine Prog.wpAlong_call (R := fun q s' => q = s'.currentQuestion ∧ s' = s4) h4.alive
        ⟨rfl, rfl⟩ ?_
      rintro _ s5 ⟨rfl, rfl⟩
      refine Prog.wpAlong_seq (questionDestroy_alive h4 hlent) fun _ s6 hm6 ⟨hs6, ht6, h6⟩ => ?_
      -- a client without question borrows nothing
      refine Prog.wpAlong_call (R := fun _ s' => s'.Lends s'.taken) hm6 ?_ fun _ s7 h7 => ?_
      · refine ⟨hs6 ▸ h4.exact, fun c hc => ?_, fun no hno => ?_, ht6 ▸ h6⟩
        · change c ∈ s6.sendStream.lent at hc
          rw [hs6, hlent] at hc
          exact absurd hc List.not_mem_nil
        · cases hno
      have h8 : (exec ans (.epollMod { input := true, output := false, rdhup := true }) s7).2.Lends
          s7.taken := h7.exec trivial
      rw [← exec_taken ans s7 (o := .epollMod _) (by simp)] at h8
      refine Prog.wpAlong_call (R := fun _ s' => s'.Lends s'.taken) h7.alive h8 fun ok s8 h8 => ?_
      cases ok with
      | true =>
        exact Prog.wpAlong_seq (startTimer_every.wpAlong hkeep (fun _ h => h.alive) h8)
          fun _ _ hm9 h9 => ⟨hm9, h9⟩
      | false => exact ⟨h8.alive, h8⟩
    next => exact ⟨h4.alive, h4⟩

/-- `client_disconnect`: the stream is destroyed before the question. -/
theorem clientDisconnect_alive (h : s.Lends n) :
    clientDisconnect.wpAlong (exec ans) State.BorrowsAlive (fun _ => State.Gone) s := by
  have halive : clientDisconnect.wpAlong (exec ans) State.BorrowsAlive (fun _ _ => True) s := by
    unfold clientDisconnect ClientDisconnect.release
    refine Prog.wpAlong_call (R := fun _ => State.Lends n) h.alive (h.exec trivial)
      fun _ s1 h1 => ?_
    refine Prog.wpAlong_call (R := fun _ => State.Lends n) h1.alive (h1.exec trivial)
      fun _ s2 h2 => ?_
    refine Prog.wpAlong_call (R := fun _ => State.Lends n) h2.alive (h2.exec trivial)
      fun _ s3 h3 => ?_
    refine Prog.wpAlong_call (R := fun _ => State.Lends n) h3.alive (h3.exec trivial)
      fun _ s4 h4 => ?_
    -- from here on there is no stream
    have hstream : .freed .stream ∈ (exec ans (.free .stream) s4).2.log := List.mem_cons_self
    have hkeep : ∀ o s, Op.Releasing o → .freed .stream ∈ s.log →
        .freed .stream ∈ (exec ans o s).2.log :=
      fun o s _ hs => (exec_log ans o s).mem hs
    refine Prog.wpAlong_call (R := fun _ s' => .freed .stream ∈ s'.log) h4.alive hstream
      fun _ s5 h5 => ?_
    have hrest := ((release_rest_every.2 ()).2 ()).2 ()
    exact Prog.wpAlong_mono (hrest.wpAlong hkeep (fun _ hs hnot => absurd hs hnot) h5)
      fun _ _ _ _ => trivial
  exact Prog.wpAlong_mono (Prog.wpAlong_and halive clientDisconnect_gone) fun _ _ _ hboth => hboth.2

/-! ## Adding -/

/-- `client_create` borrows nothing. -/
theorem clientCreate_alive :
    clientCreate.wpAlong (exec ans) State.BorrowsAlive
      (fun _ s' => s'.Drained 0 ∧ s'.currentQuestion = none ∧ s'.taken = 0) .start := by
  have hstart : State.start.Drained 0 :=
    ⟨⟨Bstream.exact_create, fun _ hc => absurd hc List.not_mem_nil,
      fun _ hno => absurd hno (by simp [State.start]),
      fun _ hno => absurd hno List.not_mem_nil⟩, rfl⟩
  have hkeep : ∀ o s, Op.Building o → s.Drained 0 ∧ s.currentQuestion = none ∧ s.taken = 0 →
      (exec ans o s).2.Drained 0 ∧ (exec ans o s).2.currentQuestion = none ∧
        (exec ans o s).2.taken = 0 := by
    intro o s ho ⟨hs, hq, ht⟩
    have htaken : (exec ans o s).2.taken = 0 :=
      (exec_taken ans s (by rintro rfl; exact ho)).trans ht
    cases o with
    | streamCreate =>
      have hcreated : (exec ans .flush s).2.Drained 0 := hs.lends.flush
      exact ⟨hcreated, hq, htaken⟩
    | initClient =>
      have hlends : (exec ans .initClient s).2.Lends 0 := by
        refine ⟨hs.lends.exact, fun c hc => ?_, fun no hno => ?_, hs.lends.freed⟩
        · change c ∈ s.sendStream.lent at hc
          rw [hs.stream] at hc
          exact absurd hc List.not_mem_nil
        · cases hno
      exact ⟨⟨hlends, hs.stream⟩, rfl, htaken⟩
    | malloc x | construct | register ev | free x =>
      have hunlent := ho.unlent (by simp) (by simp)
      exact ⟨hs.exec hunlent, (exec_unlent ans s hunlent).2.1.trans hq, htaken⟩
    | _ => exact ho.elim
  exact clientCreate_building.wpAlong hkeep (fun _ h => h.1.lends.alive) ⟨hstart, rfl, rfl⟩

/-- An operation that concerns neither the stream nor the question. -/
theorem State.BorrowsAlive.exec (h : s.BorrowsAlive) (ho : o.Unlent) :
    (exec ans o s).2.BorrowsAlive := by
  obtain ⟨hstream, hquestion, hlog⟩ := exec_unlent ans s ho
  intro hfreed c hc
  rw [hstream] at hc
  have hc' := h (fun hmem => hfreed ((exec_log ans o s).mem hmem)) c hc
  unfold Alive at hc' ⊢
  split at hc'
  next no hsrc => exact ⟨hquestion ▸ hc'.1, fun hmem => hc'.2 (hlog no hmem)⟩
  next => exact hc'.elim

/-- What the acceptor does, up to the first task. -/
theorem serverMainThreadLoop_alive (hprompt : ans.Creates → ans.Shows → ¬ ans.LendsPrompt 1) :
    serverMainThreadLoop.wpAlong (exec ans) State.BorrowsAlive
      (fun _ s' => s'.Lends s'.taken ∨ s'.Gone) .start := by
  have hgone : clientCreate.wp (exec ans) (fun ok s' => ok = false → s'.Gone) .start :=
    clientCreate_gone ⟨rfl, rfl⟩
  have hcreate := Prog.wpAlong_and (Prog.wpAlong_and clientCreate_alive clientCreate_result) hgone
  have hadd : serverWorkerAddClient.wpAlong (exec ans) State.BorrowsAlive
      (fun ok s' => if ok then s'.Lends s'.taken else s'.Gone) .start := by
    unfold serverWorkerAddClient
    refine Prog.wpAlong_seq hcreate fun ok s1 hm1 ⟨⟨⟨h1, hq1, ht1⟩, hcreates⟩, hgone⟩ => ?_
    cases ok with
    | false => exact ⟨hm1, hgone rfl⟩
    | true =>
      have hlends : s1.Lends s1.taken := h1.lends_taken (Nat.zero_le _)
      have hnext : ans.Shows → ¬ ans.LendsPrompt (s1.taken + 1) := by
        rw [ht1]
        exact hprompt (hcreates.1 rfl)
      refine Prog.wpAlong_seq (clientNextTask_alive hlends hnext) fun ok s2 hm2 h2 => ?_
      cases ok with
      | true => exact ⟨hm2, h2⟩
      | false => exact Prog.wpAlong_seq (clientDisconnect_alive h2) fun _ _ hm3 h3 => ⟨hm3, h3⟩
  unfold serverMainThreadLoop
  refine Prog.wpAlong_seq hadd fun ok s1 hm1 h1 => ?_
  cases ok with
  | true => exact ⟨hm1, .inl h1⟩
  | false =>
    exact Prog.wpAlong_perform hm1 (hm1.exec trivial) (.inr ⟨h1.interest, h1.timers⟩)

/-! ## Whole lives -/

/-- The steps of the handler, when the client is not given a prompt that is borrowed. -/
theorem alive_outline (e : Event) (ans : Answers) :
    Outline e ans State.BorrowsAlive
      (fun s => s.Lends s.taken ∧ (e.Checks → s.currentTask.isSome →
        plotTaskCheckFd ans = .right → ans.Shows → ¬ ans.LendsPrompt (s.taken + 1)))
      (fun s => s.Lends s.taken ∧ (ans.Shows → ¬ ans.LendsPrompt (s.taken + 1)))
      (fun s => s.Lends s.taken) (fun s => s.Lends s.taken) State.Gone where
  startMoment _ h := h.1.alive
  waitsMoment _ h := h.alive
  timer _ _ h := ⟨h.1.exec trivial, h.2⟩
  abort _ h := h.1.exec trivial
  right s pt he h hpt hright := ⟨h.1.exec trivial, h.2 he (by rw [hpt]; rfl) hright⟩
  more _ _ _ h _ _ := h.1.exec trivial
  refused _ _ _ h _ _ := h.1.exec trivial
  skip _ h := h.1
  next _ h := Prog.wpAlong_mono (clientNextTask_alive h.1 h.2)
    fun ok _ _ h' => by cases ok <;> exact h'
  send _ h := Prog.wpAlong_mono (clientSendText_alive h) fun ok _ _ h' => by cases ok <;> exact h'
  hangUp _ h := h
  disconnect _ h := clientDisconnect_alive h

/-- The borrowed bytes are alive at every moment of a step. -/
theorem aliveDuring_of_promptCopied (h : s.Lends s.taken ∨ s.Gone) {step : LifeStep}
    (hprompt : s.PromptCopied step) : s.AliveDuring step := by
  cases step with
  | event i =>
    intro hdeliver
    rcases h with hlends | hgone
    · exact Prog.wpAlong_mono ((alive_outline i.event i.answers).workerHandler
        ⟨hlends, hprompt hdeliver⟩) fun _ _ _ _ => trivial
    · exact absurd hdeliver (hgone.not_deliverable i.event)
  | destroy answers =>
    intro hregistered
    rcases h with hlends | hgone
    · exact Prog.wpAlong_mono (clientDisconnect_alive hlends) fun _ _ _ _ => trivial
    · rw [hgone.interest] at hregistered
      cases hregistered

theorem live_lends (h : s.Lends s.taken ∨ s.Gone) {step : LifeStep}
    (hprompt : s.PromptCopied step) :
    (s.live step).Lends (s.live step).taken ∨ (s.live step).Gone := by
  rcases h with hlends | hgone
  · cases step with
    | event i =>
      by_cases hdeliver : s.Deliverable i.event
      · exact (alive_outline i.event i.answers).serve ⟨hlends, hprompt hdeliver⟩
      · have hlive : s.live (.event i) = s := if_neg hdeliver
        rw [hlive]
        exact .inl hlends
    | destroy answers =>
      by_cases hregistered : s.interest.isSome
      · have hlive : (serverWorkerDestroy.run (exec answers) s).2.Gone := clientDisconnect_gone
        exact .inr (by simpa [State.live, hregistered] using hlive)
      · have hlive : s.live (.destroy answers) = s := if_neg hregistered
        rw [hlive]
        exact .inl hlends
  · rw [hgone.live step]
    exact .inr hgone

/-- What the stream of a client has borrowed is alive at every moment, from the acceptor to the
end of the client, as long as no prompt is borrowed and the acceptor is done before the worker's
first event. -/
theorem borrowsAlive_throughout (ans : Answers) (steps : List LifeStep)
    (hfirst : ans.Creates → ans.Shows → ¬ ans.LendsPrompt 1)
    (hsteps : InputMachine.Meets State.live State.PromptCopied (State.accepted ans) steps) :
    serverMainThreadLoop.wpAlong (exec ans) State.BorrowsAlive (fun _ _ => True) .start ∧
      InputMachine.Meets State.live State.AliveDuring (State.accepted ans) steps := by
  have hloop := serverMainThreadLoop_alive hfirst
  have haccepted : (State.accepted ans).Lends (State.accepted ans).taken ∨
      (State.accepted ans).Gone := (Prog.wp_of_wpAlong hloop).2
  refine ⟨Prog.wpAlong_mono hloop fun _ _ _ _ => trivial, ?_⟩
  exact InputMachine.meets_of_invariant (fun _ _ h hprompt => live_lends h hprompt)
    (fun _ _ h hprompt => aliveDuring_of_promptCopied h hprompt) haccepted hsteps

/-- A client that is sent its question, answers it, and is there when the worker is destroyed. -/
theorem borrowsAlive_timed :
    ((generous.Creates → generous.Shows → ¬ generous.LendsPrompt 1) ∧
      InputMachine.Meets State.live State.PromptCopied (State.accepted generous)
        [.event sendsAll, .event answersRight, .destroy generous]) ∧
    serverMainThreadLoop.wpAlong (exec generous) State.BorrowsAlive (fun _ _ => True) .start ∧
      InputMachine.Meets State.live State.AliveDuring (State.accepted generous)
        [.event sendsAll, .event answersRight, .destroy generous] := by
  have hfirst : generous.Creates → generous.Shows → ¬ generous.LendsPrompt 1 := by decide +kernel
  have hsteps : InputMachine.Meets State.live State.PromptCopied (State.accepted generous)
      [.event sendsAll, .event answersRight, .destroy generous] := by
    refine ⟨?_, ?_, ?_, trivial⟩ <;> decide +kernel
  exact ⟨⟨hfirst, hsteps⟩, borrowsAlive_throughout generous _ hfirst hsteps⟩

/-- A first task without timeout: its prompt is read from an array that is gone. -/
theorem not_borrowsAlive_untimed :
    ¬ serverMainThreadLoop.wpAlong (exec { generous with task := some 0 }) State.BorrowsAlive
      (fun _ _ => True) .start := by
  intro halive
  have hend : (State.accepted { generous with task := some 0 }).BorrowsAlive :=
    (Prog.wp_of_wpAlong halive).1
  revert hend
  decide +kernel

end Qkmetisc.Server
