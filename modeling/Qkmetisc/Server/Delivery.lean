import Qkmetisc.Bstream.Exact
import Qkmetisc.Server.HangUp
import Qkmetisc.Server.Life

/-!
# Sending the text of a task

What a client is sent for a task is the text of the question and a prompt, over as many events as
the socket takes. The prompt of a task without timeout is sent with the NUL that ends it in memory,
since its length is taken to be the size of the array.

## Main definitions

* `promptLine`: the prompt as a line of text.
* `State.Delivered`: what has been sent and what is left make up the text, and the question, the
  polling and the timer are as they should be.
* `Answers.Carries`, `State.StartsTimer`: the conditions on the start and on a step.

## Main results

* `clientNextTask_given`, `serve_outcome`: the start, and one event.
* `delivered_throughout_iff`: when the text is delivered.
* `not_delivered_untimed`: a task without timeout.
-/

namespace Qkmetisc.Server

/-- The prompt for the answer to a task with this timeout. -/
def promptLine (timeout : ℕ) : List Char :=
  if timeout ≠ 0 then "\nAnswer (timeout ".toList ++ Nat.toDigits 10 timeout ++ " msec): ".toList
  else "\nAnswer (no timeout): ".toList

/-- What an action writes to the socket. -/
def Action.text : Action → List Char
  | sent cells => cells.map Cell.char
  | _ => []

/-- A timer is armed. -/
def Action.isArmed : Action → Bool
  | armed _ => true
  | _ => false

/-- What has been written to the socket. -/
def sentText (log : List Action) : List Char := (log.reverse.map Action.text).flatten

/-- How many timers have been armed. -/
def timersArmed (log : List Action) : ℕ := log.countP Action.isArmed

/-- How often the question about a task has been destroyed. -/
def timesDestroyed (no : ℕ) (log : List Action) : ℕ := log.count (.freed (.question no))

namespace State

/-- The client has been connected and at the same task since `s₀`. -/
def Stays (s₀ s : State) : Prop := s.interest.isSome ∧ s.taken = s₀.taken

/-- A part of the text is still to be sent. -/
structure Pending (s₀ s : State) : Prop where
  question : s.currentQuestion.isSome
  destroyed : timesDestroyed s₀.taken s.log = timesDestroyed s₀.taken s₀.log
  polls : s.interest = some { input := true, output := true, rdhup := true }
  armed : timersArmed s.log = timersArmed s₀.log

/-- All has been sent. -/
structure Finished (s₀ : State) (timeout : ℕ) (s : State) : Prop where
  question : s.currentQuestion = none
  destroyed : timesDestroyed s₀.taken s.log = timesDestroyed s₀.taken s₀.log + 1
  polls : s.interest = some { input := true, output := false, rdhup := true }
  armed : timersArmed s.log = timersArmed s₀.log + if timeout = 0 then 0 else 1

/-- Since `s₀`, where the client was given the task with its number of tasks, it has been sent a
front part of the text, the rest is in the stream, and what has to be done when all is sent is done
then and not before. -/
structure Delivered (s₀ : State) (text : List Char) (timeout : ℕ) (s : State) : Prop where
  bytes : sentText s.log ++ s.sendStream.content.map Cell.char =
    sentText s₀.log ++ (text ++ promptLine timeout)
  pending : s.sendStream.content ≠ [] → s₀.Pending s
  finished : s.sendStream.content = [] → s₀.Finished timeout s

instance (s₀ s : State) : Decidable (s₀.Stays s) := inferInstanceAs (Decidable (_ ∧ _))

end State

/-- Text and prompt get into the stream as they are: the task has a timeout, the allocations
succeed, and the lengths fit. -/
def Answers.Carries (ans : Answers) (no : ℕ) (text : List Char) (timeout : ℕ) : Prop :=
  timeout ≠ 0 ∧ (text = [] ∨ ans.borrow (Question.cells no text)) ∧ (ans.block 0).isSome ∧
    text.length + (timedPrompt no timeout).length < SIZE_T_RANGE

/-- A timer can be set up. -/
def Answers.SetsTimer (ans : Answers) : Prop :=
  ans.malloc .timer ∧ ans.malloc .timerEvent ∧ ans.timerfd ∧ ans.addTimer

instance (ans : Answers) (no : ℕ) (text : List Char) (timeout : ℕ) :
    Decidable (ans.Carries no text timeout) := inferInstanceAs (Decidable (_ ∧ _ ∧ _ ∧ _))

instance (ans : Answers) : Decidable ans.SetsTimer :=
  inferInstanceAs (Decidable (_ ∧ _ ∧ _ ∧ _))

namespace State

/-- The socket takes what is left of the text, and the client stays. -/
def Completes (s : State) (ev : Events) (ans : Answers) : Prop :=
  ev = { input := false, output := true, rdhup := false } ∧ s.currentQuestion.isSome ∧
    s.sendStream.TakesAll ans.write ∧ ans.mod { input := true, output := false, rdhup := true }

instance (s : State) (ev : Events) (ans : Answers) : Decidable (s.Completes ev ans) :=
  inferInstanceAs (Decidable (_ ∧ _ ∧ _ ∧ _))

/-- When the step sends the last of the text, a timer can be set up. -/
def StartsTimer (s₀ s : State) (i : Input) : Prop :=
  s₀.Stays s → ∀ ev, i.event = .client ev → s.Completes ev i.answers → i.answers.SetsTimer

end State

variable {ans : Answers} {s s' s₀ : State} {text : List Char} {timeout no : ℕ}

/-! ## The log -/

theorem sentText_cons (a : Action) (log : List Action) :
    sentText (a :: log) = sentText log ++ a.text := by
  simp [sentText]

/-! ## What is put into the stream -/

/-- The stream after `client_send_task_text`. -/
def Answers.shownStream (ans : Answers) (no : ℕ) (text : List Char) (timeout : ℕ) : Bstream Cell :=
  let texted := (Bstream.create.writeBorrow (Question.cells no text)
    (ans.borrow (Question.cells no text))).2
  if timeout ≠ 0 then (texted.writeMem (timedPrompt no timeout) ans.block).2
  else (texted.writeBorrow (untimedPrompt no) (ans.borrow (untimedPrompt no))).2

theorem shownStream_exact (ans : Answers) (no : ℕ) (text : List Char) (timeout : ℕ) :
    (ans.shownStream no text timeout).Exact := by
  have htext := Bstream.exact_create.writeBorrow (Question.cells no text)
    (ans.borrow (Question.cells no text))
  unfold Answers.shownStream
  dsimp only
  split
  · exact htext.writeMem_of_full _ _ (Bstream.tailFree_writeBorrow_create _ _)
  · exact htext.writeBorrow _ _

/-- The characters of bytes made from characters. -/
theorem map_char_map (src : Src) (chars : List Char) :
    (chars.map fun char => ({ char, src } : Cell)).map Cell.char = chars := by
  rw [List.map_map]
  exact List.map_id _

theorem length_promptLine_pos (timeout : ℕ) : 0 < (promptLine timeout).length := by
  unfold promptLine
  split <;> simp

/-- A timeout that is an `unsigned long` fits into the buffer of the prompt. -/
theorem map_char_timedPrompt (no : ℕ) (htimeout : timeout ≠ 0) (hlt : timeout < 2 ^ 64) :
    (timedPrompt no timeout).map Cell.char = promptLine timeout := by
  have hdigits : (Nat.toDigits 10 timeout).length ≤ 20 :=
    (Nat.length_toDigits_le_iff (by omega) (by omega)).2 (by omega)
  have hshort : ("\nAnswer (timeout ".toList ++ Nat.toDigits 10 timeout ++
      " msec): ".toList).length ≤ 255 := by
    simp only [List.length_append]
    have hfront : "\nAnswer (timeout ".toList.length = 17 := rfl
    have hback : " msec): ".toList.length = 8 := rfl
    omega
  rw [timedPrompt, promptLine, if_pos htimeout, List.take_of_length_le hshort]
  exact map_char_map _ _

theorem promptLine_zero : promptLine 0 = "\nAnswer (no timeout): ".toList := if_neg fun h => h rfl

/-- The prompt of a task without timeout is followed by a NUL. -/
theorem map_char_untimedPrompt (no : ℕ) :
    (untimedPrompt no).map Cell.char = promptLine 0 ++ ['\x00'] := by
  rw [promptLine_zero]
  exact map_char_map _ _

/-- Whatever is borrowed of the text, such a stream does not hold the prompt as a line. -/
theorem append_untimedPrompt_ne {front prompt : List Char} (hfront : front.length ≤ text.length)
    (hprompt : prompt = promptLine 0 ++ ['\x00'] ∨ prompt = []) :
    front ++ prompt ≠ text ++ promptLine 0 := by
  intro heq
  rcases hprompt with rfl | rfl
  · -- the last characters differ
    have hline : promptLine 0 = "\nAnswer (no timeout):".toList ++ [' '] := promptLine_zero
    rw [hline, ← List.append_assoc, ← List.append_assoc text] at heq
    have hlast := List.append_inj_right' heq rfl
    cases hlast
  · have hlen := congrArg List.length heq
    have hpos := length_promptLine_pos 0
    simp only [List.length_append, List.length_nil] at hlen
    omega

/-- The stream holds the text and the prompt exactly under the condition. -/
theorem content_shownStream_iff (hlt : timeout < 2 ^ 64) :
    (ans.shownStream no text timeout).content.map Cell.char = text ++ promptLine timeout ↔
      ans.Carries no text timeout := by
  have hlen : (Question.cells no text).length = text.length := List.length_map _
  have htext := Bstream.content_writeBorrow Bstream.create (Question.cells no text)
    (ans.borrow (Question.cells no text))
  have hexact := Bstream.exact_create.writeBorrow (Question.cells no text)
    (ans.borrow (Question.cells no text))
  have htotal := hexact.totalLen_eq
  have hfull := Bstream.tailFree_writeBorrow_create (Question.cells no text)
    (ans.borrow (Question.cells no text))
  rw [show (Bstream.create : Bstream Cell).content = [] from rfl, List.nil_append, hlen,
    show (Bstream.create : Bstream Cell).totalLen = 0 from rfl, Nat.zero_add] at htext
  unfold Answers.shownStream
  generalize (Bstream.create.writeBorrow (Question.cells no text)
    (ans.borrow (Question.cells no text))).2 = texted at *
  dsimp only
  split
  next htimed =>
    have hprompt := map_char_timedPrompt no htimed hlt
    have hpos := length_promptLine_pos timeout
    have hplen : (timedPrompt no timeout).length = (promptLine timeout).length := by
      rw [← hprompt, List.length_map]
    have hne : timedPrompt no timeout ≠ [] := List.ne_nil_of_length_pos (by omega)
    have hblock : (timedPrompt no timeout).length ≤ BSTREAM_BUFFER_COPIED_SIZE := by
      simp only [timedPrompt, List.length_map, List.length_take]
      exact (Nat.min_le_left _ _).trans (by decide)
    have hlt255 : (timedPrompt no timeout).length < SIZE_T_RANGE :=
      hblock.trans_lt (by decide)
    rw [Bstream.content_writeMem_of_full texted _ ans.block hfull hne hblock, htotal, htext]
    have hcells : (Question.cells no text).map Cell.char = text := map_char_map _ _
    rw [← hprompt, Answers.Carries, and_iff_right htimed]
    by_cases hborrowed : ans.borrow (Question.cells no text) = true ∧ text.length < SIZE_T_RANGE
    · rw [if_pos hborrowed, hlen, List.map_append, hcells, List.append_cancel_left_eq]
      split
      next hwritten => exact iff_of_true rfl ⟨.inr hborrowed.1, hwritten⟩
      next hnot => exact iff_of_false (by simpa using hne.symm) fun h => hnot h.2
    · -- the text is missing, which only an empty text can be
      rw [if_neg hborrowed, List.length_nil, Nat.zero_add, List.nil_append]
      split
      next hwritten =>
        rw [List.self_eq_append_left]
        constructor
        · rintro rfl
          exact ⟨.inl rfl, hwritten.1, by simpa using hwritten.2⟩
        · rintro ⟨hempty | hborrow, -, hfits⟩
          · exact hempty
          · exact absurd ⟨hborrow, by omega⟩ hborrowed
      next hnot =>
        refine iff_of_false ?_ ?_
        · simpa using fun _ => hne
        · rintro ⟨-, hblocked, hfits⟩
          exact hnot ⟨hblocked, by omega⟩
  next huntimed =>
    rw [not_not] at huntimed
    subst huntimed
    have hnot : ¬ ans.Carries no text 0 := fun h => h.1 rfl
    rw [iff_false_right hnot, Bstream.content_writeBorrow, List.map_append]
    refine append_untimedPrompt_ne ?_ ?_
    · rw [htext, List.length_map]
      split
      · exact hlen.le
      · exact Nat.zero_le _
    · split
      · exact .inl (map_char_untimedPrompt no)
      · exact .inr rfl

/-! ## Giving the task -/

/-- The client has just been given the task with this number. -/
structure State.Given (ans : Answers) (no : ℕ) (text : List Char) (timeout : ℕ) (s : State) :
    Prop where
  interest : s.interest = some { input := true, output := true, rdhup := true }
  task : s.currentTask = some { no, timeout }
  question : s.currentQuestion = some { no, text }
  taken : s.taken = no
  stream : s.sendStream = ans.shownStream no text timeout

/-- The end of `client_next_task`. -/
theorem showTask_given
    (hinterest : s.interest = some { input := true, output := true, rdhup := true })
    (htaken : s.taken = no) (hstream : s.sendStream = Bstream.create) :
    (ClientNextTask.showTask { no, timeout } { no, text }).wp (exec ans)
      (fun _ s' => s'.Given ans no text timeout) s := by
  unfold ClientNextTask.showTask clientSendTaskText
  refine Prog.wp_call (R := fun _ s' => s' = { s with currentTask := some { no, timeout } }) rfl ?_
  rintro _ _ rfl
  refine Prog.wp_call (R := fun _ s' => s' = { s with
    currentTask := some { no, timeout }, currentQuestion := some { no, text } }) rfl ?_
  rintro _ _ rfl
  refine Prog.wp_call (R := fun text' s' => text' = text ∧ s' = { s with
    currentTask := some { no, timeout }, currentQuestion := some { no, text } }) ⟨rfl, rfl⟩ ?_
  rintro text' _ ⟨htext, rfl⟩
  rw [htext]
  -- the rest writes to the stream
  unfold plotTaskGetTimeoutMsec
  dsimp only
  split
  next htimed =>
    refine ⟨hinterest, rfl, rfl, htaken, ?_⟩
    simp [exec, Answers.shownStream, hstream, htimed]
  next huntimed =>
    refine ⟨hinterest, rfl, rfl, htaken, ?_⟩
    simp [exec, Answers.shownStream, hstream, huntimed]

/-- `client_next_task`, when it succeeds. -/
theorem clientNextTask_given (hregistered : s.interest.isSome = true)
    (htask : ans.task = some timeout) (hquestion : ans.question = some text)
    (hmod : ans.mod { input := true, output := true, rdhup := true } = true) :
    clientNextTask.wp (exec ans) (fun _ s' => s'.Given ans (s.taken + 1) text timeout) s := by
  have hkeep : ∀ o s', (o = .getCurrentTask ∨ ∃ no, o = .free (.task no)) →
      s'.sendStream = Bstream.create ∧ s'.interest = s.interest ∧ s'.taken = s.taken →
      (exec ans o s').2.sendStream = Bstream.create ∧ (exec ans o s').2.interest = s.interest ∧
        (exec ans o s').2.taken = s.taken := by
    rintro o s' (rfl | ⟨no, rfl⟩) hs'
    · exact hs'
    · exact hs'
  unfold clientNextTask
  refine Prog.wp_call (R := fun _ s' => s'.sendStream = Bstream.create ∧ s'.interest = s.interest ∧
    s'.taken = s.taken) ⟨rfl, rfl, rfl⟩ fun _ s1 h1 => ?_
  refine Prog.wp_seq ((destroyCurrentTask_every (.inl rfl) fun no => .inr ⟨no, rfl⟩).wp hkeep h1)
    fun _ s2 h2 => ?_
  refine Prog.wp_call (R := fun _ s' => s'.sendStream = Bstream.create ∧ s'.interest = s.interest ∧
    s'.taken = s.taken) h2 fun _ s3 ⟨hstream3, hin3, ht3⟩ => ?_
  refine Prog.wp_call (R := fun pt s' => pt = some { no := s.taken + 1, timeout } ∧
    s'.sendStream = Bstream.create ∧ s'.interest = s.interest ∧ s'.taken = s.taken + 1) ?_ ?_
  · simp only [exec, htask, ← ht3]
    exact ⟨rfl, hstream3, hin3, rfl⟩
  rintro _ s4 ⟨rfl, hstream4, hin4, ht4⟩
  refine Prog.wp_call (R := fun q s' => q = some { no := s.taken + 1, text } ∧
    s'.sendStream = Bstream.create ∧ s'.interest = s.interest ∧ s'.taken = s.taken + 1) ?_ ?_
  · simp only [exec, hquestion]
    exact ⟨trivial, hstream4, hin4, ht4⟩
  rintro _ s5 ⟨rfl, hstream5, hin5, ht5⟩
  refine Prog.wp_call (R := fun ok s' => ok = true ∧ s'.sendStream = Bstream.create ∧
    s'.interest = some { input := true, output := true, rdhup := true } ∧
    s'.taken = s.taken + 1) ?_ ?_
  · simp only [exec, hin5, hregistered, hmod, Bool.and_true, ↓reduceIte]
    exact ⟨trivial, hstream5, trivial, ht5⟩
  rintro _ s6 ⟨rfl, hstream6, hin6, ht6⟩
  exact showTask_given hin6 ht6 hstream6

/-! ## One event -/

/-- Nothing has happened that matters to what is sent for the task, but that some timers were
armed. -/
structure State.Idles (no n : ℕ) (s s' : State) : Prop where
  stream : s'.sendStream = s.sendStream
  task : s'.currentTask = s.currentTask
  question : s'.currentQuestion = s.currentQuestion
  interest : s'.interest = s.interest
  taken : s'.taken = s.taken
  text : sentText s'.log = sentText s.log
  destroyed : timesDestroyed no s'.log = timesDestroyed no s.log
  armed : timersArmed s'.log = timersArmed s.log + n

theorem State.Idles.refl (no : ℕ) (s : State) : s.Idles no 0 s :=
  ⟨rfl, rfl, rfl, rfl, rfl, rfl, rfl, rfl⟩

/-- The action neither writes, nor destroys a question, nor arms a timer. -/
def Action.Silent : Action → Prop
  | sent _ | freed (.question _) | armed _ => False
  | _ => True

theorem State.Idles.observe {n : ℕ} (h : s.Idles no n s') {a : Action} (ha : a.Silent) :
    s.Idles no n (s'.observe a) := by
  obtain ⟨htext, hdestroyed, harmed⟩ :
      a.text = [] ∧ a ≠ .freed (.question no) ∧ a.isArmed = false := by
    cases a with
    | sent cells | armed id => exact ha.elim
    | freed x =>
      cases x with
      | question no => exact ha.elim
      | _ => simp [Action.text, Action.isArmed]
    | _ => simp [Action.text, Action.isArmed]
  refine ⟨h.stream, h.task, h.question, h.interest, h.taken, ?_, ?_, ?_⟩
  · rw [State.observe, sentText_cons, htext, List.append_nil, h.text]
  · rw [State.observe, timesDestroyed, List.count_cons_of_ne hdestroyed]
    exact h.destroyed
  · rw [State.observe, timersArmed, List.countP_cons_of_neg (by simp [harmed])]
    exact h.armed

theorem State.Idles.arm (h : s.Idles no 0 s') : s.Idles no 1 s'.arm := by
  refine ⟨h.stream, h.task, h.question, h.interest, h.taken, ?_, ?_, ?_⟩
  · rw [State.arm, State.observe, sentText_cons]
    exact (List.append_nil _).trans h.text
  · rw [State.arm, State.observe, timesDestroyed, List.count_cons_of_ne (by simp)]
    exact h.destroyed
  · rw [State.arm, State.observe, timersArmed, List.countP_cons_of_pos rfl]
    exact congrArg (· + 1) h.armed

/-- `client_timer_setup`: a timer is armed exactly if all its calls succeed. -/
theorem clientTimerSetup_arms (msecTimeout : ℕ) :
    (clientTimerSetup msecTimeout).wp (exec ans)
      (fun _ s' => s.Idles no (if ans.SetsTimer then 1 else 0) s') s := by
  have hfail {s' : State} (hnot : ¬ ans.SetsTimer) (h : s.Idles no 0 s') :
      s.Idles no (if ans.SetsTimer then 1 else 0) s' := by
    rwa [if_neg hnot]
  have hfree {s' : State} (h : s.Idles no 0 s') (x : Obj) (hx : (Action.freed x).Silent) :
      s.Idles no 0 (exec ans (.free x) s').2 := h.observe hx
  unfold clientTimerSetup
  refine Prog.wp_call (R := fun ok s' => ok = ans.malloc .timer ∧ s.Idles no 0 s')
    ⟨rfl, .refl no s⟩ fun ok s1 ⟨htimer, h1⟩ => ?_
  cases ok with
  | false => exact hfail (fun h => by simp [h.1] at htimer) h1
  | true =>
    refine Prog.wp_call (R := fun ok s' => ok = ans.malloc .timerEvent ∧ s.Idles no 0 s')
      ⟨rfl, h1⟩ fun ok s2 ⟨hevent, h2⟩ => ?_
    cases ok with
    | false => exact hfail (fun h => by simp [h.2.1] at hevent) (hfree h2 .timer trivial)
    | true =>
      refine Prog.wp_call (R := fun ok s' => ok = ans.timerfd ∧ s.Idles no 0 s')
        ⟨rfl, h2⟩ fun ok s3 ⟨hfd, h3⟩ => ?_
      cases ok with
      | false =>
        exact hfail (fun h => by simp [h.2.2.1] at hfd)
          (hfree (hfree h3 .timerEvent trivial) .timer trivial)
      | true =>
        refine Prog.wp_call (R := fun ok s' => ok = ans.addTimer ∧ s.Idles no 0 s')
          ⟨rfl, h3⟩ fun ok s4 ⟨hadd, h4⟩ => ?_
        cases ok with
        | false =>
          exact hfail (fun h => by simp [h.2.2.2] at hadd)
            (hfree (hfree h4 .timerEvent trivial) .timer trivial)
        | true =>
          have hsets : ans.SetsTimer := ⟨htimer.symm, hevent.symm, hfd.symm, hadd.symm⟩
          show s.Idles no (if ans.SetsTimer then 1 else 0) s4.arm
          rw [if_pos hsets]
          exact h4.arm

/-- The last of the text has been sent, and some timers were armed. -/
structure State.Sent (no n : ℕ) (s s' : State) : Prop where
  stream : s'.sendStream.content = []
  exact : s'.sendStream.Exact
  task : s'.currentTask = s.currentTask
  question : s'.currentQuestion = none
  interest : s'.interest = some { input := true, output := false, rdhup := true }
  taken : s'.taken = s.taken
  text : sentText s'.log = sentText s.log ++ s.sendStream.content.map Cell.char
  destroyed : timesDestroyed no s'.log = timesDestroyed no s.log + 1
  armed : timersArmed s'.log = timersArmed s.log + n

theorem State.Sent.idles {n : ℕ} {s'' : State} (h : s.Sent no 0 s') (hidles : s'.Idles no n s'') :
    s.Sent no n s'' where
  stream := by rw [hidles.stream, h.stream]
  exact := hidles.stream ▸ h.exact
  task := hidles.task.trans h.task
  question := hidles.question.trans h.question
  interest := hidles.interest.trans h.interest
  taken := hidles.taken.trans h.taken
  text := hidles.text.trans h.text
  destroyed := hidles.destroyed.trans h.destroyed
  armed := by rw [hidles.armed, h.armed, Nat.add_zero]

/-- The end of `client_send_text`. -/
theorem startTimer_arms (htask : s.currentTask = some { no, timeout }) (htimeout : timeout ≠ 0) :
    startTimer.wp (exec ans) (fun _ s' => s.Idles no (if ans.SetsTimer then 1 else 0) s') s := by
  unfold startTimer
  refine Prog.wp_call (R := fun pt s' => pt = some { no, timeout } ∧ s' = s) ⟨htask, rfl⟩
    fun pt s1 ⟨hpt, hs1⟩ => ?_
  rw [hpt, hs1]
  simp only [plotTaskGetTimeoutMsec, ne_eq, htimeout, not_false_eq_true, ↓reduceIte]
  exact Prog.wp_seq (clientTimerSetup_arms timeout) fun _ _ h => h

/-- What `client_send_text` can do: nothing, or send a part, or send the rest. -/
theorem clientSendText_cases (hexact : s.sendStream.Exact) (hregistered : s.interest.isSome = true)
    (htask : s.currentTask = some { no, timeout }) (htimeout : timeout ≠ 0)
    (hquestion : ∀ q, s.currentQuestion = some q → q.no = no) :
    clientSendText.wp (exec ans) (fun ok s' =>
      ok = true ∧ s.currentQuestion = none ∧ s' = s ∨
      ok = true ∧ s.currentQuestion.isSome ∧ ¬ s.sendStream.TakesAll ans.write ∧
        s' = (s.send ans.write s.sendStream.len).2 ∨
      ok = true ∧ s.currentQuestion.isSome ∧ s.sendStream.TakesAll ans.write ∧
        ans.mod { input := true, output := false, rdhup := true } ∧
          s.Sent no (if ans.SetsTimer then 1 else 0) s' ∨
      ok = false ∧ s.currentQuestion.isSome ∧ s.sendStream.TakesAll ans.write ∧
        ¬ ans.mod { input := true, output := false, rdhup := true }) s := by
  unfold clientSendText
  refine Prog.wp_call (R := fun q s' => q = s.currentQuestion ∧ s' = s) ⟨rfl, rfl⟩
    fun q s1 ⟨hq, hs1⟩ => ?_
  rw [hs1]
  cases q with
  | none => exact .inl ⟨rfl, hq.symm, rfl⟩
  | some q =>
    have hsome : s.currentQuestion.isSome = true := by rw [← hq]; rfl
    refine Prog.wp_call (R := fun len s' => len = s.sendStream.len ∧ s' = s) ⟨rfl, rfl⟩
      fun len s2 ⟨hlen, hs2⟩ => ?_
    rw [hlen, hs2]
    refine Prog.wp_call (R := fun _ s' => s' = (s.send ans.write s.sendStream.len).2) rfl
      fun _ s3 hs3 => ?_
    have hempty : s3.sendStream.len = 0 ↔ s.sendStream.TakesAll ans.write := by
      rw [← (hexact.readFd_content_eq_nil_iff ans.write), hs3]
      exact ((hexact.readFd ans.write s.sendStream.len).content_eq_nil_iff).symm
    refine Prog.wp_call (R := fun left s' => left = s3.sendStream.len ∧ s' = s3) ⟨rfl, rfl⟩
      fun left s4 ⟨hleft, hs4⟩ => ?_
    rw [hs4]
    split
    next hzero =>
      have htakes := hempty.1 (hleft.symm.trans hzero)
      have hnone : s3.sendStream.content = [] := by
        rw [hs3]
        exact (hexact.readFd_content_eq_nil_iff ans.write).2 htakes
      have hall : (s.sendStream.readFd ans.write s.sendStream.len).2.2 = s.sendStream.content := by
        have hsplit := (Bstream.readFd_spec hexact.valid ans.write s.sendStream.len).2
        rwa [(hexact.readFd_content_eq_nil_iff ans.write).2 htakes, List.append_nil] at hsplit
      refine Prog.wp_call (R := fun q' s' => q' = some q ∧ s' = s3) ⟨?_, rfl⟩
        fun q' s5 ⟨hq', hs5⟩ => ?_
      · rw [hs3, hq]
        rfl
      rw [hq', hs5, questionDestroy]
      have hno : q.no = no := hquestion q hq.symm
      -- the question is destroyed and forgotten
      refine Prog.wp_call (R := fun _ s' => s' = s3.observe (.freed (.question no))) (hno ▸ rfl)
        fun _ s6 hs6 => ?_
      refine Prog.wp_call (R := fun _ s' => s' = { s6 with currentQuestion := none }) rfl
        fun _ s7 hs7 => ?_
      refine Prog.wp_call (R := fun ok s' =>
        ok = ans.mod { input := true, output := false, rdhup := true } ∧
        (ok = true → s' = { s7 with
          interest := some { input := true, output := false, rdhup := true } })) ?_
        fun ok s8 ⟨hok, hs8⟩ => ?_
      · have hin : s7.interest.isSome = true := by
          rw [hs7, hs6, hs3]
          exact hregistered
        simp only [exec, hin, Bool.true_and]
        split <;> simp_all
      cases ok with
      | false =>
        exact .inr (.inr (.inr ⟨rfl, hsome, htakes, by simp [← hok]⟩))
      | true =>
        have hsent : s.Sent no 0 s8 := by
          rw [hs3] at hnone hs6
          rw [hs8 rfl, hs7, hs6]
          refine ⟨hnone, hexact.readFd _ _, rfl, rfl, rfl, rfl, ?_, ?_, ?_⟩
          · rw [← hall]
            simp [State.observe, State.send, sentText_cons, Action.text]
          · simp [State.observe, State.send, timesDestroyed]
          · simp [State.observe, State.send, timersArmed, Action.isArmed]
        refine Prog.wp_seq (startTimer_arms (hsent.task.trans htask) htimeout) fun _ s9 h9 => ?_
        exact .inr (.inr (.inl ⟨rfl, hsome, htakes, hok.symm, hsent.idles h9⟩))
    next hrest =>
      exact .inr (.inl ⟨rfl, hsome, fun htakes => hrest (hleft.trans (hempty.2 htakes)), hs3⟩)

/-- A client that is at the task it was given in `s₀`, which has this timeout. -/
structure State.Showing (s₀ : State) (timeout : ℕ) (s : State) : Prop where
  stays : s₀.Stays s
  exact : s.sendStream.Exact
  task : s.currentTask = some { no := s₀.taken, timeout }
  question : ∀ q, s.currentQuestion = some q → q.no = s₀.taken

/-- The client has been moved on or disconnected since `s₀`. -/
def State.Past (s₀ s : State) : Prop := s₀.taken < s.taken ∨ s.Gone

theorem State.Past.not_stays (h : s₀.Past s) : ¬ s₀.Stays s := by
  rintro ⟨hin, htaken⟩
  rcases h with hlt | hgone
  · omega
  · rw [hgone.interest] at hin
    cases hin

/-- There is no way back. -/
theorem State.Past.serve (h : s₀.Past s) (i : Input) : s₀.Past (s.serve i) := by
  rcases h with hlt | hgone
  · unfold State.serve
    split
    · have hle : s.taken ≤ ((workerHandler i.event).run (exec i.answers) s).2.taken :=
        run_taken i.answers _ s
      exact .inl (hlt.trans_le hle)
    · exact .inl hlt
  · rw [hgone.serve i]
    exact .inr hgone

/-- `client_next_task` succeeds with another task taken. -/
theorem clientNextTask_taken :
    clientNextTask.wp (exec ans) (fun ok s' => ok = true → s.taken < s'.taken) s := by
  have hkeep : ∀ o s', (o = .getCurrentTask ∨ ∃ no, o = .free (.task no)) → s'.taken = s.taken →
      (exec ans o s').2.taken = s.taken := by
    rintro o s' (rfl | ⟨no, rfl⟩) hs'
    · exact hs'
    · exact hs'
  unfold clientNextTask
  refine Prog.wp_call (R := fun _ s' => s'.taken = s.taken) rfl fun _ s1 h1 => ?_
  refine Prog.wp_seq ((destroyCurrentTask_every (.inl rfl) fun no => .inr ⟨no, rfl⟩).wp hkeep h1)
    fun _ s2 h2 => ?_
  refine Prog.wp_call (R := fun _ s' => s'.taken = s.taken) h2 fun _ s3 h3 => ?_
  refine Prog.wp_call (R := fun pt s' => pt.isSome → s.taken < s'.taken) ?_ fun pt s4 h4 => ?_
  · simp only [exec]
    cases ans.task with
    | none => exact fun hnone => absurd hnone Bool.false_ne_true
    | some timeout => exact fun _ => h3 ▸ Nat.lt_succ_self s3.taken
  cases pt with
  | none => exact fun hfalse => absurd hfalse Bool.false_ne_true
  | some pt =>
    -- from here on the number does not go down
    exact Prog.wp_mono (run_taken ans _ s4) fun _ _ hle _ => (h4 rfl).trans_le hle

/-- What an event can do to a client that is at its task. -/
inductive State.Outcome (s₀ s : State) (e : Event) (ans : Answers) (s' : State) : Prop
  /-- The client is moved on or disconnected. -/
  | left (hleft : s₀.Past s') (hnot : ∀ ev, e = .client ev → ¬ s.Completes ev ans)
  /-- Nothing happens to the text. -/
  | idle (hidles : s.Idles s₀.taken 0 s') (hnot : ∀ ev, e = .client ev → ¬ s.Completes ev ans)
  /-- A part of the text is sent. -/
  | part (hquestion : s.currentQuestion.isSome) (htakes : ¬ s.sendStream.TakesAll ans.write)
      (hsent : s' = (s.send ans.write s.sendStream.len).2)
  /-- The rest of the text is sent. -/
  | rest {ev : Events} (hevent : e = .client ev) (hcompletes : s.Completes ev ans)
      (hsent : s.Sent s₀.taken (if ans.SetsTimer then 1 else 0) s')

/-- An event that is not a mere `EPOLLOUT` does not complete the text. -/
theorem not_completes_of_ne {ev : Events}
    (hev : ev ≠ { input := false, output := true, rdhup := false }) :
    ∀ ev', Event.client ev = .client ev' → ¬ s.Completes ev' ans := by
  rintro ev' hev' hcompletes
  cases hev'
  exact hev hcompletes.1

/-- An expired timer. -/
theorem timerExpired_leaves {id : ℕ} (h : s₀.Showing timeout s) :
    (WorkerHandler.timerExpired id).wp (exec ans) (fun _ => s₀.Past) s := by
  unfold WorkerHandler.timerExpired
  refine Prog.wp_call (R := fun _ s' => s'.currentTask = s.currentTask ∧ s'.taken = s.taken)
    ⟨rfl, rfl⟩ fun _ s1 ⟨htask1, ht1⟩ => ?_
  refine Prog.wp_call (R := fun pt s' => pt = some { no := s₀.taken, timeout } ∧ s' = s1)
    ⟨htask1.trans h.task, rfl⟩ fun pt s2 ⟨hpt, hs2⟩ => ?_
  rw [hpt, hs2]
  refine Prog.wp_call (R := fun _ s' => s'.taken = s.taken) ht1 fun res s3 ht3 => ?_
  have hdisconnect (s' : State) : clientDisconnect.wp (exec ans) (fun _ => s₀.Past) s' :=
    Prog.wp_mono clientDisconnect_gone fun _ _ hgone => .inr hgone
  split
  · exact hdisconnect s3
  · refine Prog.wp_seq clientNextTask_taken fun ok s4 h4 => ?_
    cases ok with
    | true =>
      have hlt : s₀.taken < s4.taken := by
        rw [← h.stays.2, ← ht3]
        exact h4 rfl
      exact .inl hlt
    | false => exact hdisconnect s4

/-- The branch for `EPOLLIN`. -/
theorem handleInput_cases (h : s₀.Showing timeout s) :
    WorkerHandler.handleInput.wp (exec ans) (fun goesOn s' =>
      if goesOn then s₀.taken < s'.taken else s'.Gone ∨ s.Idles s₀.taken 0 s') s := by
  unfold WorkerHandler.handleInput
  refine Prog.wp_call (R := fun pt s' => pt = some { no := s₀.taken, timeout } ∧ s' = s)
    ⟨h.task, rfl⟩ fun pt s1 ⟨hpt, hs1⟩ => ?_
  rw [hpt, hs1]
  refine Prog.wp_call (R := fun _ s' => s.Idles s₀.taken 0 s')
    ((State.Idles.refl s₀.taken s).observe trivial) fun res s2 h2 => ?_
  cases res with
  | wrong => exact Prog.wp_seq clientDisconnect_gone fun _ _ hgone => .inl hgone
  | more => exact .inr h2
  | right =>
    refine Prog.wp_seq clientNextTask_taken fun ok s3 h3 => ?_
    cases ok with
    | true =>
      show s₀.taken < s3.taken
      rw [← h.stays.2, ← h2.taken]
      exact h3 rfl
    | false => exact Prog.wp_seq clientDisconnect_gone fun _ _ hgone => .inl hgone

/-- From the branch for `EPOLLOUT` on. -/
theorem afterInput_outcome (h : s₀.Showing timeout s) (htimeout : timeout ≠ 0) {ev : Events}
    (hin : ev.input = false) :
    (WorkerHandler.afterInput ev).wp (exec ans)
      (fun _ s' => s₀.Outcome s (.client ev) ans s') s := by
  have hwithout (hnone : s.currentQuestion = none) (ev' : Events) :
      Event.client ev = .client ev' → ¬ s.Completes ev' ans := by
    intro _ hcompletes
    have hsome := hcompletes.2.1
    rw [hnone] at hsome
    cases hsome
  have houtput : (if ev.output then WorkerHandler.handleOutput else pure true).wp (exec ans)
      (fun goesOn s' => if goesOn then ev.rdhup = false → s₀.Outcome s (.client ev) ans s'
        else s₀.Outcome s (.client ev) ans s') s := by
    split
    next hout =>
      unfold WorkerHandler.handleOutput
      refine Prog.wp_seq (clientSendText_cases h.exact h.stays.1 h.task htimeout h.question)
        fun ok s1 h1 => ?_
      rcases h1 with ⟨rfl, hnone, rfl⟩ | ⟨rfl, hsome, htakes, hs1⟩ |
        ⟨rfl, hsome, htakes, hmod, hsent⟩ | ⟨rfl, hsome, htakes, hmod⟩
      · exact fun _ => .idle (.refl _ _) (hwithout hnone)
      · exact fun _ => .part hsome htakes hs1
      · intro hrdhup
        have hev : ev = { input := false, output := true, rdhup := false } := by
          cases ev
          simp_all
        exact .rest rfl ⟨hev, hsome, htakes, hmod⟩ hsent
      · refine Prog.wp_seq clientDisconnect_gone fun _ _ hgone => .left (.inr hgone) ?_
        exact fun _ _ hcompletes => hmod hcompletes.2.2.2
    next hnot =>
      refine fun _ => .idle (.refl _ _) (not_completes_of_ne ?_)
      rintro rfl
      exact hnot rfl
  unfold WorkerHandler.afterInput
  refine Prog.wp_seq houtput fun goesOn s1 h1 => ?_
  cases goesOn with
  | false => exact h1
  | true =>
    simp only [↓reduceIte]
    split
    next hrdhup =>
      refine Prog.wp_mono clientDisconnect_gone fun _ _ hgone => .left (.inr hgone)
        (not_completes_of_ne ?_)
      rintro rfl
      cases hrdhup
    next hrdhup => exact h1 (by simpa using hrdhup)

/-- One event. -/
theorem serve_outcome (h : s₀.Showing timeout s) (htimeout : timeout ≠ 0) (i : Input) :
    s₀.Outcome s i.event i.answers (s.serve i) := by
  obtain ⟨e, ans⟩ := i
  by_cases hdeliver : s.Deliverable e
  · have hserve : s.serve { event := e, answers := ans } =
        ((workerHandler e).run (exec ans) s).2 := if_pos hdeliver
    rw [hserve]
    cases e with
    | timer id => exact .left (timerExpired_leaves h) fun _ hev => by cases hev
    | client ev =>
      have hhandler : (workerHandler (.client ev)).wp (exec ans)
          (fun _ s' => s₀.Outcome s (.client ev) ans s') s := by
        refine Prog.wp_call (R := fun _ s' => s' = s) rfl fun _ s1 hs1 => ?_
        rw [hs1]
        cases hin : ev.input with
        | false => exact afterInput_outcome h htimeout hin
        | true =>
          have hnot : ∀ ev', Event.client ev = .client ev' → ¬ s.Completes ev' ans := by
            refine not_completes_of_ne ?_
            rintro rfl
            cases hin
          refine Prog.wp_seq (handleInput_cases h) fun goesOn s2 h2 => ?_
          cases goesOn with
          | true =>
            -- the client is at another task already
            exact Prog.wp_mono (run_taken ans _ s2) fun _ _ hle =>
              .left (.inl (h2.trans_le hle)) hnot
          | false =>
            rcases h2 with hgone | hidles
            · exact .left (.inr hgone) hnot
            · exact .idle hidles hnot
      exact hhandler
  · have hserve : s.serve { event := e, answers := ans } = s := if_neg hdeliver
    rw [hserve]
    refine .idle (.refl _ _) fun ev hev _ => hdeliver ?_
    cases hev
    exact h.stays.1

/-! ## Whole runs -/

/-- The client is at the task it was given in `s₀`, or past it. -/
def State.AtTask (s₀ : State) (timeout : ℕ) (s : State) : Prop := s₀.Showing timeout s ∨ s₀.Past s

/-- A client that stays has been sent what it should have. -/
def State.DeliveredIfStays (s₀ : State) (text : List Char) (timeout : ℕ) (s : State) : Prop :=
  s₀.Stays s → s₀.Delivered text timeout s

namespace State

/-- Where nothing happens to the text, the delivery stays right. -/
theorem Delivered.idles (h : s₀.Delivered text timeout s) (hidles : s.Idles s₀.taken 0 s') :
    s₀.Delivered text timeout s' where
  bytes := by
    rw [hidles.text, hidles.stream]
    exact h.bytes
  pending hleft := by
    rw [hidles.stream] at hleft
    have hpending := h.pending hleft
    exact ⟨by rw [hidles.question, hpending.question], hidles.destroyed.trans hpending.destroyed,
      hidles.interest.trans hpending.polls, hidles.armed.trans hpending.armed⟩
  finished hnone := by
    rw [hidles.stream] at hnone
    have hfinished := h.finished hnone
    exact ⟨hidles.question.trans hfinished.question,
      hidles.destroyed.trans hfinished.destroyed, hidles.interest.trans hfinished.polls,
      hidles.armed.trans hfinished.armed⟩

/-- Where a part of the text is sent, the delivery stays right. -/
theorem Delivered.part (h : s₀.Delivered text timeout s) (hexact : s.sendStream.Exact)
    (htakes : ¬ s.sendStream.TakesAll ans.write) :
    s₀.Delivered text timeout (s.send ans.write s.sendStream.len).2 := by
  have hsplit := (Bstream.readFd_spec hexact.valid ans.write s.sendStream.len).2
  have hrest : (s.sendStream.readFd ans.write s.sendStream.len).2.1.content ≠ [] :=
    fun hnone => htakes ((hexact.readFd_content_eq_nil_iff ans.write).1 hnone)
  have hleft : s.sendStream.content ≠ [] := by
    rw [← hsplit]
    exact List.append_ne_nil_of_right_ne_nil _ hrest
  have hpending := h.pending hleft
  refine ⟨?_, fun _ => ⟨hpending.question, ?_, hpending.polls, ?_⟩, fun hnone => absurd hnone hrest⟩
  · rw [← h.bytes, ← hsplit]
    simp [send, observe, sentText_cons, Action.text]
  · rw [← hpending.destroyed]
    simp [send, observe, timesDestroyed]
  · rw [← hpending.armed]
    simp [send, observe, timersArmed, Action.isArmed]

/-- Where the rest of the text is sent, all is right exactly if the timer is started. -/
theorem Delivered.rest_iff (h : s₀.Delivered text timeout s) (htimeout : timeout ≠ 0)
    (hquestion : s.currentQuestion.isSome) {n : ℕ} (hsent : s.Sent s₀.taken n s') :
    s₀.Delivered text timeout s' ↔ n = 1 := by
  have hleft : s.sendStream.content ≠ [] := by
    intro hnone
    rw [(h.finished hnone).question] at hquestion
    cases hquestion
  have hpending := h.pending hleft
  have harmed : timersArmed s'.log = timersArmed s₀.log + n := by
    rw [hsent.armed, hpending.armed]
  constructor
  · intro hdelivered
    have hone := (hdelivered.finished hsent.stream).armed
    rw [if_neg htimeout] at hone
    omega
  · rintro rfl
    refine ⟨?_, fun hleft' => absurd hsent.stream hleft', fun _ => ⟨hsent.question, ?_,
      hsent.interest, ?_⟩⟩
    · rw [hsent.text, hsent.stream, ← h.bytes]
      exact List.append_nil _
    · rw [hsent.destroyed, hpending.destroyed]
    · rw [harmed, if_neg htimeout]

end State

theorem serve_atTask (h : s₀.AtTask timeout s) (htimeout : timeout ≠ 0) (i : Input) :
    s₀.AtTask timeout (s.serve i) := by
  rcases h with hshowing | hpast
  · obtain ⟨⟨hin, htaken⟩, hexact, htask, hquestion⟩ := hshowing
    cases serve_outcome ⟨⟨hin, htaken⟩, hexact, htask, hquestion⟩ htimeout i with
    | left hpast _ => exact .inr hpast
    | idle hidles _ =>
      refine .inl ⟨⟨hidles.interest ▸ hin, hidles.taken.trans htaken⟩, hidles.stream ▸ hexact,
        hidles.task.trans htask, fun q hq => hquestion q (hidles.question ▸ hq)⟩
    | part hsome htakes hsent =>
      rw [hsent]
      exact .inl ⟨⟨hin, htaken⟩, hexact.readFd _ _, htask, hquestion⟩
    | rest hevent hcompletes hsent =>
      refine .inl ⟨⟨by rw [hsent.interest]; rfl, hsent.taken.trans htaken⟩, hsent.exact,
        hsent.task.trans htask, fun q hq => ?_⟩
      rw [hsent.question] at hq
      cases hq
  · exact .inr (hpast.serve i)

/-- One event keeps the delivery right exactly if the timer is started. -/
theorem serve_delivered_iff (htimeout : timeout ≠ 0) (s : State) (i : Input)
    (h : s₀.AtTask timeout s ∧ s₀.DeliveredIfStays text timeout s) :
    (s₀.AtTask timeout (s.serve i) ∧ s₀.DeliveredIfStays text timeout (s.serve i)) ↔
      s₀.StartsTimer s i := by
  obtain ⟨hat, hdelivered⟩ := h
  have hat' := serve_atTask hat htimeout i
  rw [and_iff_right hat']
  rcases hat with hshowing | hpast
  · have hnow := hdelivered hshowing.stays
    cases serve_outcome hshowing htimeout i with
    | left hpast hnot =>
      exact iff_of_true (fun hstays => absurd hstays hpast.not_stays) fun _ ev hev hcompletes =>
        absurd hcompletes (hnot ev hev)
    | idle hidles hnot =>
      exact iff_of_true (fun _ => hnow.idles hidles) fun _ ev hev hcompletes =>
        absurd hcompletes (hnot ev hev)
    | part hsome htakes hsent =>
      refine iff_of_true (fun _ => ?_) fun _ ev _ hcompletes => absurd hcompletes.2.2.1 htakes
      rw [hsent]
      exact hnow.part hshowing.exact htakes
    | rest hevent hcompletes hsent =>
      have hstays' : s₀.Stays (s.serve i) :=
        ⟨by rw [hsent.interest]; rfl, hsent.taken.trans hshowing.stays.2⟩
      have hiff := hnow.rest_iff htimeout hcompletes.2.1 hsent
      constructor
      · intro hdelivered' _ _ _ _
        by_contra hnot
        rw [if_neg hnot] at hiff
        exact absurd (hiff.1 (hdelivered' hstays')) (by omega)
      · intro hstarts _
        have hsets := hstarts hshowing.stays _ hevent hcompletes
        rw [if_pos hsets] at hiff
        exact hiff.2 rfl
  · refine iff_of_true (fun hstays => ?_) fun hstays => ?_
    · exact absurd hstays (hpast.serve i).not_stays
    · exact absurd hstays hpast.not_stays

/-- The client right after it was given a task. -/
theorem State.Given.showing (h : s.Given ans no text timeout) : s.Showing timeout s := by
  refine ⟨⟨by rw [h.interest]; rfl, rfl⟩, ?_, ?_, fun q hq => ?_⟩
  · rw [h.stream]
    exact shownStream_exact ans no text timeout
  · rw [h.task, h.taken]
  · rw [h.question, Option.some.injEq] at hq
    rw [← hq, h.taken]

/-- Right after the task was given, nothing has been sent, and the stream decides. -/
theorem State.Given.delivered_iff (h : s.Given ans no text timeout) (hlt : timeout < 2 ^ 64) :
    s.Delivered text timeout s ↔ ans.Carries no text timeout := by
  rw [← content_shownStream_iff hlt, ← h.stream]
  constructor
  · exact fun hdelivered => List.append_cancel_left hdelivered.bytes
  · intro hcontent
    refine ⟨congrArg _ hcontent, fun _ => ⟨by rw [h.question]; rfl, rfl, h.interest, rfl⟩,
      fun hnone => ?_⟩
    rw [hnone] at hcontent
    have hlen := congrArg List.length hcontent
    have hpos := length_promptLine_pos timeout
    simp only [List.map_nil, List.length_nil, List.length_append] at hlen
    omega

/-- After `client_next_task` has given a registered client a task with any text and any timeout,
the text and the prompt line are sent as they should be in every state of every run in which the
client stays, exactly if the stream could take them and a timer could be set up when the last of
them was sent. -/
theorem delivered_throughout_iff (s : State) (ans : Answers) (text : List Char) (timeout : ℕ)
    (hregistered : s.interest.isSome = true) (htask : ans.task = some timeout)
    (hquestion : ans.question = some text)
    (hmod : ans.mod { input := true, output := true, rdhup := true } = true)
    (hlt : timeout < 2 ^ 64) (inputs : List Input) :
    InputMachine.Always State.serve
        (State.DeliveredIfStays (clientNextTask.run (exec ans) s).2 text timeout)
        (clientNextTask.run (exec ans) s).2 inputs ↔
      ans.Carries (s.taken + 1) text timeout ∧
        InputMachine.Meets State.serve (State.StartsTimer (clientNextTask.run (exec ans) s).2)
          (clientNextTask.run (exec ans) s).2 inputs := by
  have hgiven : (clientNextTask.run (exec ans) s).2.Given ans (s.taken + 1) text timeout :=
    clientNextTask_given hregistered htask hquestion hmod
  generalize (clientNextTask.run (exec ans) s).2 = s₀ at hgiven
  have hstart := hgiven.delivered_iff hlt
  by_cases hcarries : ans.Carries (s.taken + 1) text timeout
  · have htimeout := hcarries.1
    rw [and_iff_right hcarries]
    have hfirst : s₀.AtTask timeout s₀ ∧ s₀.DeliveredIfStays text timeout s₀ :=
      ⟨.inl hgiven.showing, fun _ => hstart.2 hcarries⟩
    rw [← InputMachine.always_iff_meets (serve_delivered_iff htimeout) inputs hfirst]
    have hat : InputMachine.Always State.serve (s₀.AtTask timeout) s₀ inputs :=
      InputMachine.always_of_step (fun _ i h => serve_atTask h htimeout i) inputs hfirst.1
    exact ⟨fun h => hat.and State.serve h, fun h => h.mono State.serve fun _ hs => hs.2⟩
  · -- the first state is not right already
    refine iff_of_false (fun halways => hcarries ?_) fun h => hcarries h.1
    have hfirst : s₀.DeliveredIfStays text timeout s₀ := by
      cases inputs with
      | nil => exact halways
      | cons i inputs => exact halways.1
    exact hstart.1 (hfirst hgiven.showing.stays)

/-- A client that has been created and has no task yet. -/
def created : State := (clientCreate.run (exec generous) .start).2

/-- A text that takes two events to be sent. -/
theorem delivered_two_events :
    InputMachine.Always State.serve (State.DeliveredIfStays
        (clientNextTask.run (exec generous) created).2 ['1', '+', '1'] 30000)
      (clientNextTask.run (exec generous) created).2 [takes 2, takes 4096] := by
  refine (delivered_throughout_iff created generous ['1', '+', '1'] 30000 (by decide +kernel) rfl
    rfl rfl (by decide) [takes 2, takes 4096]).2 ⟨by decide +kernel, ?_, ?_, trivial⟩
  · exact fun _ _ _ _ => by decide
  · exact fun _ _ _ _ => by decide

/-- A task without timeout: a NUL is sent after the prompt. -/
theorem not_delivered_untimed :
    ¬ InputMachine.Always State.serve (State.DeliveredIfStays
        (clientNextTask.run (exec { generous with task := some 0 }) created).2 ['1', '+', '1'] 0)
      (clientNextTask.run (exec { generous with task := some 0 }) created).2 [takes 4096] := by
  intro halways
  have hbytes := (halways.last State.serve (by decide +kernel)).bytes
  revert hbytes
  decide +kernel

end Qkmetisc.Server
