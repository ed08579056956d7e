import Qkmetisc.Server.Spec

/-!
# A rule for the handler

All branches of `worker_handler` come down to the same few steps: a verdict on the current task,
`client_next_task` after a right one, `client_send_text`, and `client_disconnect` when one of
them asks for it. What these steps do to a property decides what an event does to it.

## Main definitions

* `Outline`: what the steps do to a few properties of the client.

## Main results

* `Outline.workerHandler`, `Outline.serve`: what one event does.
-/

namespace Qkmetisc.Server

/-- The event has the handler check the current task, if there is one. -/
def Event.Checks : Event → Prop
  | .timer _ => True
  | .client ev => ev.input = true

instance (e : Event) : Decidable e.Checks :=
  match e with
  | .timer _ => inferInstanceAs (Decidable True)
  | .client ev => inferInstanceAs (Decidable (ev.input = true))

/-- The steps of the handler, for properties `start` of a client that gets the event, `judged` of
one whose answer was found right, `waits` of one for which the handler goes on, `leaves` of one
that is to be disconnected, and `gone` of one that is gone; `moment` holds on the whole way. -/
structure Outline (e : Event) (ans : Answers)
    (moment start judged waits leaves gone : State → Prop) : Prop where
  startMoment : ∀ s, start s → moment s
  waitsMoment : ∀ s, waits s → moment s
  timer : ∀ s id, start s → start (exec ans (.timerDestroy id) s).2
  abort : ∀ s, start s → waits (exec ans .abort s).2
  right : ∀ s pt, e.Checks → start s → s.currentTask = some pt → plotTaskCheckFd ans = .right →
    judged (exec ans (.plotTaskCheckFd pt) s).2
  more : ∀ s pt, e.Checks → start s → s.currentTask = some pt → plotTaskCheckFd ans = .more →
    waits (exec ans (.plotTaskCheckFd pt) s).2
  refused : ∀ s pt, e.Checks → start s → s.currentTask = some pt → plotTaskCheckFd ans ≠ .right →
    leaves (exec ans (.plotTaskCheckFd pt) s).2
  skip : ∀ s, start s → waits s
  next : ∀ s, judged s → clientNextTask.wpAlong (exec ans) moment
    (fun ok s' => if ok then waits s' else leaves s') s
  send : ∀ s, waits s → clientSendText.wpAlong (exec ans) moment
    (fun ok s' => if ok then waits s' else leaves s') s
  hangUp : ∀ s, waits s → leaves s
  disconnect : ∀ s, leaves s → clientDisconnect.wpAlong (exec ans) moment (fun _ => gone) s

namespace Outline

variable {e : Event} {ans : Answers} {moment start judged waits leaves gone : State → Prop}
variable {s : State}

/-- The branch for `EPOLLIN`. -/
theorem handleInput (h : Outline e ans moment start judged waits leaves gone) (he : e.Checks)
    (hs : start s) :
    WorkerHandler.handleInput.wpAlong (exec ans) moment
      (fun goesOn s' => if goesOn then waits s' else waits s' ∨ gone s') s := by
  unfold WorkerHandler.handleInput
  refine Prog.wpAlong_call (R := fun pt s' => pt = s'.currentTask ∧ start s')
    (h.startMoment s hs) ⟨rfl, hs⟩ fun pt s1 ⟨hpt, h1⟩ => ?_
  cases pt with
  | none => exact ⟨h.startMoment s1 h1, h.skip s1 h1⟩
  | some pt =>
    refine Prog.wpAlong_call (R := fun res s' => res = plotTaskCheckFd ans ∧
      s' = (exec ans (.plotTaskCheckFd pt) s1).2) (h.startMoment s1 h1) ⟨rfl, rfl⟩ ?_
    rintro res _ ⟨hres, rfl⟩
    cases res with
    | wrong =>
      have hwrong : plotTaskCheckFd ans ≠ .right := by simp [← hres]
      exact Prog.wpAlong_seq (h.disconnect _ (h.refused s1 pt he h1 hpt.symm hwrong))
        fun _ _ hm hg => ⟨hm, .inr hg⟩
    | more =>
      have hmore := h.more s1 pt he h1 hpt.symm hres.symm
      exact ⟨h.waitsMoment _ hmore, .inl hmore⟩
    | right =>
      refine Prog.wpAlong_seq (h.next _ (h.right s1 pt he h1 hpt.symm hres.symm))
        fun ok s2 hm2 h2 => ?_
      cases ok with
      | true => exact ⟨hm2, h2⟩
      | false => exact Prog.wpAlong_seq (h.disconnect s2 h2) fun _ _ hm hg => ⟨hm, .inr hg⟩

/-- The branch for `EPOLLOUT`. -/
theorem handleOutput (h : Outline e ans moment start judged waits leaves gone) (hs : waits s) :
    WorkerHandler.handleOutput.wpAlong (exec ans) moment
      (fun goesOn s' => if goesOn then waits s' else gone s') s := by
  unfold WorkerHandler.handleOutput
  refine Prog.wpAlong_seq (h.send s hs) fun ok s1 hm1 h1 => ?_
  cases ok with
  | true => exact ⟨hm1, h1⟩
  | false => exact Prog.wpAlong_seq (h.disconnect s1 h1) fun _ _ hm hg => ⟨hm, hg⟩

/-- From the branch for `EPOLLOUT` on. -/
theorem afterInput (h : Outline e ans moment start judged waits leaves gone) (hs : waits s)
    (ev : Events) :
    (WorkerHandler.afterInput ev).wpAlong (exec ans) moment (fun _ s' => waits s' ∨ gone s')
      s := by
  have houtput : (if ev.output then WorkerHandler.handleOutput else pure true).wpAlong (exec ans)
      moment (fun goesOn s' => if goesOn then waits s' else gone s') s := by
    split
    · exact h.handleOutput hs
    · exact ⟨h.waitsMoment s hs, hs⟩
  unfold WorkerHandler.afterInput
  refine Prog.wpAlong_seq houtput fun goesOn s1 hm1 h1 => ?_
  cases goesOn with
  | false => exact ⟨hm1, .inr h1⟩
  | true =>
    simp only [↓reduceIte]
    split
    · exact Prog.wpAlong_mono (h.disconnect s1 (h.hangUp s1 h1)) fun _ _ _ hg => .inr hg
    · exact ⟨hm1, .inl h1⟩

/-- An expired timer. -/
theorem timerExpired {id : ℕ} (h : Outline (.timer id) ans moment start judged waits leaves gone)
    (hs : start s) :
    (WorkerHandler.timerExpired id).wpAlong (exec ans) moment (fun _ s' => waits s' ∨ gone s')
      s := by
  unfold WorkerHandler.timerExpired
  refine Prog.wpAlong_call (R := fun _ => start) (h.startMoment s hs) (h.timer s id hs)
    fun _ s1 h1 => ?_
  refine Prog.wpAlong_call (R := fun pt s' => pt = s'.currentTask ∧ start s')
    (h.startMoment s1 h1) ⟨rfl, h1⟩ fun pt s2 ⟨hpt, h2⟩ => ?_
  have hm2 := h.startMoment s2 h2
  cases pt with
  | none =>
    have habort := h.abort s2 h2
    exact Prog.wpAlong_perform hm2 (h.waitsMoment _ habort) (.inl habort)
  | some pt =>
    refine Prog.wpAlong_call (R := fun res s' => res = plotTaskCheckFd ans ∧
      s' = (exec ans (.plotTaskCheckFd pt) s2).2) hm2 ⟨rfl, rfl⟩ ?_
    rintro res _ ⟨hres, rfl⟩
    -- all but a right verdict disconnect the client
    by_cases hright : res = .right
    · rw [if_neg (not_not.2 hright)]
      refine Prog.wpAlong_seq (h.next _ (h.right s2 pt trivial h2 hpt.symm
        (hres.symm.trans hright))) fun ok s3 hm3 h3 => ?_
      cases ok with
      | true => exact ⟨hm3, .inl h3⟩
      | false => exact Prog.wpAlong_mono (h.disconnect s3 h3) fun _ _ _ hg => .inr hg
    · rw [if_pos hright]
      have hrefused : plotTaskCheckFd ans ≠ .right := hres ▸ hright
      exact Prog.wpAlong_mono (h.disconnect _ (h.refused s2 pt trivial h2 hpt.symm hrefused))
        fun _ _ _ hg => .inr hg

/-- One event. -/
theorem workerHandler (h : Outline e ans moment start judged waits leaves gone) (hs : start s) :
    (Server.workerHandler e).wpAlong (exec ans) moment (fun _ s' => waits s' ∨ gone s') s := by
  cases e with
  | timer id => exact h.timerExpired hs
  | client ev =>
    have hinput : (if ev.input then WorkerHandler.handleInput else pure true).wpAlong (exec ans)
        moment (fun goesOn s' => if goesOn then waits s' else waits s' ∨ gone s') s := by
      split
      next hin => exact h.handleInput hin hs
      next => exact ⟨h.startMoment s hs, h.skip s hs⟩
    -- reading the event changes nothing
    refine Prog.wpAlong_call (R := fun _ s' => s' = s) (h.startMoment s hs) rfl ?_
    rintro _ _ rfl
    refine Prog.wpAlong_seq hinput fun goesOn s1 hm1 h1 => ?_
    cases goesOn with
    | false => exact ⟨hm1, h1⟩
    | true => exact h.afterInput h1 ev

/-- One step of a run. -/
theorem serve {i : Input} (h : Outline i.event i.answers moment start judged waits leaves gone)
    (hs : start s) : waits (s.serve i) ∨ gone (s.serve i) := by
  unfold State.serve
  split
  · exact (Prog.wp_of_wpAlong (h.workerHandler hs)).2
  · exact .inl (h.skip s hs)

end Outline

end Qkmetisc.Server
