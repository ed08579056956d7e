import Qkmetisc.Server.Handler
import Qkmetisc.Server.Life

/-!
# The descriptor of a connection

The acceptor closes the descriptor of a connection that could not be added, and so does
`client_disconnect`. `server_worker_add_client` gives the same result whether it has disconnected
the client again or has never had one, so the descriptor is closed twice when the client was
created but could not be given its first task. In all other cases it is closed once, when the
client leaves the ring.

## Main definitions

* `State.ClosedOnce`: the descriptor is closed, once, exactly if the client is not in the ring.

## Main results

* `serverMainThreadLoop_closes`, `live_inRing`: adding a client, and one step in its life.
* `closedOnce_throughout_iff`: when the descriptor of a connection is closed once.
* `not_closedOnce_first_task`: a plot that cannot give a first task.
-/

namespace Qkmetisc.Server

namespace State

/-- The descriptor is open while the client is in the worker's ring, and has been closed exactly
once when it is not. -/
def ClosedOnce (s : State) : Prop :=
  s.log.count .closed = if s.interest.isSome then 0 else 1

instance (s : State) : Decidable s.ClosedOnce := inferInstanceAs (Decidable (_ = _))

/-- The client is in the ring, and its descriptor is open. -/
structure InRing (s : State) : Prop where
  registered : s.interest.isSome
  isOpen : s.log.count .closed = 0

/-- The client is not in the ring, and its descriptor has been closed `n` times. -/
structure Left (n : ℕ) (s : State) : Prop where
  gone : s.Gone
  closed : s.log.count .closed = n

theorem InRing.closedOnce {s : State} (h : s.InRing) : s.ClosedOnce := by
  rw [ClosedOnce, h.isOpen, if_pos h.registered]

theorem left_closedOnce_iff {s : State} {n : ℕ} (h : s.Left n) : s.ClosedOnce ↔ n = 1 := by
  simp [ClosedOnce, h.gone.interest, h.closed]

end State

variable {ans : Answers} {s : State}

/-- An operation that leaves the socket alone keeps a client in the ring. -/
theorem exec_inRing (ans : Answers) {o : Op} (ho : o.KeepsSocket) (h : s.InRing) :
    (exec ans o s).2.InRing :=
  ⟨(exec_keepsSocket ans s ho).1.trans h.registered,
    (exec_keepsSocket ans s ho).2.trans h.isOpen⟩

theorem wp_inRing {α : Type} {p : Program α} (hp : p.Every Op.KeepsSocket) (h : s.InRing) :
    p.wp (exec ans) (fun _ => State.InRing) s :=
  hp.wp (fun _ _ => exec_inRing ans) h

/-! ## Disconnecting -/

/-- `client_disconnect` closes the descriptor once. -/
theorem clientDisconnect_left {n : ℕ} (h : s.log.count .closed = n) :
    clientDisconnect.wp (exec ans) (fun _ => State.Left (n + 1)) s := by
  have hcount : clientDisconnect.wp (exec ans) (fun _ s' => s'.log.count .closed = n + 1) s := by
    unfold clientDisconnect ClientDisconnect.release
    refine Prog.wp_call (R := fun _ s' => s'.log.count .closed = n) ?_ fun _ s1 h1 => ?_
    · simpa [exec, State.observe] using h
    refine Prog.wp_call (R := fun _ s' => s'.log.count .closed = n + 1) ?_ fun _ s2 h2 => ?_
    · simp [exec, State.observe, h1]
    -- the rest does not touch the socket
    exact Prog.wp_mono (wp_keepsSocket (release_rest_every.mono fun _ => Op.Releasing.keepsSocket))
      fun _ _ h3 => h3.2.trans h2
  exact Prog.wp_mono (Prog.wp_and clientDisconnect_gone hcount)
    fun _ _ hboth => ⟨hboth.1, hboth.2⟩

/-! ## Adding -/

/-- `client_create` puts the client into the ring, or nowhere, and leaves the descriptor open. -/
theorem clientCreate_inRing (h : s.Left 0) :
    clientCreate.wp (exec ans) (fun ok s' => if ok then s'.InRing else s'.Left 0) s := by
  unfold clientCreate
  refine Prog.wp_call (R := fun _ => State.Left 0) h fun ok s1 h1 => ?_
  cases ok with
  | false => exact h1
  | true =>
    refine Prog.wp_call (R := fun _ => State.Left 0) h1 fun ok s2 h2 => ?_
    have hfree {s : State} (hs : s.Left 0) (x : Obj) : (exec ans (.free x) s).2.Left 0 :=
      ⟨⟨hs.gone.interest, hs.gone.timers⟩, by simpa [exec, State.observe] using hs.closed⟩
    -- what the labels at the end free is not the socket
    cases ok with
    | false => exact hfree h2 .client
    | true =>
      refine Prog.wp_call (R := fun _ => State.Left 0)
        ⟨⟨h2.gone.interest, h2.gone.timers⟩, h2.closed⟩ fun ok s3 h3 => ?_
      cases ok with
      | false => exact hfree (hfree h3 .plot) .client
      | true =>
        refine Prog.wp_call (R := fun _ => State.Left 0) ⟨⟨h3.gone.interest, rfl⟩, h3.closed⟩
          fun _ s4 h4 => ?_
        refine Prog.wp_call (R := fun _ => State.Left 0) h4 fun ok s5 h5 => ?_
        cases ok with
        | false => exact hfree (hfree (hfree h5 .stream) .plot) .client
        | true =>
          refine Prog.wp_call (R := fun ok s' => if ok then s'.InRing else s'.Left 0) ?_
            fun ok s6 h6 => ?_
          · simp only [exec]
            split
            · exact ⟨rfl, by simpa [State.observe] using h5.closed⟩
            · exact h5
          cases ok with
          | false => exact hfree (hfree (hfree (hfree h6 .event) .stream) .plot) .client
          | true => exact h6

/-- `server_worker_add_client`: the client is in the ring, or was never created, or has been
disconnected again; the last two give the same result. -/
theorem serverWorkerAddClient_closes (h : s.Left 0) :
    serverWorkerAddClient.wp (exec ans) (fun ok s' =>
      if ok then s'.InRing ∧ (ans.Creates → ans.Shows)
      else if ans.Creates then s'.Left 1 ∧ ¬ ans.Shows else s'.Left 0) s := by
  unfold serverWorkerAddClient
  refine Prog.wp_seq (Prog.wp_and (clientCreate_inRing h) clientCreate_result)
    fun ok s1 h1 => ?_
  obtain ⟨h1, hcreates⟩ := h1
  cases ok with
  | false =>
    have hnot : ¬ ans.Creates := fun hc => Bool.false_ne_true (hcreates.2 hc)
    simpa [Prog.wp, hnot] using h1
  | true =>
    have hc : ans.Creates := hcreates.1 rfl
    obtain ⟨hregistered, hopen⟩ := h1
    refine Prog.wp_seq (Prog.wp_and (wp_inRing (clientNextTask_every.mono fun _ =>
      Op.Advancing.keepsSocket) ⟨hregistered, hopen⟩) (clientNextTask_result hregistered))
      fun ok s2 h2 => ?_
    obtain ⟨h2, hshows⟩ := h2
    cases ok with
    | true => exact ⟨h2, fun _ => hshows.1 rfl⟩
    | false =>
      refine Prog.wp_seq (clientDisconnect_left h2.isOpen) fun _ s3 h3 => ?_
      have hnot : ¬ ans.Shows := fun hs => Bool.false_ne_true (hshows.2 hs)
      simpa [Prog.wp, hc, hnot] using h3

/-- The acceptor closes the descriptor of a client that was not added, whether or not that has
been done already. -/
theorem serverMainThreadLoop_closes (h : s.Left 0) :
    serverMainThreadLoop.wp (exec ans) (fun _ s' =>
      if ans.Creates → ans.Shows then s'.InRing ∨ s'.Left 1 else s'.Left 2) s := by
  unfold serverMainThreadLoop
  refine Prog.wp_seq (serverWorkerAddClient_closes h) fun ok s1 h1 => ?_
  cases ok with
  | true =>
    obtain ⟨hring, hcond⟩ := h1
    show if ans.Creates → ans.Shows then _ else _
    rw [if_pos hcond]
    exact .inl hring
  | false =>
    have hclose {n : ℕ} (hs : s1.Left n) : (exec ans .closeSocket s1).2.Left (n + 1) :=
      ⟨⟨hs.gone.interest, hs.gone.timers⟩, by simp [exec, State.observe, hs.closed]⟩
    show if ans.Creates → ans.Shows then _ else _
    by_cases hc : ans.Creates
    · obtain ⟨hleft, hnot⟩ : s1.Left 1 ∧ ¬ ans.Shows := by simpa [hc] using h1
      rw [if_neg fun hcond => hnot (hcond hc)]
      exact hclose hleft
    · have hleft : s1.Left 0 := by simpa [hc] using h1
      rw [if_pos fun h => absurd h hc]
      exact .inr (hclose hleft)

/-! ## Events and the end of the worker -/

/-- The steps of the handler leave the client in the ring, or close its descriptor once. -/
theorem inRing_outline (e : Event) (ans : Answers) :
    Outline e ans (fun _ => True) State.InRing State.InRing State.InRing State.InRing
      (State.Left 1) where
  startMoment _ _ := trivial
  waitsMoment _ _ := trivial
  timer _ _ h := exec_inRing ans trivial h
  abort _ h := exec_inRing ans trivial h
  right _ _ _ h _ _ := exec_inRing ans trivial h
  more _ _ _ h _ _ := exec_inRing ans trivial h
  refused _ _ _ h _ _ := exec_inRing ans trivial h
  skip _ h := h
  next _ h := Prog.wpAlong_true.2 <| Prog.wp_mono (wp_inRing (clientNextTask_every.mono fun _ =>
    Op.Advancing.keepsSocket) h) fun ok _ h' => by cases ok <;> exact h'
  send _ h := Prog.wpAlong_true.2 <| Prog.wp_mono (wp_inRing (clientSendText_every.mono fun _ =>
    Op.Sending.keepsSocket) h) fun ok _ h' => by cases ok <;> exact h'
  hangUp _ h := h
  disconnect _ h := Prog.wpAlong_true.2 (clientDisconnect_left h.isOpen)

/-- A step in the life of a client in the ring. -/
theorem live_inRing (h : s.InRing) (step : LifeStep) :
    (s.live step).InRing ∨ (s.live step).Left 1 := by
  cases step with
  | event i => exact (inRing_outline i.event i.answers).serve h
  | destroy answers =>
    have hleft : (serverWorkerDestroy.run (exec answers) s).2.Left 1 :=
      clientDisconnect_left h.isOpen
    exact .inr (by simpa [State.live, h.registered] using hleft)

/-- The descriptor of an accepted connection is closed once, whatever fails while the client is
added and whatever happens to it later, exactly if no client is created that cannot be given its
first task. -/
theorem closedOnce_throughout_iff (ans : Answers) (steps : List LifeStep) :
    InputMachine.Always State.live State.ClosedOnce (State.accepted ans) steps ↔
      (ans.Creates → ans.Shows) := by
  have hstart : State.start.Left 0 := ⟨⟨rfl, rfl⟩, rfl⟩
  have haccepted : if ans.Creates → ans.Shows then
      (State.accepted ans).InRing ∨ (State.accepted ans).Left 1
      else (State.accepted ans).Left 2 := serverMainThreadLoop_closes hstart
  constructor
  · -- a descriptor closed twice by the acceptor is so from the start
    intro halways
    by_contra hnot
    rw [if_neg hnot] at haccepted
    have hfirst : (State.accepted ans).ClosedOnce := by
      cases steps with
      | nil => exact halways
      | cons step steps => exact halways.1
    rw [State.left_closedOnce_iff haccepted] at hfirst
    cases hfirst
  · intro hcond
    rw [if_pos hcond] at haccepted
    have hstep : ∀ (s : State) (step : LifeStep), s.InRing ∨ s.Left 1 →
        (s.live step).InRing ∨ (s.live step).Left 1 := by
      rintro s step (hring | hleft)
      · exact live_inRing hring step
      · rw [hleft.gone.live step]
        exact .inr hleft
    refine (InputMachine.always_of_step hstep steps haccepted).mono State.live fun s h => ?_
    exact h.elim State.InRing.closedOnce fun hleft => (State.left_closedOnce_iff hleft).2 rfl

/-- A plot that has no first task to give. -/
theorem not_closedOnce_first_task :
    ¬ InputMachine.Always State.live State.ClosedOnce
      (State.accepted { generous with task := none }) [] := by
  have hlog : ¬ (State.accepted { generous with task := none }).ClosedOnce := by decide +kernel
  exact hlog

end Qkmetisc.Server
