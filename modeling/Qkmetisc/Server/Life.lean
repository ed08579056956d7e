import Qkmetisc.Server.Spec

/-!
# The life of a client

From the acceptor thread, which has accepted a connection and looks for a worker, to the worker's
events and the end of the server. The chain of calls that adds a client reaches from `server.c`
over `server_worker_pool.c` to `server_worker.c`.

## Main definitions

* `serverMainThreadLoop`: what the acceptor does with an accepted connection.
* `serverWorkerDestroy`: what the end of a worker does to a client.
* `LifeStep`, `State.live`: one step in the life of a client.

## Main results

* `clientCreate_result`, `clientNextTask_result`: when a client is created, and when it gets a
  task.
* `exec_keepsSocket`: operations that concern neither the registration nor the socket.
-/

namespace Qkmetisc.Server

/-- `server_worker_pool_add_client`. It chooses a worker first, and all workers run the same
code. -/
def serverWorkerPoolAddClient : Program Bool := serverWorkerAddClient

/-- The body of the loop of `server_main_thread_loop`, from where `accept` has returned the
descriptor of a connection. -/
def serverMainThreadLoop : Program Unit := do
  if ← serverWorkerPoolAddClient then return ()
  else perform .closeSocket

/-- What `server_worker_destroy` does to a client in the worker's ring. -/
def serverWorkerDestroy : Program Unit := clientDisconnect

/-- The client after the acceptor is done with it. -/
def State.accepted (ans : Answers) : State := (serverMainThreadLoop.run (exec ans) .start).2

/-- What can happen to a client once the acceptor is done with it. -/
inductive LifeStep where
  /-- The worker handles an event. -/
  | event (i : Input)
  /-- The worker is destroyed. -/
  | destroy (answers : Answers)

/-- The client after a step. A worker that is destroyed has only the clients in its ring. -/
def State.live (s : State) : LifeStep → State
  | .event i => s.serve i
  | .destroy answers =>
    if s.interest.isSome then (serverWorkerDestroy.run (exec answers) s).2 else s

/-- The allocations and calls of `client_create` succeed. -/
def Answers.Creates (ans : Answers) : Prop :=
  ans.malloc .client ∧ ans.construct ∧ ans.stream ∧ ans.malloc .event ∧ ans.add

instance (ans : Answers) : Decidable ans.Creates :=
  inferInstanceAs (Decidable (_ ∧ _ ∧ _ ∧ _ ∧ _))

/-- The calls of `client_next_task` succeed. -/
def Answers.Shows (ans : Answers) : Prop :=
  ans.task.isSome ∧ ans.question.isSome ∧ ans.mod { input := true, output := true, rdhup := true }

instance (ans : Answers) : Decidable ans.Shows := inferInstanceAs (Decidable (_ ∧ _ ∧ _))

variable {ans : Answers} {o : Op} {s : State}

/-- Nothing happens to a client that is gone. -/
theorem State.Gone.live (h : s.Gone) (step : LifeStep) : s.live step = s := by
  cases step with
  | event i => exact h.serve i
  | destroy answers => exact if_neg (by simp [h.interest])

/-! ## Operations that leave the socket alone -/

/-- The operation neither registers the client, nor ends its registration, nor closes its
socket. -/
def Op.KeepsSocket : Op → Prop
  | register _ | deregister | closeSocket => False
  | _ => True

theorem Op.Advancing.keepsSocket (h : o.Advancing) : o.KeepsSocket := by
  cases o with
  | register ev | deregister | closeSocket => exact h
  | _ => trivial

theorem Op.Sending.keepsSocket (h : o.Sending) : o.KeepsSocket := by
  cases o with
  | register ev | deregister | closeSocket => exact h
  | _ => trivial

theorem Op.Releasing.keepsSocket (h : o.Releasing) : o.KeepsSocket := by
  cases o with
  | register ev | deregister | closeSocket => exact h
  | _ => trivial

/-- Such an operation keeps the client where it is and does not log a `close`. -/
theorem exec_keepsSocket (ans : Answers) (s : State) (h : o.KeepsSocket) :
    (exec ans o s).2.interest.isSome = s.interest.isSome ∧
      (exec ans o s).2.log.count .closed = s.log.count .closed := by
  cases o with
  | plotGetTask | plotTaskGetQuestion pt =>
    simp only [exec]
    split <;> simp [State.take, State.observe]
  | epollMod ev =>
    simp only [exec]
    split <;> simp_all
  | free x | plotTaskCheckFd pt | readFd len | armTimer msec | timerDestroy id | abort =>
    simp [exec, State.observe, State.send, State.arm]
  | register ev | deregister | closeSocket => exact h.elim
  | _ => exact ⟨rfl, rfl⟩

/-- The same for a program all of whose operations are such. -/
theorem wp_keepsSocket {α : Type} {p : Program α} (h : p.Every Op.KeepsSocket) :
    p.wp (exec ans) (fun _ s' => s'.interest.isSome = s.interest.isSome ∧
      s'.log.count .closed = s.log.count .closed) s :=
  h.wp (fun _ s1 ho h1 => ⟨(exec_keepsSocket ans s1 ho).1.trans h1.1,
    (exec_keepsSocket ans s1 ho).2.trans h1.2⟩) ⟨rfl, rfl⟩

/-! ## The results of adding -/

/-- `client_create` succeeds exactly if the calls it makes do. -/
theorem clientCreate_result :
    clientCreate.wp (exec ans) (fun ok _ => ok = true ↔ ans.Creates) s := by
  have hfail (hnot : ¬ ans.Creates) : false = true ↔ ans.Creates := by simp [hnot]
  unfold clientCreate
  -- the five calls that can fail, in the order of the source
  refine Prog.wp_call (R := fun ok _ => ok = ans.malloc .client) rfl fun ok s1 hclient => ?_
  cases ok with
  | false => exact hfail fun h => by simp [h.1] at hclient
  | true =>
    refine Prog.wp_call (R := fun ok _ => ok = ans.construct) rfl fun ok s2 hplot => ?_
    cases ok with
    | false => exact hfail fun h => by simp [h.2.1] at hplot
    | true =>
      refine Prog.wp_call (R := fun ok _ => ok = ans.stream) rfl fun ok s3 hstream => ?_
      cases ok with
      | false => exact hfail fun h => by simp [h.2.2.1] at hstream
      | true =>
        refine Prog.wp_skip (p := perform .initClient) fun _ s4 => ?_
        refine Prog.wp_call (R := fun ok _ => ok = ans.malloc .event) rfl fun ok s5 hevent => ?_
        cases ok with
        | false => exact hfail fun h => by simp [h.2.2.2.1] at hevent
        | true =>
          refine Prog.wp_call (R := fun ok _ => ok = ans.add) ?_ fun ok s6 hadd => ?_
          · simp only [exec]
            split <;> simp_all
          cases ok with
          | false => exact hfail fun h => by simp [h.2.2.2.2] at hadd
          | true => exact ⟨fun _ => ⟨hclient.symm, hplot.symm, hstream.symm, hevent.symm,
              hadd.symm⟩, fun _ => rfl⟩

/-- Once the registration has been modified, nothing can fail. -/
theorem showTask_result (newTask : Task) (q : Question) :
    (ClientNextTask.showTask newTask q).wp (exec ans) (fun ok _ => ok = true) s :=
  Prog.wp_skip fun _ _ => Prog.wp_skip fun _ _ => Prog.wp_skip fun _ _ =>
    Prog.wp_skip fun _ _ => rfl

/-- `client_next_task` of a registered client succeeds exactly if the calls it makes do. -/
theorem clientNextTask_result (hregistered : s.interest.isSome) :
    clientNextTask.wp (exec ans) (fun ok _ => ok = true ↔ ans.Shows) s := by
  have hfail (hnot : ¬ ans.Shows) : false = true ↔ ans.Shows := by simp [hnot]
  have hkeep : ∀ o s1, Op.KeepsSocket o → s1.interest.isSome = true →
      (exec ans o s1).2.interest.isSome = true :=
    fun _ s1 ho h1 => (exec_keepsSocket ans s1 ho).1.trans h1
  unfold clientNextTask
  refine Prog.wp_call (R := fun _ s' => s'.interest.isSome = true) hregistered fun _ s1 h1 => ?_
  refine Prog.wp_seq ((destroyCurrentTask_every trivial fun _ => trivial).wp hkeep h1)
    fun _ s2 h2 => ?_
  refine Prog.wp_call (R := fun _ s' => s'.interest.isSome = true) h2 fun _ s3 h3 => ?_
  -- each of the three calls decides, once those before it have succeeded
  refine Prog.wp_call (R := fun pt s' => pt.isSome = ans.task.isSome ∧ s'.interest.isSome = true)
    ⟨?_, hkeep .plotGetTask s3 trivial h3⟩ fun pt s4 h4 => ?_
  · simp only [exec]
    split <;> simp [*]
  obtain ⟨htask, h4⟩ := h4
  cases pt with
  | none => exact hfail fun h => by simp [h.1] at htask
  | some pt =>
    refine Prog.wp_call (R := fun q s' => q.isSome = ans.question.isSome ∧
      s'.interest.isSome = true) ⟨?_, hkeep (.plotTaskGetQuestion pt) s4 trivial h4⟩
      fun q s5 h5 => ?_
    · simp only [exec]
      split <;> simp [*]
    obtain ⟨hquestion, h5⟩ := h5
    cases q with
    | none => exact hfail fun h => by simp [h.2.1] at hquestion
    | some q =>
      refine Prog.wp_call
        (R := fun ok _ => ok = ans.mod { input := true, output := true, rdhup := true })
        ?_ fun ok s6 hmod => ?_
      · simp only [exec, h5, Bool.true_and]
        split <;> simp_all
      cases ok with
      | true =>
        refine Prog.wp_mono (showTask_result pt q) ?_
        rintro _ _ rfl
        exact ⟨fun _ => ⟨htask.symm, hquestion.symm, hmod.symm⟩, fun _ => rfl⟩
      | false => exact hfail fun h => by simp [h.2.2] at hmod

end Qkmetisc.Server
