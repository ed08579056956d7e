import Qkmetisc.Foundations.LeastLoaded
import Qkmetisc.Server.ClientLives

/-!
# The clients of a pool of workers (`server_worker_pool.c`)

The workers of a pool, each with its clients, its thread and the events it handles. The acceptor
gives every new client to a worker with the fewest clients. A call that adds one runs to its end
before anything else happens, while the threads of the workers may do anything between two calls,
and so clients may leave then.

## Main definitions

* `Pool`: the workers.
* `Pool.laziestWorker`, `Pool.addClient`: `server_worker_pool_add_client`.
* `Pool.Move`, `Pool.step`: the steps.
* `Pool.Spreads`, `Pool.NoneLeaves`: what a call does to the counters, and a step in which no client
  leaves.

## Main results

* `ServerWorker.exists_moves`: a call that runs to its end is a run of the steps of a worker.
* `Pool.Inv.callSpreads`: a call gives its client to a worker with the fewest.
* `Pool.spreads_and_near`: the same over runs, with the counters differing by at most one where no
  client leaves.
-/

namespace Qkmetisc.Server

open LeastLoaded

theorem Op.Releasing.unlocked {o : Op} (h : o.Releasing) : o.locked = false := by
  cases o with
  | register ev | deregister => exact h.elim
  | _ => rfl

namespace ServerWorker

variable {w : ServerWorker} {c : ℕ} {o : Op} {x : Option Job}

/-! ## A call that runs to its end -/

/-- The acceptor has got a connection for the worker. -/
def accepted (w : ServerWorker) (sockfd : Sockfd) : ServerWorker :=
  { w with
    clientsMade := w.clientsMade + 1
    sockfd := Function.update w.sockfd w.clientsMade sockfd }

/-- What the acceptor is busy with changes nothing for an operation. -/
theorem exec_acceptor (ans : Answers) :
    exec c ans o { w with acceptor := x } =
      ((exec c ans o w).1, { (exec c ans o w).2 with acceptor := x }) := by
  cases o with
  | register ev =>
    by_cases hadd : ans.add <;> simp [exec, target, link, Server.exec, view, put, hadd]
  | _ => rfl

variable {α : Type} (p : Program α) (ans : Answers)

theorem run_acceptor (w : ServerWorker) :
    p.run (exec c ans) { w with acceptor := x } =
      ((p.run (exec c ans) w).1, { (p.run (exec c ans) w).2 with acceptor := x }) := by
  induction p generalizing w with
  | ret a => rfl
  | call o k ih =>
    rw [Prog.run_call, Prog.run_call, exec_acceptor]
    exact ih _ _

theorem advance_acceptor (w : ServerWorker) :
    p.advance (exec c ans) Op.locked { w with acceptor := x } =
      ((p.advance (exec c ans) Op.locked w).1,
        { (p.advance (exec c ans) Op.locked w).2 with acceptor := x }) := by
  induction p generalizing w with
  | ret a => rfl
  | call o k ih =>
    unfold Prog.advance
    split
    next => rw [exec_acceptor]
    next =>
      rw [exec_acceptor]
      exact ih _ _

/-- The steps of the acceptor take a call from its first pause to its end. -/
theorem exists_acceptor_steps (p : Program Unit) (w : ServerWorker) :
    ∃ k, InputMachine.run step
        { (w.advance ⟨c, p, ans⟩).2 with acceptor := (w.advance ⟨c, p, ans⟩).1 }
        (List.replicate k .acceptor) =
      { (p.run (exec c ans) w).2 with acceptor := none } := by
  -- on the program, which pauses after every locked section
  induction p generalizing w with
  | ret a => exact ⟨0, rfl⟩
  | call o k ih =>
    obtain ⟨n, hn⟩ := ih (exec c ans o w).1 (exec c ans o w).2
    by_cases hlocked : o.locked = true
    · have hpause : w.advance ⟨c, .call o k, ans⟩ =
          (if (k (exec c ans o w).1).Returned then none
            else some ⟨c, k (exec c ans o w).1, ans⟩, (exec c ans o w).2) := by
        simp [advance, Prog.advance, hlocked]
      rw [hpause]
      by_cases hreturned : (k (exec c ans o w).1).Returned
      · -- the call ends right after the section
        refine ⟨0, ?_⟩
        rw [Prog.run_call]
        rcases hk : k (exec c ans o w).1 with a | ⟨o', k'⟩
        · simp [Prog.Returned, Prog.next?]
        · simp [Prog.Returned, Prog.next?, hk] at hreturned
      · refine ⟨n + 1, ?_⟩
        rw [if_neg hreturned, List.replicate_succ, InputMachine.run_cons, Prog.run_call, ← hn]
        simp only [step, advance, advance_acceptor]
    · have hgo : w.advance ⟨c, .call o k, ans⟩ =
          (exec c ans o w).2.advance ⟨c, k (exec c ans o w).1, ans⟩ := by
        simp [advance, Prog.advance, hlocked]
      rw [hgo]
      exact ⟨n, hn⟩

/-- A connection taken on by an idle acceptor, and handled to the end. -/
theorem exists_moves (hidle : w.acceptor = none) {sockfd : Sockfd} (hunused : w.Unused sockfd) :
    ∃ k, InputMachine.run step w (.accept sockfd ans :: List.replicate k .acceptor) =
      (serverMainThreadLoop.run (exec w.clientsMade ans) (w.accepted sockfd)).2 := by
  obtain ⟨k, hk⟩ := exists_acceptor_steps (c := w.clientsMade) ans serverMainThreadLoop
    (w.accepted sockfd)
  have haccept : w.step (.accept sockfd ans) =
      { w.accepted sockfd with
        acceptor := some ⟨w.clientsMade, serverMainThreadLoop, ans⟩ } := by
    simp [step, hidle, hunused, accepted]
  have hsame : w.accepted sockfd = { w.accepted sockfd with acceptor := none } := by
    simp [accepted, hidle]
  refine ⟨k + 1, ?_⟩
  rw [InputMachine.run_cons, haccept, List.replicate_succ, InputMachine.run_cons]
  conv_rhs => rw [hsame, run_acceptor]
  rw [← hk]
  simp only [step, advance, advance_acceptor]

/-! ## The counter -/

/-- `server_worker_get_clients_nr`. -/
def serverWorkerGetClientsNr (w : ServerWorker) : ℕ := w.clientsNr.toNat

/-- The ring and the counter are the same. -/
def SameRing (w w' : ServerWorker) : Prop :=
  w'.clients = w.clients ∧ w'.clientsNr = w.clientsNr

/-- The ring and the counter with one more client, if it has been added. -/
def AddedRing (w : ServerWorker) (c : ℕ) (ok : Bool) (w' : ServerWorker) : Prop :=
  if ok = true then w'.clients = w.clients ++ [c] ∧ w'.clientsNr = w.clientsNr + 1
  else w.SameRing w'

theorem exec_sameRing {w' : ServerWorker} (ho : o.locked = false) (h : w.SameRing w') :
    w.SameRing (exec c ans o w').2 := by
  cases o with
  | register ev | deregister => cases ho
  | _ => exact h

/-- Without a locked section the ring and the counter stay the same. -/
theorem wp_sameRing {w' : ServerWorker} {p : Program α} (hp : p.Every fun o => o.locked = false)
    (h : w.SameRing w') : p.wp (exec c ans) (fun _ w'' => w.SameRing w'') w' :=
  hp.wp (fun _ _ ho h => exec_sameRing ans ho h) h

/-- A program that fails without a locked section adds no client. -/
theorem wp_failed {w' : ServerWorker} {p : Program Bool}
    (hp : p.Every fun o => o.locked = false) (hfalse : (p.run (exec c ans) w').1 = false)
    (h : w.SameRing w') : p.wp (exec c ans) (fun ok w'' => w.AddedRing c ok w'') w' := by
  unfold Prog.wp
  rw [hfalse]
  exact wp_sameRing ans hp h

/-- `client_create` puts the client into the ring and counts it exactly if it succeeds. -/
theorem clientCreate_ring (w : ServerWorker) :
    clientCreate.wp (exec c ans) (fun ok w' => w.AddedRing c ok w') w := by
  unfold clientCreate
  refine Prog.wp_call (R := fun _ w' => w.SameRing w')
    (exec_sameRing ans rfl ⟨rfl, rfl⟩) fun ok w₁ h₁ => ?_
  cases ok with
  | false => exact h₁
  | true =>
    refine Prog.wp_call (R := fun _ w' => w.SameRing w') (exec_sameRing ans rfl h₁)
      fun ok w₂ h₂ => ?_
    cases ok with
    | false => exact wp_failed ans ⟨rfl, fun _ => trivial⟩ rfl h₂
    | true =>
      refine Prog.wp_call (R := fun _ w' => w.SameRing w') (exec_sameRing ans rfl h₂)
        fun ok w₃ h₃ => ?_
      cases ok with
      | false => exact wp_failed ans ⟨rfl, fun _ => ⟨rfl, fun _ => trivial⟩⟩ rfl h₃
      | true =>
        refine Prog.wp_call (R := fun _ w' => w.SameRing w') (exec_sameRing ans rfl h₃)
          fun _ w₄ h₄ => ?_
        refine Prog.wp_call (R := fun _ w' => w.SameRing w') (exec_sameRing ans rfl h₄)
          fun ok w₅ h₅ => ?_
        cases ok with
        | false =>
          exact wp_failed ans
            ⟨rfl, fun _ => ⟨rfl, fun _ => ⟨rfl, fun _ => trivial⟩⟩⟩ rfl h₅
        | true =>
          -- the locked section
          refine Prog.wp_call (R := fun ok w' => w.AddedRing c ok w') ?_ fun ok w₆ h₆ => ?_
          · by_cases hadd : ans.add
            · simp [exec, target, link, Server.exec, put, hadd, AddedRing, h₅.1, h₅.2]
            · simp [exec, target, link, Server.exec, put, hadd, AddedRing, SameRing, h₅.1, h₅.2]
          cases ok with
          | false =>
            exact wp_failed ans ⟨rfl, fun _ => ⟨rfl, fun _ => ⟨rfl, fun _ => ⟨rfl, fun _ =>
              trivial⟩⟩⟩⟩ rfl h₆
          | true => exact h₆

/-- `server_worker_add_client` puts the client into the ring and counts it exactly if it succeeds;
a client without a first task is taken out and counted off again. -/
theorem serverWorkerAddClient_ring (hc : c ∉ w.clients) :
    serverWorkerAddClient.wp (exec c ans) (fun ok w' => w.AddedRing c ok w') w := by
  refine Prog.wp_seq (clientCreate_ring ans w) fun ok w₁ h₁ => ?_
  cases ok with
  | false => exact h₁
  | true =>
    obtain ⟨hclients, hcount⟩ := h₁
    refine Prog.wp_seq (R := fun _ w' => w₁.SameRing w')
      (wp_sameRing ans (clientNextTask_every.mono fun _ => Op.Advancing.unlocked) ⟨rfl, rfl⟩)
      fun ok w₂ h₂ => ?_
    cases ok with
    | true => exact ⟨h₂.1.trans hclients, h₂.2.trans hcount⟩
    | false =>
      have hring : w.SameRing (exec c ans .deregister w₂).2 := by
        constructor
        · show w₂.clients.erase c = w.clients
          rw [h₂.1, hclients, List.erase_append_right _ hc]
          simp
        · show w₂.clientsNr - 1 = w.clientsNr
          rw [h₂.2, hcount]
          exact BitVec.add_sub_cancel _ _
      have hrelease : ClientDisconnect.release.Every fun o => o.locked = false :=
        ⟨rfl, fun _ => release_rest_every.mono fun _ => Op.Releasing.unlocked⟩
      have hdisconnect : clientDisconnect.wp (exec c ans) (fun _ w' => w.SameRing w') w₂ :=
        Prog.wp_call (R := fun _ w' => w.SameRing w') hring fun _ _ h₃ =>
          wp_sameRing ans hrelease h₃
      exact Prog.wp_seq hdisconnect fun _ _ h₃ => h₃

/-- The socket of a client that could not be added is closed. -/
theorem run_serverMainThreadLoop (w : ServerWorker) :
    (serverMainThreadLoop.run (exec c ans) w).2 =
      if (serverWorkerAddClient.run (exec c ans) w).1 = true then
        (serverWorkerAddClient.run (exec c ans) w).2
      else (exec c ans .closeSocket (serverWorkerAddClient.run (exec c ans) w).2).2 := by
  unfold serverMainThreadLoop serverWorkerPoolAddClient
  rw [Prog.run_bind]
  split <;> rfl

end ServerWorker

/-! ## The pool -/

/-- `struct server_worker_pool`: the workers, of which there is at least one. -/
abbrev Pool (n : ℕ) := Fin (n + 1) → ServerWorker

namespace Pool

variable {n : ℕ}

/-- A new pool. -/
def start : Pool n := fun _ => .start

/-- The counters of the workers. -/
def load (p : Pool n) (i : Fin (n + 1)) : ℕ := (p i).serverWorkerGetClientsNr

/-- The loop of `server_worker_pool_add_client`, from the second worker on. -/
def laziestWorker (p : Pool n) : Fin (n + 1) :=
  scan p.load ((List.finRange n).map Fin.succ) 0 (p.load 0)

/-- `server_worker_pool_add_client`: whether the call has succeeded, and the pool. -/
def addClient (p : Pool n) (sockfd : Sockfd) (answers : Answers) : Bool × Pool n :=
  let i := p.laziestWorker
  let out := serverWorkerAddClient.run (ServerWorker.exec (p i).clientsMade answers)
    ((p i).accepted sockfd)
  (out.1, Function.update p i out.2)

/-- The acceptor adds a client, and closes its socket if that fails. -/
def accept (p : Pool n) (sockfd : Sockfd) (answers : Answers) : Pool n :=
  let i := p.laziestWorker
  let out := p.addClient sockfd answers
  if out.1 = true then out.2
  else
    Function.update out.2 i
      (ServerWorker.exec (p i).clientsMade answers .closeSocket (out.2 i)).2

/-- A step of one of the threads. -/
inductive Move (n : ℕ) where
  /-- The acceptor has accepted a connection, and adds the client. -/
  | add (sockfd : Sockfd) (answers : Answers)
  /-- A worker gets an event that was registered for its client `c`. -/
  | event (i : Fin (n + 1)) (c : ℕ) (e : Event) (answers : Answers)
  /-- A worker goes on with the event it handles. -/
  | worker (i : Fin (n + 1))

/-- One step. The kernel gives out no descriptor that is in use. -/
def step (p : Pool n) : Move n → Pool n
  | .add sockfd answers => if ∀ i, (p i).Unused sockfd then p.accept sockfd answers else p
  | .event i c e answers => Function.update p i ((p i).step (.event c e answers))
  | .worker i => Function.update p i ((p i).step .worker)

/-- A call works on a worker with the fewest clients and on no other. If it succeeds, this worker
has the new client and counts it, and otherwise it has the same clients as before and counts them.
The greatest counter only grows if all workers had it. -/
structure CallSpreads (p : Pool n) (sockfd : Sockfd) (answers : Answers) : Prop where
  least : ∀ j, p.load p.laziestWorker ≤ p.load j
  others : ∀ j ≠ p.laziestWorker, p.accept sockfd answers j = p j
  added : (p.addClient sockfd answers).1 = true →
    (p.accept sockfd answers p.laziestWorker).clients =
        (p p.laziestWorker).clients ++ [(p p.laziestWorker).clientsMade] ∧
      (p.accept sockfd answers).load p.laziestWorker = p.load p.laziestWorker + 1
  failed : (p.addClient sockfd answers).1 = false →
    (p.accept sockfd answers p.laziestWorker).clients = (p p.laziestWorker).clients ∧
      (p.accept sockfd answers).load p.laziestWorker = p.load p.laziestWorker
  raises : RaisesMax p.load (p.accept sockfd answers).load → ∀ j k, p.load j = p.load k

/-- A step that is a call spreads the clients. -/
def Spreads (p : Pool n) : Move n → Prop
  | .add sockfd answers => (∀ i, (p i).Unused sockfd) → p.CallSpreads sockfd answers
  | _ => True

/-- No client leaves its worker in the step. -/
def NoneLeaves (p : Pool n) (m : Move n) : Prop :=
  ∀ i, ∀ c ∈ (p i).clients, c ∈ (p.step m i).clients

/-- Between two calls every worker keeps the invariant of its steps, and nothing is being added. -/
def Inv (p : Pool n) : Prop := ∀ i, (p i).Inv ∧ (p i).acceptor = none

variable {p : Pool n} {sockfd : Sockfd} {answers : Answers}

theorem inv_start : (start : Pool n).Inv := fun _ => ⟨ServerWorker.inv_start, rfl⟩

theorem laziestWorker_le (p : Pool n) (j : Fin (n + 1)) : p.load p.laziestWorker ≤ p.load j := by
  obtain ⟨hfirst, hrest⟩ := scan_le p.load ((List.finRange n).map Fin.succ) 0
  cases j using Fin.cases with
  | zero => exact hfirst
  | succ j => exact hrest _ (List.mem_map_of_mem (List.mem_finRange j))

/-- Adding a client is what the acceptor does on the laziest worker. -/
theorem accept_eq (p : Pool n) (sockfd : Sockfd) (answers : Answers) :
    p.accept sockfd answers = Function.update p p.laziestWorker
      (serverMainThreadLoop.run (ServerWorker.exec (p p.laziestWorker).clientsMade answers)
        ((p p.laziestWorker).accepted sockfd)).2 := by
  rw [ServerWorker.run_serverMainThreadLoop]
  unfold accept addClient
  dsimp only
  split
  · rfl
  · simp

/-- A call that runs to its end keeps the invariant. -/
theorem Inv.accept (h : p.Inv) (hunused : ∀ i, (p i).Unused sockfd) :
    (p.accept sockfd answers).Inv := by
  intro j
  rw [accept_eq]
  by_cases hj : j = p.laziestWorker
  · subst hj
    obtain ⟨hinv, hidle⟩ := h p.laziestWorker
    obtain ⟨k, hk⟩ := ServerWorker.exists_moves answers hidle (hunused p.laziestWorker)
    rw [Function.update_self]
    constructor
    · -- it is a run of the steps of the worker
      rw [← hk]
      exact InputMachine.invariant_run_of_step (fun _ m hw => hw.step m) _ hinv
    · have hsame : (p p.laziestWorker).accepted sockfd =
          { (p p.laziestWorker).accepted sockfd with acceptor := none } := by
        simp [ServerWorker.accepted, hidle]
      rw [hsame, ServerWorker.run_acceptor]
  · rw [Function.update_of_ne hj]
    exact h j

/-- The step of a worker's thread leaves the acceptor alone, and adds no client to the ring. -/
theorem stepWorker_clients {w : ServerWorker} (h : w.Inv) :
    (w.step .worker).acceptor = w.acceptor ∧
      ∀ c ∈ (w.step .worker).clients, c ∈ w.clients := by
  rcases hjob : w.worker with - | j
  · simp [ServerWorker.step, hjob]
  · obtain ⟨-, hpending⟩ := h.handling j hjob
    obtain ⟨-, hapart, -⟩ := ServerWorker.advance_spec h.linked hpending (by simp)
    have hstep : w.step .worker = { (w.advance j).2 with worker := (w.advance j).1 } := by
      simp [ServerWorker.step, hjob]
    rw [hstep]
    refine ⟨hapart.acceptor, fun c hc => ?_⟩
    by_cases hcj : c = j.client
    · exact hcj ▸ hapart.added rfl (hcj ▸ hc)
    · exact hapart.ring c hcj hc

theorem stepEvent_clients {w : ServerWorker} {c : ℕ} {e : Event} :
    (w.step (.event c e answers)).acceptor = w.acceptor ∧
      (w.step (.event c e answers)).clients = w.clients := by
  simp only [ServerWorker.step]
  split <;> exact ⟨rfl, rfl⟩

/-- A worker that takes a step keeps the invariant of the pool. -/
theorem Inv.update (h : p.Inv) {i : Fin (n + 1)} {w : ServerWorker} (hw : w.Inv)
    (hacceptor : w.acceptor = (p i).acceptor) : Inv (Function.update p i w) := by
  intro j
  by_cases hj : j = i
  · subst hj
    rw [Function.update_self]
    exact ⟨hw, hacceptor.trans (h j).2⟩
  · rw [Function.update_of_ne hj]
    exact h j

theorem Inv.step (h : p.Inv) (m : Move n) : (p.step m).Inv := by
  cases m with
  | add sockfd answers =>
    simp only [Pool.step]
    split
    next hunused => exact h.accept hunused
    next => exact h
  | event i c e answers => exact h.update ((h i).1.step _) stepEvent_clients.1
  | worker i => exact h.update ((h i).1.step _) (stepWorker_clients (h i).1).1

/-- The counter of a worker says how many clients it has. -/
theorem Inv.load (h : p.Inv) (i : Fin (n + 1)) : p.load i = (p i).clients.length :=
  (h i).1.linked.counted

/-- A call adds its client to the laziest worker, or to none. -/
theorem accept_ring (sockfd : Sockfd) (answers : Answers) (h : p.Inv) :
    (p p.laziestWorker).AddedRing (p p.laziestWorker).clientsMade (p.addClient sockfd answers).1
      (p.accept sockfd answers p.laziestWorker) := by
  have hnew : (p p.laziestWorker).clientsMade ∉ ((p p.laziestWorker).accepted sockfd).clients :=
    (h p.laziestWorker).1.notMem (Nat.le_refl _)
  have hring := ServerWorker.serverWorkerAddClient_ring answers hnew
  rw [accept_eq, Function.update_self, ServerWorker.run_serverMainThreadLoop]
  unfold addClient
  dsimp only
  split
  next hok =>
    rw [hok]
    rw [Prog.wp, hok] at hring
    exact hring
  next hfailed =>
    rw [Bool.not_eq_true] at hfailed
    rw [hfailed]
    rw [Prog.wp, hfailed] at hring
    exact ServerWorker.exec_sameRing answers rfl hring

/-- A call that succeeds adds its client to the laziest worker, and counts it. -/
theorem accept_added (h : p.Inv) (hok : (p.addClient sockfd answers).1 = true) :
    (p.accept sockfd answers p.laziestWorker).clients =
        (p p.laziestWorker).clients ++ [(p p.laziestWorker).clientsMade] ∧
      (p.accept sockfd answers p.laziestWorker).clientsNr = (p p.laziestWorker).clientsNr + 1 := by
  have hring := accept_ring sockfd answers h
  rwa [ServerWorker.AddedRing, if_pos hok] at hring

/-- A call that fails leaves its worker the clients it had. -/
theorem accept_failed (h : p.Inv) (hfailed : (p.addClient sockfd answers).1 = false) :
    (p p.laziestWorker).SameRing (p.accept sockfd answers p.laziestWorker) := by
  have hring := accept_ring sockfd answers h
  rwa [ServerWorker.AddedRing, if_neg (by simp [hfailed])] at hring

theorem accept_others {j : Fin (n + 1)} (hj : j ≠ p.laziestWorker) :
    p.accept sockfd answers j = p j := by
  rw [accept_eq, Function.update_of_ne hj]

/-- A call that succeeds is work for a least loaded worker. -/
theorem Inv.addedTo (h : p.Inv) (hunused : ∀ i, (p i).Unused sockfd)
    (hok : (p.addClient sockfd answers).1 = true) :
    AddedTo p.load (p.accept sockfd answers).load p.laziestWorker where
  least := laziestWorker_le p
  added := by
    rw [(h.accept hunused).load, h.load, (accept_added h hok).1, List.length_append]
    rfl
  kept j hj := by
    unfold Pool.load
    rw [accept_others hj]

/-- A call that fails leaves all counters as they were. -/
theorem load_failed (h : p.Inv) (hfailed : (p.addClient sockfd answers).1 = false) :
    (p.accept sockfd answers).load = p.load := by
  ext j
  unfold Pool.load ServerWorker.serverWorkerGetClientsNr
  by_cases hj : j = p.laziestWorker
  · subst hj
    rw [(accept_failed h hfailed).2]
  · rw [accept_others hj]

/-- A call spreads the clients. -/
theorem Inv.callSpreads (h : p.Inv) (hunused : ∀ i, (p i).Unused sockfd) :
    p.CallSpreads sockfd answers where
  least := laziestWorker_le p
  others _ hj := accept_others hj
  added hok := ⟨(accept_added h hok).1, (h.addedTo hunused hok).added⟩
  failed hfailed := ⟨(accept_failed h hfailed).1, congrFun (load_failed h hfailed) _⟩
  raises hraises := by
    cases hok : (p.addClient sockfd answers).1 with
    | true => exact (h.addedTo hunused hok).raisesMax hraises
    | false =>
      -- no counter has changed
      rw [load_failed h hok] at hraises
      obtain ⟨i, hi⟩ := hraises
      exact absurd (hi i) (Nat.lt_irrefl _)

theorem Inv.spreads (h : p.Inv) (m : Move n) : p.Spreads m := by
  cases m with
  | add sockfd answers => exact fun hunused => h.callSpreads hunused
  | _ => trivial

/-- Counters only depend on how many clients the workers have. -/
theorem load_eq_of_perm {p' : Pool n} (h : p.Inv) (h' : p'.Inv)
    (hperm : ∀ i, (p' i).clients.Perm (p i).clients) : p'.load = p.load := by
  ext i
  rw [h'.load, h.load, (hperm i).length_eq]

/-- Where no client leaves, counters that differ by at most one still do. -/
theorem Inv.near (h : p.Inv) {m : Move n} (hstay : p.NoneLeaves m) (hnear : Near p.load) :
    Near (p.step m).load := by
  cases m with
  | add sockfd answers =>
    simp only [Pool.step]
    split
    next hunused =>
      cases hok : (p.addClient sockfd answers).1 with
      | true => exact (h.addedTo hunused hok).near hnear
      | false => rwa [load_failed h hok]
    next => exact hnear
  | event i c e answers =>
    rwa [load_eq_of_perm h (h.step _) fun j => ?_]
    by_cases hj : j = i
    · subst hj
      simp [Pool.step, stepEvent_clients.2]
    · simp [Pool.step, hj]
  | worker i =>
    rwa [load_eq_of_perm h (h.step _) fun j => ?_]
    by_cases hj : j = i
    · subst hj
      -- none has left, and the thread of a worker adds none
      have hw := ((h.step (.worker j)) j).1.linked.nodup
      refine (List.perm_ext_iff_of_nodup hw (h j).1.linked.nodup).2 fun c => ⟨fun hc => ?_, ?_⟩
      · rw [Pool.step, Function.update_self] at hc
        exact (stepWorker_clients (h j).1).2 c hc
      · exact hstay j c
    · simp [Pool.step, hj]

/-- In every run of calls that add clients, between which clients may leave, every call gives its
client to a worker with the fewest clients, counts it exactly if it succeeds, and does not raise
the greatest number of clients unless all workers have it. In every stretch of a run in which no
client leaves, and that starts with numbers that differ by at most one, they always do. -/
theorem spreads_and_near (moves : List (Move n)) :
    InputMachine.Meets step Spreads (start : Pool n) moves ∧
      ∀ before stretch : List (Move n),
        Near (InputMachine.run step (start : Pool n) before).load →
        InputMachine.Meets step NoneLeaves (InputMachine.run step (start : Pool n) before)
          stretch →
        InputMachine.Always step (fun p => Near p.load)
          (InputMachine.run step (start : Pool n) before) stretch := by
  constructor
  · exact InputMachine.meets_of_invariant (P := Inv) (fun _ m h _ => h.step m)
      (fun _ m h _ => h.spreads m) inv_start (InputMachine.meets_true step _ moves)
  · intro before stretch hnear hstay
    have hinv : (InputMachine.run step (start : Pool n) before).Inv :=
      InputMachine.invariant_run_of_step (fun _ m h => h.step m) before inv_start
    have hboth := InputMachine.always_of_invariant (P := fun p => Pool.Inv p ∧ Near p.load)
      (fun _ m h hm => ⟨h.1.step m, h.1.near hm h.2⟩) ⟨hinv, hnear⟩ hstay
    exact hboth.mono step fun _ h => h.2

end Pool

end Qkmetisc.Server
