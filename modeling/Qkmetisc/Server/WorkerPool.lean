import Mathlib.Data.List.Count
import Mathlib.Data.List.Nodup

/-!
# Creating a worker pool (`server_worker_pool.c`)

A pool creates its workers one after the other, each with an epoll instance, a mutex and a running
thread. When one of them cannot be created, those before it have to be destroyed again.

Workers are known by the order of their allocation. No worker has clients before the pool is
returned.

## Main definitions

* `World`: what has been acquired and released for workers.
* `serverWorkerCreate`, `serverWorkerDestroy`, `serverWorkerPoolCreate`: the functions of the
  source.
* `CreatesPool`: what the creation of a pool is for.

## Main results

* `serverWorkerCreate_failure`: a worker that cannot be created leaves nothing.
* `createLoop_spec`: what the loop of the creation leaves.
* `createsPool_iff`: when the creation does what it is for.
-/

namespace Qkmetisc.WorkerPool

/-- What a worker consists of. -/
inductive Resource where
  | memory
  | epfd
  | mutex
  | thread
  deriving DecidableEq, Repr

/-- What happens to workers and can be observed. -/
inductive Action where
  | acquired (w : ℕ) (r : Resource)
  | released (w : ℕ) (r : Resource)
  deriving DecidableEq, Repr

/-- The worker of an action. -/
def Action.worker : Action → ℕ
  | acquired w _ | released w _ => w

/-- How many workers have been allocated, and what happened so far, the latest first. -/
structure World where
  made : ℕ
  log : List Action

/-- How a call can end without returning. -/
inductive PoolFault where
  | assertFailed
  | nullAccess
  | useAfterFree
  deriving DecidableEq, Repr

/-- Which calls of `server_worker_create` succeed. -/
structure CreateAnswers where
  malloc : Bool
  epollCreate : Bool
  mutexInit : Bool
  threadCreate : Bool

/-- All of them do. -/
def CreateAnswers.Succeeds (ans : CreateAnswers) : Prop :=
  ans.malloc = true ∧ ans.epollCreate = true ∧ ans.mutexInit = true ∧ ans.threadCreate = true

instance (ans : CreateAnswers) : Decidable ans.Succeeds :=
  inferInstanceAs (Decidable (_ ∧ _ ∧ _ ∧ _))

namespace World

/-- Nothing has happened. -/
def start : World where
  made := 0
  log := []

def acquire (s : World) (w : ℕ) (r : Resource) : World :=
  { s with log := .acquired w r :: s.log }

def release (s : World) (w : ℕ) (r : Resource) : World :=
  { s with log := .released w r :: s.log }

/-- Every worker that has been created has been destroyed, once. -/
def Settled (s : World) : Prop :=
  ∀ w r, s.log.count (.acquired w r) ≤ 1 ∧
    s.log.count (.released w r) = s.log.count (.acquired w r)

end World

/-! ## The functions of the source -/

/-- The label `free_worker` of `server_worker_create`. -/
def freeWorker (s : World) (w : ℕ) : World × Option ℕ := (s.release w .memory, none)

/-- The label `close_epfd`. -/
def closeEpfd (s : World) (w : ℕ) : World × Option ℕ := freeWorker (s.release w .epfd) w

/-- The label `destroy_mtx`. -/
def destroyMtx (s : World) (w : ℕ) : World × Option ℕ := closeEpfd (s.release w .mutex) w

/-- `server_worker_create`. -/
def serverWorkerCreate (ans : CreateAnswers) (s : World) : World × Option ℕ :=
  if ans.malloc = false then (s, none)
  else
    let w := s.made
    let s := { s with made := s.made + 1 }.acquire w .memory
    if ans.epollCreate = false then freeWorker s w
    else
      let s := s.acquire w .epfd
      if ans.mutexInit = false then closeEpfd s w
      else
        let s := s.acquire w .mutex
        if ans.threadCreate = false then destroyMtx s w
        else (s.acquire w .thread, some w)

/-- `server_worker_destroy` of a worker without clients. -/
def serverWorkerDestroy (worker : Option ℕ) (s : World) : Except PoolFault World :=
  match worker with
  | none => .error .assertFailed
  | some w =>
    if .released w .memory ∈ s.log then .error .useAfterFree
    else .ok ((((s.release w .thread).release w .epfd).release w .mutex).release w .memory)

/-- The inner loop of `server_worker_pool_create`, over the workers before the one that could not
be created; whether it has gone to `free_pool`. -/
def destroyCreated : List (Option ℕ) → World → Except PoolFault (World × Bool)
  | [], s => .ok (s, false)
  | worker :: _, s =>
    -- the `goto` is part of the body
    match serverWorkerDestroy worker s with
    | .error e => .error e
    | .ok s => .ok (s, true)

/-- The loop of `server_worker_pool_create`, with so many rounds to go and these workers stored;
`creates` answers the call of `server_worker_create` in each round. -/
def createLoop (creates : ℕ → CreateAnswers) :
    ℕ → List (Option ℕ) → World → Except PoolFault (World × Option (List (Option ℕ)))
  | 0, workers, s => .ok (s, some workers)
  | n + 1, workers, s =>
    match serverWorkerCreate (creates workers.length) s with
    | (s, some w) => createLoop creates n (workers ++ [some w]) s
    | (s, none) =>
      match destroyCreated workers s with
      | .error e => .error e
      | .ok (s, true) => .ok (s, none)
      | .ok (s, false) => createLoop creates n (workers ++ [none]) s

/-- `server_worker_pool_create`: the workers of the new pool, or none for `NULL`. The flags tell
whether the two allocations succeed. -/
def serverWorkerPoolCreate (workersNr : ℕ) (mallocPool mallocWorkers : Bool)
    (creates : ℕ → CreateAnswers) (s : World) :
    Except PoolFault (World × Option (List (Option ℕ))) :=
  if workersNr = 0 then .error .assertFailed
  else if mallocPool = false then .ok (s, none)
  -- the first worker is stored without a look at the array
  else if mallocWorkers = false then .error .nullAccess
  else createLoop creates workersNr [] s

/-- What the creation of a pool is for: it returns a pool of workers that are all there if
everything succeeds, and otherwise returns `NULL` with every worker that had been created
destroyed, once. -/
def CreatesPool (workersNr : ℕ) (mallocPool mallocWorkers : Bool) (creates : ℕ → CreateAnswers) :
    Prop :=
  ∃ s pool, serverWorkerPoolCreate workersNr mallocPool mallocWorkers creates .start =
      .ok (s, pool) ∧
    ((mallocPool = true ∧ mallocWorkers = true ∧ ∀ i < workersNr, (creates i).Succeeds) →
      ∃ workers, pool = some workers ∧ workers.length = workersNr ∧ ∀ w ∈ workers, w ≠ none) ∧
    (¬(mallocPool = true ∧ mallocWorkers = true ∧ ∀ i < workersNr, (creates i).Succeeds) →
      pool = none ∧ s.Settled)

/-! ## One worker -/

/-- The workers `ws`, and no others, are running. -/
structure World.Running (s : World) (ws : List ℕ) : Prop where
  nodup : ws.Nodup
  balance : ∀ w r, s.log.count (.acquired w r) = s.log.count (.released w r) + ws.count w
  once : ∀ w r, s.log.count (.acquired w r) ≤ 1
  fresh : ∀ w r, s.made ≤ w → .acquired w r ∉ s.log

variable {s : World} {ws : List ℕ} {ans : CreateAnswers}

theorem running_start : World.start.Running [] := by
  constructor <;> simp [World.start]

/-- Everything is settled exactly if no worker is running. -/
theorem World.Running.settled_iff (h : s.Running ws) : s.Settled ↔ ws = [] := by
  constructor
  · intro hsettled
    rw [List.eq_nil_iff_forall_not_mem]
    intro w hw
    have hpos := List.count_pos_iff.2 hw
    have hbalance := h.balance w .thread
    rw [(hsettled w .thread).2] at hbalance
    omega
  · rintro rfl w r
    exact ⟨h.once w r, by simpa using (h.balance w r).symm⟩

/-- A new worker is not among those that are running. -/
theorem World.Running.made_notMem (h : s.Running ws) : s.made ∉ ws := by
  intro hmem
  have hpos := List.count_pos_iff.2 hmem
  have hbalance := h.balance s.made .memory
  rw [List.count_eq_zero.2 (h.fresh s.made .memory (Nat.le_refl _))] at hbalance
  omega

/-- Something has happened to a new worker alone, which is running then or not. -/
theorem World.Running.extend (h : s.Running ws) (acts : List Action) {new : List ℕ}
    (hnew : new = [] ∨ new = [s.made]) (hown : ∀ a ∈ acts, a.worker = s.made)
    (honce : ∀ r, acts.count (.acquired s.made r) ≤ 1)
    (hbalance : ∀ r, acts.count (.acquired s.made r) =
      acts.count (.released s.made r) + new.length) :
    World.Running ⟨s.made + 1, acts ++ s.log⟩ (ws ++ new) := by
  have hmade := h.made_notMem
  have hold {w : ℕ} (hw : w ≠ s.made) (r : Resource) :
      .acquired w r ∉ acts ∧ .released w r ∉ acts :=
    ⟨fun hmem => hw (hown _ hmem), fun hmem => hw (hown _ hmem)⟩
  have hcount (w : ℕ) : new.count w = if w = s.made then new.length else 0 := by
    rcases hnew with rfl | rfl
    · simp
    · by_cases hw : w = s.made
      · simp [hw]
      · rw [if_neg hw, List.count_eq_zero]
        simpa using hw
  constructor
  · rcases hnew with rfl | rfl
    · simpa using h.nodup
    · rw [List.nodup_append]
      exact ⟨h.nodup, List.nodup_singleton _, by rintro x hx y hy rfl; simp_all⟩
  · intro w r
    have hbefore := h.balance w r
    rw [List.count_append, List.count_append, List.count_append, hcount]
    by_cases hw : w = s.made
    · subst hw
      rw [if_pos rfl, hbalance r]
      omega
    · rw [if_neg hw, List.count_eq_zero.2 (hold hw r).1, List.count_eq_zero.2 (hold hw r).2]
      omega
  · intro w r
    rw [List.count_append]
    by_cases hw : w = s.made
    · subst hw
      rw [List.count_eq_zero.2 (h.fresh s.made r (Nat.le_refl _))]
      exact honce r
    · rw [List.count_eq_zero.2 (hold hw r).1, Nat.zero_add]
      exact h.once w r
  · intro w r hw hmem
    have hlt : s.made < w := hw
    rw [List.mem_append] at hmem
    rcases hmem with hmem | hmem
    · exact (hold (Nat.ne_of_gt hlt) r).1 hmem
    · exact h.fresh w r (Nat.le_of_lt hlt) hmem

/-- A worker that could not be created leaves nothing behind. -/
theorem serverWorkerCreate_failure (h : s.Running ws) (hans : ¬ans.Succeeds) :
    ∃ s', serverWorkerCreate ans s = (s', none) ∧ s'.Running ws := by
  obtain ⟨malloc, epollCreate, mutexInit, threadCreate⟩ := ans
  -- what has been acquired is released again, in the opposite order
  have hundone (acts : List Action) (hown : ∀ a ∈ acts, a.worker = s.made)
      (honce : ∀ r, acts.count (.acquired s.made r) ≤ 1)
      (hbalance : ∀ r, acts.count (.acquired s.made r) = acts.count (.released s.made r)) :
      World.Running ⟨s.made + 1, acts ++ s.log⟩ ws := by
    simpa using h.extend acts (.inl rfl) hown honce hbalance
  cases malloc with
  | false => exact ⟨s, rfl, h⟩
  | true =>
    cases epollCreate with
    | false =>
      refine ⟨_, rfl, hundone [.released s.made .memory, .acquired s.made .memory]
        ?_ (fun r => ?_) fun r => ?_⟩
      · simp [Action.worker]
      · cases r <;> simp
      · cases r <;> simp
    | true =>
      cases mutexInit with
      | false =>
        refine ⟨_, rfl, hundone [.released s.made .memory, .released s.made .epfd,
          .acquired s.made .epfd, .acquired s.made .memory] ?_ (fun r => ?_) fun r => ?_⟩
        · simp [Action.worker]
        · cases r <;> simp
        · cases r <;> simp
      | true =>
        cases threadCreate with
        | false =>
          refine ⟨_, rfl, hundone [.released s.made .memory, .released s.made .epfd,
            .released s.made .mutex, .acquired s.made .mutex, .acquired s.made .epfd,
            .acquired s.made .memory] ?_ (fun r => ?_) fun r => ?_⟩
          · simp [Action.worker]
          · cases r <;> simp
          · cases r <;> simp
        | true => exact absurd ⟨rfl, rfl, rfl, rfl⟩ hans

/-- A worker that could be created is running. -/
theorem serverWorkerCreate_success (h : s.Running ws) (hans : ans.Succeeds) :
    ∃ s' w, serverWorkerCreate ans s = (s', some w) ∧ s'.Running (ws ++ [w]) := by
  obtain ⟨malloc, epollCreate, mutexInit, threadCreate⟩ := ans
  obtain ⟨rfl, rfl, rfl, rfl⟩ := hans
  refine ⟨_, s.made, rfl, h.extend [.acquired s.made .thread, .acquired s.made .mutex,
    .acquired s.made .epfd, .acquired s.made .memory] (.inr rfl) ?_ (fun r => ?_) fun r => ?_⟩
  · simp [Action.worker]
  · cases r <;> simp
  · cases r <;> simp

/-- A running worker can be destroyed. -/
theorem serverWorkerDestroy_running {w : ℕ} (h : s.Running (w :: ws)) :
    ∃ s', serverWorkerDestroy (some w) s = .ok s' ∧ s'.Running ws := by
  obtain ⟨hw, hnodup⟩ := List.nodup_cons.1 h.nodup
  have hlive : .released w .memory ∉ s.log := by
    have hbalance := h.balance w .memory
    have honce := h.once w .memory
    rw [List.count_cons_self] at hbalance
    exact List.count_eq_zero.1 (by omega)
  refine ⟨_, if_neg hlive, hnodup, ?_, ?_, ?_⟩
  · intro v r
    have hbalance := h.balance v r
    by_cases hv : v = w
    · subst hv
      rw [List.count_cons_self, List.count_eq_zero.2 hw] at hbalance
      cases r <;> simp [World.release, hbalance, List.count_eq_zero.2 hw]
    · rw [List.count_cons_of_ne (Ne.symm hv)] at hbalance
      simp [World.release, hbalance, Ne.symm hv]
  · intro v r
    simpa [World.release, List.count_cons] using h.once v r
  · intro v r hv
    simpa [World.release] using h.fresh v r hv

/-! ## The pool -/

/-- What the loop leaves from a round on before which all workers could be created, the first one
included: a pool if the others can be created, too. Otherwise only the first one is destroyed, and
all others before the one that could not be created stay running. -/
theorem createLoop_spec (creates : ℕ → CreateAnswers) (n : ℕ) {w : ℕ} (h : s.Running (w :: ws)) :
    (∃ (s' : World) (ws' : List ℕ),
      createLoop creates n ((w :: ws).map some) s = .ok (s', some (ws'.map some)) ∧
        ws'.length = ws.length + 1 + n ∧
        ∀ i, ws.length + 1 ≤ i → i < ws.length + 1 + n → (creates i).Succeeds) ∨
      ∃ (s' : World) (k : ℕ), createLoop creates n ((w :: ws).map some) s = .ok (s', none) ∧
        ws.length + 1 ≤ k ∧ k < ws.length + 1 + n ∧ ¬(creates k).Succeeds ∧
        (∀ i, ws.length + 1 ≤ i → i < k → (creates i).Succeeds) ∧ (s'.Settled ↔ k = 1) := by
  induction n generalizing s ws with
  | zero => exact .inl ⟨s, w :: ws, rfl, rfl, fun i hle hlt => by omega⟩
  | succ n ih =>
    have hlength : ((w :: ws).map some).length = ws.length + 1 := by simp
    by_cases hans : (creates (ws.length + 1)).Succeeds
    · obtain ⟨s₁, w₁, hcreate, hrunning⟩ := serverWorkerCreate_success h hans
      have hnext : createLoop creates (n + 1) ((w :: ws).map some) s =
          createLoop creates n ((w :: (ws ++ [w₁])).map some) s₁ := by
        rw [createLoop, hlength, hcreate]
        simp
      -- the worker of this round is one of those before the next one
      have hfirst {k : ℕ} {P : ℕ → Prop} (hP : P (ws.length + 1))
          (hrest : ∀ i, ws.length + 1 + 1 ≤ i → i < k → P i) :
          ∀ i, ws.length + 1 ≤ i → i < k → P i := by
        intro i hle hlt
        rcases Nat.eq_or_lt_of_le hle with rfl | hlt'
        · exact hP
        · exact hrest i hlt' hlt
      rw [List.cons_append] at hrunning
      have hih := ih hrunning
      rw [List.length_append, List.length_singleton] at hih
      rcases hih with ⟨s', ws', hcall, hlen, hall⟩ | ⟨s', k, hcall, hle, hlt, hfail, hall, hk⟩
      · refine .inl ⟨s', ws', hnext.trans hcall, by omega, hfirst hans fun i hle hlt => ?_⟩
        exact hall i hle (by omega)
      · exact .inr ⟨s', k, hnext.trans hcall, by omega, by omega, hfail, hfirst hans hall, hk⟩
    · obtain ⟨s₁, hcreate, hrunning⟩ := serverWorkerCreate_failure h hans
      obtain ⟨s₂, hdestroy, hrest⟩ := serverWorkerDestroy_running hrunning
      refine .inr ⟨s₂, ws.length + 1, ?_, Nat.le_refl _, by omega, hans, fun i hle hlt => by omega,
        ?_⟩
      · rw [createLoop, hlength, hcreate]
        simp [destroyCreated, hdestroy]
      · rw [hrest.settled_iff, ← List.length_eq_zero_iff]
        omega

/-- With a `NULL` among the workers of its first round the loop does not return `NULL`: it returns
a pool with that worker, or stops at it in its cleanup. -/
theorem createLoop_null (creates : ℕ → CreateAnswers) (n : ℕ) (workers : List (Option ℕ))
    (s s' : World) : createLoop creates n (none :: workers) s ≠ .ok (s', none) := by
  induction n generalizing s workers with
  | zero => simp [createLoop]
  | succ n ih =>
    rw [createLoop]
    rcases hcreate : serverWorkerCreate (creates (none :: workers).length) s with ⟨s₁, _ | w⟩
    · simp [destroyCreated, serverWorkerDestroy]
    · exact ih (workers ++ [some w]) s₁

section Create

variable {workersNr : ℕ} {mallocPool mallocWorkers : Bool} {creates : ℕ → CreateAnswers}

/-- Where `NULL` is returned because something has failed, what matters is what is left. -/
theorem createsPool_null_iff
    (hcall : serverWorkerPoolCreate workersNr mallocPool mallocWorkers creates .start =
      .ok (s, none))
    (hnot : ¬(mallocPool = true ∧ mallocWorkers = true ∧ ∀ i < workersNr, (creates i).Succeeds)) :
    CreatesPool workersNr mallocPool mallocWorkers creates ↔ s.Settled := by
  constructor
  · rintro ⟨s', pool, hcall', -, hsettled⟩
    obtain ⟨rfl, -⟩ : s = s' ∧ none = pool := by simpa using hcall.symm.trans hcall'
    exact (hsettled hnot).2
  · exact fun h => ⟨s, none, hcall, fun h' => absurd h' hnot, fun _ => ⟨rfl, h⟩⟩

/-- When the first worker cannot be created, the loop goes on without it. -/
theorem not_createsPool_first (n : ℕ) (hfirst : ¬(creates 0).Succeeds) :
    ¬CreatesPool (n + 1) true true creates := by
  obtain ⟨s₁, hcreate, -⟩ := serverWorkerCreate_failure running_start hfirst
  rintro ⟨s', pool, hcall, -, hsettled⟩
  have hnull : pool = none := (hsettled fun h => hfirst (h.2.2 0 (Nat.succ_pos n))).1
  have hnext : serverWorkerPoolCreate (n + 1) true true creates .start =
      createLoop creates n [none] s₁ := by
    rw [serverWorkerPoolCreate, if_neg (Nat.succ_ne_zero n)]
    simp only [Bool.true_eq_false, if_false, createLoop, List.length_nil, hcreate]
    rfl
  rw [hnext, hnull] at hcall
  exact createLoop_null creates n [] s₁ s' hcall

/-- When the first worker can be created, either all others can, too, or the first of them that
cannot has to be the second one. -/
theorem createsPool_first_iff (n : ℕ) (hfirst : (creates 0).Succeeds) :
    CreatesPool (n + 1) true true creates ↔
      (∀ i < n + 1, (creates i).Succeeds) ∨ 1 < n + 1 ∧ ¬(creates 1).Succeeds := by
  obtain ⟨s₁, w, hcreate, hrunning⟩ := serverWorkerCreate_success running_start hfirst
  have hnext : serverWorkerPoolCreate (n + 1) true true creates .start =
      createLoop creates n ([w].map some) s₁ := by
    rw [serverWorkerPoolCreate, if_neg (Nat.succ_ne_zero n)]
    simp only [Bool.true_eq_false, if_false, createLoop, List.length_nil, hcreate]
    rfl
  rcases createLoop_spec creates n hrunning with
    ⟨s', ws', hcall, hlen, hall⟩ | ⟨s', k, hcall, hle, hlt, hfail, hall, hk⟩
  · have hevery : ∀ i < n + 1, (creates i).Succeeds := by
      intro i hi
      rcases Nat.eq_zero_or_pos i with rfl | hi'
      · exact hfirst
      · exact hall i hi' (by simpa [Nat.add_comm] using hi)
    refine iff_of_true ⟨s', some (ws'.map some), hnext.trans hcall, fun _ => ⟨_, rfl, ?_, by simp⟩,
      fun hnot => absurd ⟨rfl, rfl, hevery⟩ hnot⟩ (.inl hevery)
    simp [hlen, Nat.add_comm]
  · simp only [List.length_nil, Nat.zero_add] at hle hlt hall
    have hnot : ¬∀ i < n + 1, (creates i).Succeeds := fun h => hfail (h k (by omega))
    rw [createsPool_null_iff (hnext.trans hcall) fun h => hnot h.2.2, hk]
    constructor
    · rintro rfl
      exact .inr ⟨by omega, hfail⟩
    · rintro (h | ⟨-, hsecond⟩)
      · exact absurd h hnot
      · -- the second one would be before the first one that cannot
        by_contra hne
        exact hsecond (hall 1 (Nat.le_refl _) (by omega))

/-- The creation of a pool is what it is meant to be exactly if the allocation of the pool fails,
or the allocation of the array succeeds and either all workers can be created or the second one is
the first that cannot. When the first one cannot, a pool with a `NULL` worker is returned or an
assertion fails; when a later one cannot, all workers between the first one and that one are left
running. -/
theorem createsPool_iff (hpos : 1 ≤ workersNr) (mallocPool mallocWorkers : Bool)
    (creates : ℕ → CreateAnswers) :
    CreatesPool workersNr mallocPool mallocWorkers creates ↔
      mallocPool = false ∨ mallocWorkers = true ∧
        ((∀ i < workersNr, (creates i).Succeeds) ∨
          1 < workersNr ∧ (creates 0).Succeeds ∧ ¬(creates 1).Succeeds) := by
  obtain ⟨n, rfl⟩ : ∃ n, workersNr = n + 1 := Nat.exists_eq_add_of_le' hpos
  cases mallocPool with
  | false =>
    have hcall : serverWorkerPoolCreate (n + 1) false mallocWorkers creates .start =
        .ok (.start, none) := rfl
    rw [createsPool_null_iff hcall (by simp), running_start.settled_iff]
    simp
  | true =>
    cases mallocWorkers with
    | false =>
      refine iff_of_false ?_ (by simp)
      rintro ⟨s, pool, hcall, -⟩
      simp [serverWorkerPoolCreate] at hcall
    | true =>
      by_cases hfirst : (creates 0).Succeeds
      · rw [createsPool_first_iff n hfirst]
        simp [hfirst]
      · refine iff_of_false (not_createsPool_first n hfirst) ?_
        rintro (h | ⟨-, h | ⟨-, h, -⟩⟩)
        · cases h
        · exact hfirst (h 0 (Nat.succ_pos n))
        · exact hfirst h

/-- Two workers, the second of which cannot be created. -/
theorem createsPool_two :
    CreatesPool 2 true true fun i => ⟨true, true, true, decide (i = 0)⟩ :=
  (createsPool_iff (by decide) true true _).2 (.inr ⟨rfl, .inr ⟨by decide, by decide, by decide⟩⟩)

/-- With the third of three workers failing, the second one is left running. -/
theorem not_createsPool :
    ¬∀ workersNr ≥ 1, ∀ (mallocPool mallocWorkers : Bool) (creates : ℕ → CreateAnswers),
      CreatesPool workersNr mallocPool mallocWorkers creates := by
  intro hall
  obtain ⟨s, pool, hcall, -, hsettled⟩ :=
    hall 3 (by decide) true true fun i => ⟨true, true, true, decide (i < 2)⟩
  obtain rfl : s = _ := (Prod.ext_iff.1 (Except.ok.inj hcall)).1.symm
  have hthread := (hsettled (by decide)).2 1 .thread
  exact absurd hthread.2 (by decide)

end Create

end Qkmetisc.WorkerPool
