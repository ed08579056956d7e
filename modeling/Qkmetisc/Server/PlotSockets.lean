import Mathlib.Data.Int.Notation
import Mathlib.Data.List.Count
import Mathlib.Logic.Function.Basic
import Qkmetisc.Foundations.InputMachine

/-!
# The plot sockets of a server (`server.c`)

A server listens on one socket for each plot. Any thread may add a plot or remove one, while the
acceptor thread waits for connections on all of them. A removed plot socket is not freed at once,
since the acceptor may already have got its address from `epoll_wait`: it goes to a second ring,
which only the acceptor empties.

Every section that holds `plot_sockets_mtx` is one step, and so is what a call does before its
locked section or after it. Plot sockets are known by the order of their allocation, so that an
address that `malloc` hands out again stands for another one.

## Main definitions

* `State`: the two rings, with the memory, the descriptors and the calls in progress.
* `serverAddPlotBegin`, `serverAddPlotLocked`, `serverAddPlotFail`: the parts of
  `server_add_plot`.
* `serverRemovePlot`, `serverMainThreadLoop`, `serverDestroy`: the other functions of the source.
* `Input`, `step`: the steps of all threads.
-/

namespace Qkmetisc.PlotSockets

/-- `struct plot_socket`, without its links to the other ones. -/
structure PlotSocket (Pc : Type) where
  sockfd : ℤ
  pc : Pc
  port : ℕ
  active : Bool

/-- The assertions on plot sockets. -/
inductive Assertion where
  /-- `iter->sockfd == -1` of `server_cleanup_inactive_plot_sockets`. -/
  | closedBefore
  /-- `ev.events == EPOLLIN` of `server_main_thread_loop`. -/
  | onlyInput
  deriving DecidableEq, Repr

/-- What happens to plot sockets and can be observed. -/
inductive Action (Pc : Type) where
  /-- `socket` returned the listening descriptor of the plot socket. -/
  | opened (ps : ℕ)
  /-- The listening descriptor of the plot socket was closed. -/
  | closed (ps : ℕ)
  /-- `close` of a descriptor that is not open for a plot socket. -/
  | strayClose
  /-- The plot socket was freed. -/
  | freed (ps : ℕ)
  /-- The plot socket was dereferenced or freed without being allocated. -/
  | useAfterFree (ps : ℕ)
  /-- `accept` was called on this descriptor. -/
  | accept (sockfd : ℤ)
  /-- `server_worker_pool_add_client` was called with this plot constructor. -/
  | addClient (pc : Pc)
  /-- An assertion failed. -/
  | assertFailed (a : Assertion)
  deriving DecidableEq, Repr

/-- Whether the process and the server are there. -/
inductive Life where
  | running
  /-- A failed assertion has ended the process. -/
  | aborted
  /-- `server_destroy` has returned. -/
  | destroyed
  deriving DecidableEq, Repr

/-- A call of `server_add_plot` after `listen`: its local variables `ps` and `sockfd`. -/
structure AddCall where
  ps : ℕ
  sockfd : ℤ
  deriving DecidableEq, Repr

/-- The part of `struct server` that concerns plot sockets, with everything they consist of. -/
structure State (Pc : Type) where
  /-- The allocated plot sockets. -/
  memory : ℕ → Option (PlotSocket Pc)
  /-- How many plot sockets have been allocated so far. -/
  made : ℕ
  /-- The open listening descriptors, each with the plot socket it was opened for. -/
  sockets : ℤ → Option ℕ
  /-- The descriptors in the epoll instance `epfd`, each with its `data.ptr`. -/
  epoll : ℤ → Option ℕ
  /-- `plot_sockets`. -/
  plotSockets : List ℕ
  /-- `inactive_plot_sockets`. -/
  inactivePlotSockets : List ℕ
  /-- The calls of `server_add_plot` before their locked section. -/
  adding : List AddCall
  /-- The calls of `server_add_plot` that have failed in their locked section. -/
  failing : List AddCall
  /-- The `data.ptr` that `epoll_wait` has given the acceptor, before its locked section. -/
  fetched : Option ℕ
  life : Life
  /-- What happened so far, the latest first. -/
  log : List (Action Pc)

variable {Pc : Type}

/-- A new server. -/
def State.start : State Pc where
  memory _ := none
  made := 0
  sockets _ := none
  epoll _ := none
  plotSockets := []
  inactivePlotSockets := []
  adding := []
  failing := []
  fetched := none
  life := .running
  log := []

namespace State

/-- The state after an action has been observed. -/
def observe (s : State Pc) (a : Action Pc) : State Pc := { s with log := a :: s.log }

/-- The fields of a plot socket are read, and used in `k`. -/
def deref (s : State Pc) (ps : ℕ) (k : PlotSocket Pc → State Pc) : State Pc :=
  match s.memory ps with
  | none => s.observe (.useAfterFree ps)
  | some p => k p

/-- A plot socket gets these fields. -/
def store (s : State Pc) (ps : ℕ) (p : PlotSocket Pc) : State Pc :=
  { s with memory := Function.update s.memory ps (some p) }

/-- `free` of a plot socket. -/
def free (s : State Pc) (ps : ℕ) : State Pc :=
  match s.memory ps with
  | none => s.observe (.useAfterFree ps)
  | some _ => { s with memory := Function.update s.memory ps none }.observe (.freed ps)

/-- `socket` returns a descriptor for a plot socket. -/
def openSocket (s : State Pc) (ps : ℕ) (sockfd : ℤ) : State Pc :=
  { s with sockets := Function.update s.sockets sockfd (some ps) }.observe (.opened ps)

/-- `close`, which takes the descriptor out of the epoll instance, too. -/
def close (s : State Pc) (sockfd : ℤ) : State Pc :=
  match s.sockets sockfd with
  | none => s.observe .strayClose
  | some ps =>
    { s with
      sockets := Function.update s.sockets sockfd none
      epoll := Function.update s.epoll sockfd none }.observe (.closed ps)

/-- A failed assertion. -/
def abort (s : State Pc) (a : Assertion) : State Pc :=
  { s with life := .aborted }.observe (.assertFailed a)

variable (s : State Pc)

@[simp]
theorem life_observe (a : Action Pc) : (s.observe a).life = s.life := rfl

@[simp]
theorem life_store (ps : ℕ) (p : PlotSocket Pc) : (s.store ps p).life = s.life := rfl

@[simp]
theorem life_openSocket (ps : ℕ) (sockfd : ℤ) : (s.openSocket ps sockfd).life = s.life := rfl

@[simp]
theorem life_abort (a : Assertion) : (s.abort a).life = .aborted := rfl

@[simp]
theorem life_free (ps : ℕ) : (s.free ps).life = s.life := by
  unfold free
  split <;> rfl

@[simp]
theorem life_close (sockfd : ℤ) : (s.close sockfd).life = s.life := by
  unfold close
  split <;> rfl

/-- What only the calls of `server_add_plot` and the removed plot sockets concern. -/
def others (s : State Pc) : List AddCall × List AddCall × List ℕ :=
  (s.adding, s.failing, s.inactivePlotSockets)

variable {s}

end State

/-! ## The functions of the source -/

/-- The loop of `server_cleanup_inactive_plot_sockets`. -/
def cleanupLoop : List ℕ → State Pc → State Pc
  | [], s => s
  | iter :: rest, s =>
    cleanupLoop rest (s.deref iter fun p =>
      if p.sockfd = -1 then s.free iter else s.abort .closedBefore)

/-- `server_cleanup_inactive_plot_sockets`. -/
def serverCleanupInactivePlotSockets (s : State Pc) : State Pc :=
  { cleanupLoop s.inactivePlotSockets s with inactivePlotSockets := [] }

/-- The label `close_sockfd` of `server_add_plot`, with `free_ps` behind it. -/
def closeSockfd (s : State Pc) (ps : ℕ) (sockfd : ℤ) : State Pc := (s.close sockfd).free ps

/-- `server_add_plot` up to its locked section. `malloc` answers with nothing or with what the
block holds where `sockfd` is. -/
def serverAddPlotBegin (s : State Pc) (pc : Pc) (port : ℕ) (malloc socket : Option ℤ)
    (bind listen : Bool) : State Pc :=
  match malloc with
  | none => s
  | some garbage =>
    let ps := s.made
    -- `sockfd` is set only after `listen`
    let s := { s with made := s.made + 1 }.store ps { sockfd := garbage, pc, port, active := true }
    match socket with
    | none => s.free ps
    | some sockfd =>
      let s := s.openSocket ps sockfd
      if bind = false then closeSockfd s ps sockfd
      else if listen = false then closeSockfd s ps sockfd
      else
        let s := s.store ps { sockfd, pc, port, active := true }
        { s with adding := { ps, sockfd } :: s.adding }

/-- The locked section of `server_add_plot`; `add` tells whether `EPOLL_CTL_ADD` succeeds. What
follows a success only writes the port to the log. -/
def serverAddPlotLocked (s : State Pc) (call : AddCall) (add : Bool) : State Pc :=
  let s := { s with adding := s.adding.erase call }
  s.deref call.ps fun p =>
    if add = false then { s with failing := call :: s.failing }
    else
      { s with
        epoll := Function.update s.epoll p.sockfd (some call.ps)
        plotSockets := s.plotSockets ++ [call.ps] }

/-- The end of a call of `server_add_plot` that has failed in its locked section. -/
def serverAddPlotFail (s : State Pc) (call : AddCall) : State Pc :=
  closeSockfd { s with failing := s.failing.erase call } call.ps call.sockfd

/-- `server_remove_plot`. The loop never moves `iter` on, so it looks at the head of the ring
only. -/
def serverRemovePlot (s : State Pc) (port : ℕ) : State Pc :=
  match s.plotSockets with
  | [] => s
  | iter :: rest =>
    s.deref iter fun p =>
      if p.port = port then
        let s := { s with epoll := Function.update s.epoll p.sockfd none }
        let s := s.close p.sockfd
        let s := s.store iter { p with sockfd := -1, active := false }
        { s with
          plotSockets := rest
          inactivePlotSockets := s.inactivePlotSockets ++ [iter] }
      else s

/-- The locked section of `server_main_thread_loop` for the event with this `data.ptr`.
`onlyInput` tells whether the event is `EPOLLIN`, and `accept` whether `accept` succeeds; what
becomes of the connection then concerns no plot socket. -/
def serverMainThreadLoop (s : State Pc) (ps : ℕ) (onlyInput accept : Bool) : State Pc :=
  s.deref ps fun p =>
    -- a plot socket that has been removed is freed here, with all others in its ring
    if p.active = false then serverCleanupInactivePlotSockets s
    else
      let s := serverCleanupInactivePlotSockets s
      if onlyInput = false then s.abort .onlyInput
      else
        -- it is read again after the cleanup, which must not have freed it
        s.deref ps fun p =>
          let s := s.observe (.accept p.sockfd)
          if accept = false then s
          else s.deref ps fun p => s.observe (.addClient p.pc)

/-- The loop of `server_destroy`. -/
def destroyLoop : List ℕ → State Pc → State Pc
  | [], s => s
  | iter :: rest, s => destroyLoop rest (s.deref iter fun p => (s.close p.sockfd).free iter)

/-- `server_destroy`, after the acceptor thread has ended. -/
def serverDestroy (s : State Pc) : State Pc :=
  let s := serverCleanupInactivePlotSockets s
  let s := { s with epoll := fun _ => none }
  let s := destroyLoop s.plotSockets s
  { s with plotSockets := [], life := .destroyed }

/-! ## Runs -/

/-- A step of one of the threads, with what it meets. -/
inductive Input (Pc : Type) where
  /-- A thread calls `server_add_plot`. -/
  | addBegin (pc : Pc) (port : ℕ) (malloc socket : Option ℤ) (bind listen : Bool)
  /-- Such a call performs its locked section. -/
  | addLocked (call : AddCall) (add : Bool)
  /-- A call that has failed there cleans up. -/
  | addFail (call : AddCall)
  /-- A thread calls `server_remove_plot`. -/
  | remove (port : ℕ)
  /-- `epoll_wait` reports the descriptor to the acceptor. -/
  | epollWait (sockfd : ℤ)
  /-- The acceptor handles what was reported. -/
  | handle (onlyInput accept : Bool)
  /-- `server_destroy`. -/
  | destroy

/-- `socket` only returns descriptors that are not open. -/
def State.Unused (s : State Pc) (socket : Option ℤ) : Prop :=
  ∀ fd ∈ socket, 0 ≤ fd ∧ s.sockets fd = none

instance (s : State Pc) (socket : Option ℤ) : Decidable (s.Unused socket) := by
  unfold State.Unused
  infer_instance

/-- No call is in progress, and the acceptor waits in `epoll_wait`, where it can be cancelled. -/
def State.Quiet (s : State Pc) : Prop := s.adding = [] ∧ s.failing = [] ∧ s.fetched = none

instance (s : State Pc) : Decidable s.Quiet := inferInstanceAs (Decidable (_ ∧ _ ∧ _))

/-- One step. What cannot happen in the state changes nothing. -/
def step (s : State Pc) (i : Input Pc) : State Pc :=
  if s.life ≠ .running then s
  else
    match i with
    | .addBegin pc port malloc socket bind listen =>
      if s.Unused socket then serverAddPlotBegin s pc port malloc socket bind listen else s
    | .addLocked call add => if call ∈ s.adding then serverAddPlotLocked s call add else s
    | .addFail call => if call ∈ s.failing then serverAddPlotFail s call else s
    | .remove port => serverRemovePlot s port
    | .epollWait sockfd => if s.fetched = none then { s with fetched := s.epoll sockfd } else s
    | .handle onlyInput accept =>
      match s.fetched with
      | none => s
      | some ps => serverMainThreadLoop { s with fetched := none } ps onlyInput accept
    | .destroy => if s.Quiet then serverDestroy s else s

end Qkmetisc.PlotSockets
