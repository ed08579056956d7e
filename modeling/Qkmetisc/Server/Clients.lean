import Mathlib.Logic.Function.Basic
import Qkmetisc.Foundations.LockedSections
import Qkmetisc.Server.Life
import Qkmetisc.Server.Race

/-!
# The clients of one worker

All clients of a `struct server_worker`: its ring and its counter, the timers of all clients, and
the two threads that work on them. The acceptor adds one client after the other, and the worker
handles one event after the other. `clients_mtx` guards the ring and the counter; between two
locked sections a thread touches only the client it works on, so a thread runs from one locked
section through the next in one step. The worker gets no event of a client whose addition has not
finished.

## Main definitions

* `ServerWorker`: the worker with its clients and both threads.
* `ServerWorker.exec`: what an operation of a thread does to the worker.
* `ServerWorker.Move`, `ServerWorker.step`: the steps.
* `ServerWorker.Consistent`: the ring, the counter and the clients belong together.
-/

namespace Qkmetisc.Server

/-- The descriptor of an open socket: an `int` that is not negative. -/
abbrev Sockfd := Fin (2 ^ 31)

/-- What a thread is busy with: a client, what is still to do, and what the environment answers
meanwhile. -/
structure Job where
  client : ℕ
  todo : Program Unit
  answers : Answers

/-- `struct server_worker`, its clients and its timers, and both threads. Clients and timers have
numbers in place of addresses. -/
structure ServerWorker where
  /-- `clients`: the ring. -/
  clients : List ℕ
  /-- `clients_nr`. -/
  clientsNr : BitVec 32
  /-- `struct client`, with the client's entry in the epoll instance. -/
  client : ℕ → State
  /-- `sockfd` of a client. -/
  sockfd : ℕ → Sockfd
  /-- `client` of a timer. -/
  timerClient : ℕ → ℕ
  /-- How many timers have been armed. -/
  timersMade : ℕ
  /-- How many connections have been accepted. -/
  clientsMade : ℕ
  /-- The client being added. -/
  acceptor : Option Job
  /-- The event being handled. -/
  worker : Option Job

/-- The operation is a section that `clients_mtx` guards. -/
def Op.locked : Op → Bool
  | register _ | deregister => true
  | _ => false

namespace ServerWorker

/-- `server_worker_create`. -/
def start : ServerWorker where
  clients := []
  clientsNr := 0
  client := fun _ => .start
  sockfd := fun _ => 0
  timerClient := fun _ => 0
  timersMade := 0
  clientsMade := 0
  acceptor := none
  worker := none

/-! ## Operations -/

/-- The client an operation changes, when the thread works on `c`. `client_timer_destroy` is given
the timer, and finds the client in it. -/
def target (w : ServerWorker) (c : ℕ) : Op → ℕ
  | .timerDestroy id => w.timerClient id
  | _ => c

/-- A client as an operation finds it. The next timer it arms has the next number. -/
def view (w : ServerWorker) (c : ℕ) : State := { w.client c with timersMade := w.timersMade }

/-- The worker after a client has changed. -/
def put (w : ServerWorker) (c : ℕ) (s : State) : ServerWorker :=
  { w with client := Function.update w.client c s, timersMade := s.timersMade }

/-- What an operation does besides: the locked sections of `client_create` and of
`client_disconnect` to the ring and the counter, and `client_timer_setup` to the new timer. -/
def link (w : ServerWorker) (c : ℕ) : (o : Op) → o.Ans → ServerWorker
  -- `epoll_ctl` is part of the section, and only its success adds the client
  | .register _, ok =>
    if ok then { w with clients := w.clients ++ [c], clientsNr := w.clientsNr + 1 } else w
  | .deregister, _ => { w with clients := w.clients.erase c, clientsNr := w.clientsNr - 1 }
  | .armTimer _, _ => { w with timerClient := Function.update w.timerClient w.timersMade c }
  | _, _ => w

/-- What an operation of a thread that works on `c` answers and does. -/
def exec (c : ℕ) (ans : Answers) (o : Op) (w : ServerWorker) : o.Ans × ServerWorker :=
  let d := w.target c o
  let out := Server.exec ans o (w.view d)
  (out.1, (w.link c o out.1).put d out.2)

/-! ## Steps -/

/-- A thread runs through its next locked section, or to its end. -/
def advance (w : ServerWorker) (j : Job) : Option Job × ServerWorker :=
  let out := j.todo.advance (exec j.client j.answers) Op.locked w
  (if out.1.Returned then none else some { j with todo := out.1 }, out.2)

/-- No client has the descriptor. The kernel gives none out that is in use. -/
def Unused (w : ServerWorker) (sockfd : Sockfd) : Prop := ∀ c ∈ w.clients, w.sockfd c ≠ sockfd

instance (w : ServerWorker) (sockfd : Sockfd) : Decidable (w.Unused sockfd) := by
  unfold Unused
  infer_instance

/-- The addition of the client has not finished. -/
def Adding (w : ServerWorker) (c : ℕ) : Prop := ∃ j ∈ w.acceptor, j.client = c

instance (w : ServerWorker) (c : ℕ) : Decidable (w.Adding c) := by
  unfold Adding
  infer_instance

/-- The client `worker_handler` takes from an event registered for the client `c`. -/
def handled (w : ServerWorker) (c : ℕ) : Event → ℕ
  | .timer id => w.timerClient id
  | .client _ => c

/-- A step of the server, as far as it concerns the worker. -/
inductive Move where
  /-- The acceptor has accepted a connection and chosen the worker. -/
  | accept (sockfd : Sockfd) (answers : Answers)
  /-- The acceptor goes on. -/
  | acceptor
  /-- `epoll_wait` returns an event that was registered for the client `c`. -/
  | event (c : ℕ) (e : Event) (answers : Answers)
  /-- The worker goes on. -/
  | worker

/-- One step. A thread takes nothing new on before it is done, and a step that cannot happen
leaves everything as it is. -/
def step (w : ServerWorker) : Move → ServerWorker
  | .accept sockfd answers =>
    if w.acceptor.isNone ∧ w.Unused sockfd then
      { w with
        clientsMade := w.clientsMade + 1
        sockfd := Function.update w.sockfd w.clientsMade sockfd
        acceptor := some { client := w.clientsMade, todo := serverMainThreadLoop, answers } }
    else w
  | .acceptor =>
    match w.acceptor with
    | none => w
    | some j => { (w.advance j).2 with acceptor := (w.advance j).1 }
  | .event c e answers =>
    -- events of a client that is still being added are not handled
    if w.worker.isNone ∧ ¬ w.Adding c ∧ (w.client c).Reportable e then
      { w with worker := some { client := w.handled c e, todo := workerHandler e, answers } }
    else w
  | .worker =>
    match w.worker with
    | none => w
    | some j => { (w.advance j).2 with worker := (w.advance j).1 }

end ServerWorker

/-- A client with a pending question or an armed timer has a current task. -/
def State.HasTask (s : State) : Prop :=
  s.currentQuestion.isSome ∨ s.timers ≠ [] → s.currentTask.isSome

/-- The counter says how many clients are in the ring, which it could not do if it had wrapped;
each client is there once; every timer belongs to the client whose ring it is in; the clients have
the current task they need; and no assertion has failed on the way. -/
structure ServerWorker.Consistent (w : ServerWorker) : Prop where
  counted : w.clientsNr.toNat = w.clients.length
  once : w.clients.Nodup
  owned : ∀ c, ∀ timer ∈ (w.client c).timers, w.timerClient timer.id = c
  current : ∀ c ∈ w.clients, (w.client c).HasTask
  asserted : ∀ c, .aborted ∉ (w.client c).log

end Qkmetisc.Server
