import Qkmetisc.Bstream.Callbacks
import Qkmetisc.Foundations.Prog

/-!
# One client of a server worker: state and operations

The state of one client of `server_worker.c`: the fields of `struct client`, its entry in the
worker's epoll instance, and a log of what happened to it. The functions of `server_worker.c`
are programs over the operations `Op`; `exec` says what an operation does to the state, given
what the environment (the plot, the kernel and the allocator) answers.

Objects of the plot carry their immutable data: a task its timeout, a question its text. The
number of a task is the order in which it was taken from the plot, and the question asked about
a task has the number of the task. Every byte of text remembers what it was written for.

## Main definitions

* `State`: the state of a client, with its log.
* `Op`, `exec`: the operations and what they do.
* `Answers`: what the environment answers while one event is handled.
-/

namespace Qkmetisc.Server

/-- `enum answer_state`. -/
inductive AnswerState where
  | wrong
  | more
  | right
  deriving DecidableEq, Repr

/-- `struct plot_task`. -/
structure Task where
  /-- The number of the task: the first task taken from the plot has number one. -/
  no : ℕ
  /-- `msec_timemout`. -/
  timeout : ℕ
  deriving DecidableEq, Repr

/-- `plot_task_get_timeout_msec`. -/
def plotTaskGetTimeoutMsec (pt : Task) : ℕ := pt.timeout

/-- `struct question`. -/
structure Question where
  /-- The number of the task it was asked about. -/
  no : ℕ
  /-- The characters before the terminating NUL. -/
  text : List Char
  deriving DecidableEq, Repr

/-- What a byte in a send stream was written for. -/
inductive Src where
  /-- The text of the question about a task. -/
  | text (no : ℕ)
  /-- The prompt for the answer to a task. -/
  | prompt (no : ℕ)
  deriving DecidableEq, Repr

/-- The number of the task a byte belongs to. -/
def Src.no : Src → ℕ
  | text no => no
  | prompt no => no

/-- A byte in a send stream. -/
structure Cell where
  char : Char
  src : Src
  deriving DecidableEq, Repr

/-- Flags of an epoll event. -/
structure Events where
  /-- `EPOLLIN`. -/
  input : Bool
  /-- `EPOLLOUT`. -/
  output : Bool
  /-- `EPOLLRDHUP`. -/
  rdhup : Bool
  deriving DecidableEq, Repr

/-- `struct client_timer`. -/
structure Timer where
  /-- The number of the timer. -/
  id : ℕ
  /-- The number of the client's current task when the timer was armed. The source does not
  keep it. -/
  armedFor : Option ℕ
  deriving DecidableEq, Repr

/-- The objects with a life time of their own. -/
inductive Obj where
  | client
  | event
  | plot
  | stream
  | task (no : ℕ)
  | question (no : ℕ)
  | timer
  | timerEvent
  deriving DecidableEq, Repr

/-- What happens to a client and can be observed. -/
inductive Action where
  /-- The socket was added to the epoll instance and the client to the worker's ring. -/
  | registered
  /-- The socket was deleted from the epoll instance and the client from the worker's ring. -/
  | deregistered
  /-- `plot_get_task` returned the task with this number. -/
  | gotTask (no : ℕ)
  /-- `plot_task_get_question` returned a question about the task with this number. -/
  | gotQuestion (no : ℕ)
  /-- `plot_task_check_fd` returned this verdict on the task with this number. -/
  | verdict (no : ℕ) (res : AnswerState)
  /-- These bytes were written to the socket. -/
  | sent (cells : List Cell)
  /-- This timer was armed. -/
  | armed (id : ℕ)
  /-- This timer was destroyed. -/
  | disarmed (id : ℕ)
  /-- This object was destroyed. -/
  | freed (x : Obj)
  /-- The socket was closed. -/
  | closed
  /-- An assertion failed. -/
  | aborted
  deriving DecidableEq, Repr

/-- The state of one client. -/
structure State where
  /-- `timers`: the ring of the client's timers, each with an entry in the epoll instance. -/
  timers : List Timer
  /-- `current_task`. -/
  currentTask : Option Task
  /-- `current_question`. -/
  currentQuestion : Option Question
  /-- `send_stream`. -/
  sendStream : Bstream Cell
  /-- The events the socket's epoll entry asks for, if it has one. -/
  interest : Option Events
  /-- How many tasks have been taken from the plot for the client. -/
  taken : ℕ
  /-- How many timers have been armed for the client. -/
  timersMade : ℕ
  /-- What happened so far, the latest first. -/
  log : List Action

/-- The state before the client is created. -/
def State.start : State where
  timers := []
  currentTask := none
  currentQuestion := none
  sendStream := Bstream.create
  interest := none
  taken := 0
  timersMade := 0
  log := []

/-- What the environment answers while one event is handled, or one client added. An operation
that can be performed twice during that is answered by its argument. -/
structure Answers where
  /-- `malloc` for an object succeeds. -/
  malloc : Obj → Bool
  /-- The plot constructor succeeds. -/
  construct : Bool
  /-- `bstream_create` succeeds. -/
  stream : Bool
  /-- `EPOLL_CTL_ADD` of the socket succeeds. -/
  add : Bool
  /-- `EPOLL_CTL_MOD` of the socket to these events succeeds. -/
  mod : Events → Bool
  /-- The timeout of the task `plot_get_task` returns, if it does not fail. -/
  task : Option ℕ
  /-- The text of the question `plot_task_get_question` returns, if it does not fail. -/
  question : Option (List Char)
  /-- `dup` succeeds. -/
  dup : Bool
  /-- `fdopen` succeeds. -/
  fdopen : Bool
  /-- What `plot_task_check` returns. -/
  check : AnswerState
  /-- The allocation for borrowing these bytes succeeds. -/
  borrow : List Cell → Bool
  /-- The blocks for copied bytes. -/
  block : ℕ → Malloc Cell
  /-- The results of the calls of `write` on the socket. -/
  write : ℕ → Option ℕ
  /-- `timerfd_create` succeeds. -/
  timerfd : Bool
  /-- `EPOLL_CTL_ADD` of the timer succeeds. -/
  addTimer : Bool

/-- An environment in which everything succeeds: every task has a timeout of half a minute, and
an answer is not complete. -/
def generous : Answers where
  malloc _ := true
  construct := true
  stream := true
  add := true
  mod _ := true
  task := some 30000
  question := some ['1', '+', '1']
  dup := true
  fdopen := true
  check := .more
  borrow _ := true
  block _ := some ⟨List.replicate BSTREAM_BUFFER_COPIED_SIZE { char := 'x', src := .text 0 },
    List.length_replicate⟩
  write _ := some 4096
  timerfd := true
  addTimer := true

/-- `plot_task_check_fd`, given what `dup`, `fdopen` and `plot_task_check` answer. -/
def plotTaskCheckFd (ans : Answers) : AnswerState :=
  if !ans.dup then .wrong
  else if !ans.fdopen then .wrong
  else ans.check

/-- The operations of `server_worker.c` on one client. -/
inductive Op where
  /-- `malloc` for an object. -/
  | malloc (x : Obj)
  /-- `pc()`. -/
  | construct
  /-- `bstream_create`. -/
  | streamCreate
  /-- The fields of a new client are set. -/
  | initClient
  /-- The locked section of `client_create`. -/
  | register (ev : Events)
  /-- The locked section of `client_disconnect`. -/
  | deregister
  /-- `close` of the socket. -/
  | closeSocket
  /-- `free` or the destructor of an object. -/
  | free (x : Obj)
  /-- The type and the data of the event are read. -/
  | readEvent
  | getCurrentTask
  | setCurrentTask (pt : Option Task)
  | getCurrentQuestion
  | setCurrentQuestion (q : Option Question)
  | getTimers
  /-- `plot_get_task` of the client's plot. -/
  | plotGetTask
  /-- `plot_task_get_question`. -/
  | plotTaskGetQuestion (pt : Task)
  /-- `question_get_text`. -/
  | questionGetText (q : Question)
  /-- `plot_task_check_fd` with the client's socket. -/
  | plotTaskCheckFd (pt : Task)
  /-- `EPOLL_CTL_MOD` of the socket. -/
  | epollMod (ev : Events)
  /-- `bstream_flush` of the send stream. -/
  | flush
  /-- `bstream_len` of the send stream. -/
  | streamLen
  /-- `bstream_write_borrow` to the send stream. The owner is the object whose memory is
  borrowed, if it has a life time of its own. -/
  | writeBorrow (owner : Option Obj) (cells : List Cell)
  /-- `bstream_write_mem` to the send stream. -/
  | writeMem (cells : List Cell)
  /-- `bstream_read_fd` from the send stream to the socket. -/
  | readFd (len : ℕ)
  /-- `timerfd_create`. -/
  | timerfdCreate
  /-- `EPOLL_CTL_ADD` of a timer. -/
  | epollAddTimer
  /-- The timer is added to the client's ring and set. -/
  | armTimer (msecTimeout : ℕ)
  /-- `client_timer_destroy`. -/
  | timerDestroy (id : ℕ)
  /-- An assertion fails. -/
  | abort
  deriving DecidableEq

/-- The type of the answer to an operation. The booleans say whether it succeeded. -/
@[reducible]
def Op.Ans : Op → Type
  | malloc _ | construct | streamCreate | register _ | epollMod _ | timerfdCreate
  | epollAddTimer => Bool
  | getCurrentTask | plotGetTask => Option Task
  | getCurrentQuestion | plotTaskGetQuestion _ => Option Question
  | getTimers => List Timer
  | questionGetText _ => List Char
  | plotTaskCheckFd _ => AnswerState
  | streamLen | readFd _ => ℕ
  | _ => Unit

/-- Programs of `server_worker.c` about one client. -/
abbrev Program (α : Type) := Prog Op Op.Ans α

/-- The program that performs one operation. -/
abbrev perform (o : Op) : Program o.Ans := Prog.perform o

/-- The state after an action has been observed. -/
def State.observe (s : State) (a : Action) : State := { s with log := a :: s.log }

/-- The state after a task with this timeout has been taken from the plot. -/
def State.take (s : State) (timeout : ℕ) : Task × State :=
  let pt : Task := { no := s.taken + 1, timeout }
  (pt, { s with taken := s.taken + 1 }.observe (.gotTask pt.no))

/-- The state after the socket has been sent bytes of the send stream. -/
def State.send (s : State) (written : ℕ → Option ℕ) (len : ℕ) : ℕ × State :=
  let out := s.sendStream.readFd written len
  (out.1, { s with sendStream := out.2.1 }.observe (.sent out.2.2))

/-- The state after a timer has been armed. -/
def State.arm (s : State) : State :=
  let timer : Timer := { id := s.timersMade, armedFor := s.currentTask.map Task.no }
  { s with timers := s.timers ++ [timer], timersMade := s.timersMade + 1 }.observe
    (.armed timer.id)

/-- What an operation answers and does. -/
def exec (ans : Answers) : (o : Op) → State → o.Ans × State
  | .malloc x, s => (ans.malloc x, s)
  | .construct, s => (ans.construct, s)
  -- a failed call leaves nothing that is used later
  | .streamCreate, s => (ans.stream, { s with sendStream := Bstream.create })
  | .initClient, s =>
    ((), { s with timers := [], currentTask := none, currentQuestion := none })
  | .register ev, s =>
    if ans.add then (true, { s with interest := some ev }.observe .registered) else (false, s)
  | .deregister, s => ((), { s with interest := none }.observe .deregistered)
  | .closeSocket, s => ((), s.observe .closed)
  | .free x, s => ((), s.observe (.freed x))
  | .readEvent, s => ((), s)
  | .getCurrentTask, s => (s.currentTask, s)
  | .setCurrentTask pt, s => ((), { s with currentTask := pt })
  | .getCurrentQuestion, s => (s.currentQuestion, s)
  | .setCurrentQuestion q, s => ((), { s with currentQuestion := q })
  | .getTimers, s => (s.timers, s)
  | .plotGetTask, s =>
    match ans.task with
    | none => (none, s)
    | some timeout => (some (s.take timeout).1, (s.take timeout).2)
  | .plotTaskGetQuestion pt, s =>
    match ans.question with
    | none => (none, s)
    | some text => (some { no := pt.no, text }, s.observe (.gotQuestion pt.no))
  | .questionGetText q, s => (q.text, s)
  -- the verdict is logged with the task that was passed
  | .plotTaskCheckFd pt, s =>
    (Server.plotTaskCheckFd ans, s.observe (.verdict pt.no (Server.plotTaskCheckFd ans)))
  -- the kernel refuses to modify what is not registered
  | .epollMod ev, s =>
    if s.interest.isSome && ans.mod ev then (true, { s with interest := some ev })
    else (false, s)
  | .flush, s => ((), { s with sendStream := s.sendStream.flush })
  | .streamLen, s => (s.sendStream.len, s)
  | .writeBorrow _ cells, s =>
    ((), { s with sendStream := (s.sendStream.writeBorrow cells (ans.borrow cells)).2 })
  | .writeMem cells, s =>
    ((), { s with sendStream := (s.sendStream.writeMem cells ans.block).2 })
  | .readFd len, s => s.send ans.write len
  | .timerfdCreate, s => (ans.timerfd, s)
  | .epollAddTimer, s => (ans.addTimer, s)
  | .armTimer _, s => ((), s.arm)
  | .timerDestroy id, s =>
    ((), { s with timers := s.timers.filter (·.id ≠ id) }.observe (.disarmed id))
  | .abort, s => ((), s.observe .aborted)

end Qkmetisc.Server
