import Qkmetisc.Foundations.InputMachine
import Qkmetisc.Server.Client

/-!
# The functions of `server_worker.c`

Each function that works on a client, as a program. A boolean result says whether the function
returned success (`0`, or a client); a label that is the target of a `goto` is a program of its
own.

## Main definitions

* `serverWorkerAddClient`: what the acceptor thread does to add a client.
* `workerHandler`: what the worker thread does with one event.
* `State.added`, `State.serve`: both as steps of a single thread.
-/

namespace Qkmetisc.Server

/-! ## Timers -/

/-- `client_timer_destroy`. -/
def clientTimerDestroy (id : ℕ) : Program Unit := perform (.timerDestroy id)

namespace ClientTimerSetup

/-- The label `free_timer`. -/
def freeTimer : Program Bool := do
  perform (.free .timer)
  return false

/-- The label `free_event`. -/
def freeEvent : Program Bool := do
  perform (.free .timerEvent)
  freeTimer

end ClientTimerSetup

/-- `client_timer_setup`. -/
def clientTimerSetup (msecTimeout : ℕ) : Program Bool := do
  if ← perform (.malloc .timer) then
    if ← perform (.malloc .timerEvent) then
      if ← perform .timerfdCreate then
        if ← perform .epollAddTimer then
          perform (.armTimer msecTimeout)
          return true
        else ClientTimerSetup.freeEvent
      else ClientTimerSetup.freeEvent
    else ClientTimerSetup.freeTimer
  else return false

/-! ## Creating and disconnecting a client -/

namespace ClientCreate

/-- The label `free_cl`. -/
def freeCl : Program Bool := do
  perform (.free .client)
  return false

/-- The label `destroy_plot`. -/
def destroyPlot : Program Bool := do
  perform (.free .plot)
  freeCl

/-- The label `destroy_cl`. -/
def destroyCl : Program Bool := do
  perform (.free .stream)
  destroyPlot

/-- The label `free_event`. -/
def freeEvent : Program Bool := do
  perform (.free .event)
  destroyCl

end ClientCreate

/-- `client_create`. -/
def clientCreate : Program Bool := do
  if ← perform (.malloc .client) then
    if ← perform .construct then
      if ← perform .streamCreate then
        perform .initClient
        if ← perform (.malloc .event) then
          -- from here on the worker thread can get events of the client
          if ← perform (.register { input := false, output := false, rdhup := true }) then
            return true
          else ClientCreate.freeEvent
        else ClientCreate.destroyCl
      else ClientCreate.destroyPlot
    else ClientCreate.freeCl
  else return false

/-- `question_destroy` of a question that may be `NULL`, which it asserts it is not. -/
def questionDestroy : Option Question → Program Unit
  | none => perform .abort
  | some q => perform (.free (.question q.no))

/-- `if ( cl->current_question ) question_destroy(cl->current_question)`. -/
def destroyCurrentQuestion : Program Unit := do
  match ← perform .getCurrentQuestion with
  | none => return ()
  | some q => questionDestroy (some q)

/-- `if ( cl->current_task ) plot_task_destroy(cl->current_task)`. -/
def destroyCurrentTask : Program Unit := do
  match ← perform .getCurrentTask with
  | none => return ()
  | some pt => perform (.free (.task pt.no))

/-- The loop of `client_disconnect` over the timers: it destroys the head of the ring until the
ring is empty, which is every timer that is in the ring when the loop starts. -/
def destroyTimers : List Timer → Program Unit
  | [] => return ()
  | timer :: timers => do
    clientTimerDestroy timer.id
    destroyTimers timers

/-- The part of `client_disconnect` after its locked section. -/
def ClientDisconnect.release : Program Unit := do
  perform .closeSocket
  perform (.free .event)
  perform (.free .plot)
  perform (.free .stream)
  destroyCurrentQuestion
  destroyCurrentTask
  let timers ← perform .getTimers
  destroyTimers timers
  perform (.free .client)

/-- `client_disconnect`. -/
def clientDisconnect : Program Unit := do
  perform .deregister
  ClientDisconnect.release

/-! ## Tasks -/

/-- The text of a question as `bstream_write_borrow(bst, text, strlen(text))` takes it. -/
def Question.cells (no : ℕ) (text : List Char) : List Cell :=
  text.map fun char => { char, src := .text no }

/-- What `snprintf` leaves in `buf`, of 256 bytes with the terminating NUL. -/
def timedPrompt (no timeout : ℕ) : List Cell :=
  let buf := "\nAnswer (timeout ".toList ++ Nat.toDigits 10 timeout ++ " msec): ".toList
  (buf.take 255).map fun char => { char, src := .prompt no }

/-- `extra_text` with its terminating NUL, which `sizeof` counts. -/
def untimedPrompt (no : ℕ) : List Cell :=
  ("\nAnswer (no timeout): ".toList ++ ['\x00']).map fun char => { char, src := .prompt no }

/-- `client_send_task_text`; the task number says what the text is for. The untimed prompt is
borrowed from an array of the function itself. -/
def clientSendTaskText (no : ℕ) (text : List Char) (timeout : ℕ) : Program Unit := do
  if timeout ≠ 0 then
    perform (.writeBorrow (some (.question no)) (Question.cells no text))
    perform (.writeMem (timedPrompt no timeout))
  else
    perform (.writeBorrow (some (.question no)) (Question.cells no text))
    perform (.writeBorrow none (untimedPrompt no))

namespace ClientNextTask

/-- The label `destroy_plot_task`. -/
def destroyPlotTask (newTask : Task) : Program Bool := do
  perform (.free (.task newTask.no))
  return false

/-- The label `destroy_question`. -/
def destroyQuestion (newTask : Task) (q : Question) : Program Bool := do
  perform (.free (.question q.no))
  destroyPlotTask newTask

/-- The part of `client_next_task` after the registration has been modified. -/
def showTask (newTask : Task) (q : Question) : Program Bool := do
  perform (.setCurrentTask (some newTask))
  perform (.setCurrentQuestion (some q))
  let text ← perform (.questionGetText q)
  clientSendTaskText newTask.no text (plotTaskGetTimeoutMsec newTask)
  return true

end ClientNextTask

/-- `client_next_task`. -/
def clientNextTask : Program Bool := do
  perform .flush
  destroyCurrentTask
  perform (.setCurrentTask none)
  -- the timers of the old task stay armed
  match ← perform .plotGetTask with
  | none => return false
  | some newTask =>
    match ← perform (.plotTaskGetQuestion newTask) with
    | none => ClientNextTask.destroyPlotTask newTask
    | some q =>
      if ← perform (.epollMod { input := true, output := true, rdhup := true }) then
        ClientNextTask.showTask newTask q
      else ClientNextTask.destroyQuestion newTask q

/-- The end of `client_send_text`: a timer is set up for the current task if it has a timeout.
The result of `client_timer_setup` is not looked at. -/
def startTimer : Program Unit := do
  match ← perform .getCurrentTask with
  | none => perform .abort
  | some pt =>
    if plotTaskGetTimeoutMsec pt ≠ 0 then
      let _ ← clientTimerSetup (plotTaskGetTimeoutMsec pt)
      return ()
    else return ()

/-- `client_send_text`. -/
def clientSendText : Program Bool := do
  match ← perform .getCurrentQuestion with
  | none => return true
  | some _ =>
    let len ← perform .streamLen
    let _ ← perform (.readFd len)
    -- `bstream_empty`
    if (← perform .streamLen) = 0 then
      questionDestroy (← perform .getCurrentQuestion)
      perform (.setCurrentQuestion none)
      if ← perform (.epollMod { input := true, output := false, rdhup := true }) then
        startTimer
        return true
      else return false
    else return true

/-! ## The two threads -/

/-- `server_worker_add_client`. -/
def serverWorkerAddClient : Program Bool := do
  if ← clientCreate then
    if ← clientNextTask then return true
    else
      clientDisconnect
      return false
  else return false

/-- An event reported by `epoll_wait`. -/
inductive Event where
  /-- The timer with this number has expired. -/
  | timer (id : ℕ)
  /-- Something happened on the socket. -/
  | client (ev : Events)
  deriving DecidableEq, Repr

namespace WorkerHandler

/-- What the handler does when a timer has expired. -/
def timerExpired (id : ℕ) : Program Unit := do
  clientTimerDestroy id
  match ← perform .getCurrentTask with
  | none => perform .abort
  | some pt =>
    -- an incomplete answer is as bad as a wrong one here
    if (← perform (.plotTaskCheckFd pt)) ≠ .right then clientDisconnect
    else
      if ← clientNextTask then return ()
      else clientDisconnect

/-- The branch for `EPOLLIN`; the result is false where the source continues with the next
event. -/
def handleInput : Program Bool := do
  match ← perform .getCurrentTask with
  | none => return true
  | some pt =>
    match ← perform (.plotTaskCheckFd pt) with
    | .wrong =>
      clientDisconnect
      return false
    -- `continue`: the other flags of the event are not looked at
    | .more => return false
    | .right =>
      if ← clientNextTask then return true
      else
        clientDisconnect
        return false

/-- The branch for `EPOLLOUT`; the result is false where the source continues with the next
event. -/
def handleOutput : Program Bool := do
  if ← clientSendText then return true
  else
    clientDisconnect
    return false

/-- What the handler does with an event on the socket, from the branch for `EPOLLOUT` on. -/
def afterInput (ev : Events) : Program Unit := do
  if ← (if ev.output then handleOutput else return true) then
    if ev.rdhup then clientDisconnect

end WorkerHandler

/-- The body of the loop of `worker_handler`, after `epoll_wait` has returned. -/
def workerHandler : Event → Program Unit
  | .timer id => WorkerHandler.timerExpired id
  | .client ev => do
    perform .readEvent
    if ← (if ev.input then WorkerHandler.handleInput else return true) then
      WorkerHandler.afterInput ev

/-! ## One thread -/

/-- The event can be about the client: it is in the epoll instance, and so is the timer. -/
def State.Deliverable (s : State) : Event → Prop
  | .timer id => ∃ timer ∈ s.timers, timer.id = id
  | .client _ => s.interest.isSome

instance (s : State) (e : Event) : Decidable (s.Deliverable e) := by
  cases e <;> unfold State.Deliverable <;> infer_instance

/-- One event, with what the environment answers while it is handled. -/
structure Input where
  event : Event
  answers : Answers

/-- The client after `server_worker_add_client`. -/
def State.added (ans : Answers) : State := (serverWorkerAddClient.run (exec ans) .start).2

/-- The client after the worker has handled an event. -/
def State.serve (s : State) (i : Input) : State :=
  if s.Deliverable i.event then ((workerHandler i.event).run (exec i.answers) s).2 else s

end Qkmetisc.Server
