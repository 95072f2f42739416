/-
The v1 tasks in the memory of the API (`app/jobs/task_service.py`,
`app/jobs/task_store.py`).

`Service` is the state of a `TaskService` with its coroutines. A coroutine runs from one
`await` to the next as one step (`Service.advance`); whatever the others do happens in
between, so a schedule is a list of such steps. What the worker answers is part of the
step.

A `Task` is an object that several coroutines may hold: tasks are named by the order of
their creation, the store and the waiters refer to them by that name, and a task that is
replaced in the store is still there for whoever holds it.
-/

import Yeodam.Jobs.Models
import Yeodam.Lib.Dict
import Yeodam.Lib.Run
import Yeodam.Schemas.Process

namespace Yeodam.Jobs.Tasks

open Yeodam.Lib Yeodam.Schemas

/-! ### Tasks and their store -/

structure Task where
  tripId : Int
  request : ProcessRequest
  total : Nat
  createdAt : Time
  status : TaskStatus := .queued
  done : Nat := 0
  currentStep : Option ProcessStep := none
  result : Option ProcessResult := none
  error : Option ErrorBody := none
  startedAt : Option Time := none
  lastCallback : Option Time := none
  finishedAt : Option Time := none

/-- The settings `TaskService` and the `CallbackClient` of the worker read. -/
structure Settings where
  maxConcurrent : Nat
  maxQueue : Nat
  workerDeadSec : Time
  taskTimeoutSec : Time
  callbackRetries : Nat
  concurrent_pos : 1 ≤ maxConcurrent

/-- `_error`. -/
def error (code : ErrorCode) (detail : Value := .obj []) : ErrorBody :=
  { code := code, message := code.defaultMessage, detail := detail }

/-! ### Coroutines -/

/-- What a call returns or raises. -/
inductive Outcome where
  | raised (code : ErrorCode)
  | nothing
  | task (task : Nat)
  /-- `wait_done` returns a task. With it stand the task that was stored for the trip when
  the wait began, and the status of the returned task at this moment. -/
  | waited (stored : Option Nat) (task : Nat) (status : TaskStatus)
deriving DecidableEq

/-- What is left to do after `_dispatch_next`. -/
inductive After where
  | submitted (task : Nat)
  | nothing
deriving DecidableEq

/-- Where a coroutine is suspended. -/
inductive Coroutine where
  | absent
  /-- `submit`, in `worker.ready()`. -/
  | readying (tripId : Int) (request : ProcessRequest)
  /-- `_dispatch_next`, before it has the lock. -/
  | locking (after : After)
  /-- `_dispatch_next`, with the lock, in `worker.submit(task)`. -/
  | dispatching (task : Nat) (after : After)
  /-- `wait_done`, in `waiter.wait()` on the event of a task; with the task that was stored
  for the trip when it began. -/
  | waiting (tripId : Int) (event : Nat) (stored : Option Nat)
  /-- `cancel`, in `worker.cancel`. -/
  | cancelling (task : Nat)
  | returned (outcome : Outcome)

/-- The worker's answer to a submission. -/
inductive SubmitAnswer where
  | accepted
  | busy
  | notReady
  | unavailable (reason : String)
deriving DecidableEq

/-- What the methods of a `TaskService` read and write. -/
structure Memory where
  clock : Time
  /-- Every task, by the order of creation. -/
  tasks : Nat → Option Task
  created : Nat
  /-- `_tasks` of the store. -/
  store : Dict Int Nat
  /-- `_waiters`: the task whose event it is. -/
  waiters : Int → Option Nat
  /-- The events that are set. -/
  fired : Nat → Bool
  lastActivity : Option Time

structure Service extends Memory where
  /-- The coroutine that holds `_dispatch_lock`. -/
  lock : Option Nat
  coroutines : Nat → Coroutine

/-! ### The tasks in memory -/

namespace Memory

variable (cfg : Settings) (m : Memory)

/-- `store.get(trip_id)`. -/
def get (tripId : Int) : Option (Nat × Task) := do
  let i ← m.store.get? tripId
  let task ← m.tasks i
  return (i, task)

/-- `existing is not None and existing.status not in TERMINAL_STATUSES`. -/
def hasOpen (tripId : Int) : Bool :=
  (m.get tripId).any fun existing => !existing.2.status.terminal

def hasStatus (status : TaskStatus) (i : Nat) : Bool :=
  (m.tasks i).any fun task => decide (task.status = status)

/-- `store.count(status)`. -/
def count (status : TaskStatus) : Nat := m.store.count (m.hasStatus status)

def setTask (i : Nat) (task : Task) : Memory :=
  { m with tasks := Function.update m.tasks i (some task) }

/-- A new task is put into the store, with a new event. -/
def add (tripId : Int) (request : ProcessRequest) : Memory :=
  { m.setTask m.created
      { tripId := tripId
        request := request
        total := request.attachments.length
        createdAt := m.clock } with
    created := m.created + 1
    store := m.store.set tripId m.created
    waiters := Function.update m.waiters tripId (some m.created) }

/-- The worker has accepted a task. -/
def start (i : Nat) (task : Task) : Memory :=
  m.setTask i
    { task with
      status := .processing
      startedAt := some m.clock
      lastCallback := some m.clock }

/-- `progress`, on a task that runs. -/
def report (i : Nat) (task : Task) (step : ProcessStep) (done : Nat) : Memory :=
  m.setTask i { task with done := done, currentStep := some step, lastCallback := some m.clock }

/-- `_finish`. -/
def finish (i : Nat) (task : Task) (status : TerminalStatus) (result : Option ProcessResult)
    (error : Option ErrorBody) : Memory :=
  { m.setTask i
      { task with
        status := status.toTaskStatus
        result := result
        error := error
        currentStep := none
        finishedAt := some m.clock } with
    lastActivity := some m.clock
    fired := match m.waiters task.tripId with
      | some event => Function.update m.fired event true
      | none => m.fired }

/-- `min(queued, key=created_at)`. -/
def oldestQueued : Option Nat :=
  (m.store.values.filter (m.hasStatus .queued)).argmin fun i =>
    ((m.tasks i).map Task.createdAt).getD 0

/-- `tick` on one task. Its `assert` never fails (`reached_started`). -/
def watch (i : Nat) : Memory :=
  match m.tasks i with
  | some task =>
      if task.status ≠ .processing then m
      else if task.lastCallback.any fun t => m.clock - t > cfg.workerDeadSec then
        m.finish i task .failed none (some (Tasks.error .workerDead))
      else if task.startedAt.any fun t => m.clock - t > cfg.taskTimeoutSec then
        m.finish i task .failed none (some (Tasks.error .timeout))
      else m
  | none => m

/-- The loop of `tick`. -/
def watchAll : Memory := m.store.values.foldl (fun m' i => m'.watch cfg i) m

/-- What `wait_done` ends with. -/
def lookUp (tripId : Int) (stored : Option Nat) : Outcome :=
  match m.get tripId with
  | some (i, task) => .waited stored i task.status
  | none => .raised .taskNotFound

end Memory

/-! ### Steps -/

inductive Action where
  | pass (time : Time)
  | submit (coroutine : Nat) (tripId : Int) (request : ProcessRequest)
  /-- `worker.ready()` returns `model_loaded`, or nothing. -/
  | readied (coroutine : Nat) (modelLoaded : Option Bool)
  /-- The lock is acquired. -/
  | acquire (coroutine : Nat)
  /-- `worker.submit` returns or raises. -/
  | answered (coroutine : Nat) (answer : SubmitAnswer)
  | waitDone (coroutine : Nat) (tripId : Int)
  /-- A coroutine whose event is set runs on. -/
  | wake (coroutine : Nat)
  | progress (coroutine : Nat) (tripId : Int) (step : ProcessStep) (done total : Nat)
  | complete (coroutine : Nat) (tripId : Int) (result : ProcessResult)
  | fail (coroutine : Nat) (tripId : Int) (error : ErrorBody)
  | cancel (coroutine : Nat) (tripId : Int)
  /-- `worker.cancel` returns. -/
  | cancelled (coroutine : Nat)
  | tick (coroutine : Nat)

namespace Service

variable (cfg : Settings) (x : Service)

/-- Coroutine `c` has run to its next `await`, or returned, leaving `m`. -/
def turn (m : Memory) (c : Nat) (coroutine : Coroutine) : Service :=
  { x with toMemory := m, coroutines := Function.update x.coroutines c coroutine }

/-- `_dispatch_next` returns to its caller. -/
def undispatch (m : Memory) (c : Nat) (after : After) : Service :=
  { x.turn m c (.returned (match after with
      | .submitted i => .task i
      | .nothing => .nothing)) with
    lock := none }

/-- The head of the loop in `_dispatch_next`. -/
def dispatch (m : Memory) (c : Nat) (after : After) : Service :=
  if m.count .processing < cfg.maxConcurrent then
    match m.oldestQueued with
    | some i => { x.turn m c (.dispatching i after) with lock := some c }
    | none => x.undispatch m c after
  else x.undispatch m c after

/-- `submit`, from where the task is put into the store to the lock of `_dispatch_next`. -/
def put (c : Nat) (tripId : Int) (request : ProcessRequest) : Service :=
  x.turn (x.add tripId request) c (.locking (.submitted x.created))

/-- `submit` up to its first `await`. -/
def submit (c : Nat) (tripId : Int) (request : ProcessRequest) : Service :=
  if x.hasOpen tripId then x.turn x.toMemory c (.returned (.raised .duplicateTask))
  else if x.count .processing < cfg.maxConcurrent then
    x.turn x.toMemory c (.readying tripId request)
  else if x.count .queued ≥ cfg.maxQueue then
    x.turn x.toMemory c (.returned (.raised .rateLimited))
  else x.put c tripId request

def waitDone (c : Nat) (tripId : Int) : Service :=
  match x.waiters tripId with
  | some event =>
      if x.fired event then
        x.turn x.toMemory c (.returned (x.lookUp tripId (x.store.get? tripId)))
      else x.turn x.toMemory c (.waiting tripId event (x.store.get? tripId))
  | none => x.turn x.toMemory c (.returned (x.lookUp tripId (x.store.get? tripId)))

def progress (c : Nat) (tripId : Int) (step : ProcessStep) (done : Nat) : Service :=
  match x.get tripId with
  | some (i, task) =>
      if task.status = .processing then
        x.turn (x.report i task step done) c (.returned .nothing)
      else x.turn x.toMemory c (.returned .nothing)
  | none => x.turn x.toMemory c (.returned (.raised .taskNotFound))

/-- `complete` and `fail`, up to `_dispatch_next`. -/
def conclude (c : Nat) (tripId : Int) (status : TerminalStatus) (result : Option ProcessResult)
    (error : Option ErrorBody) : Service :=
  match x.get tripId with
  | some (i, task) =>
      if task.status = .processing then
        x.turn (x.finish i task status result error) c (.locking .nothing)
      else x.turn x.toMemory c (.returned .nothing)
  | none => x.turn x.toMemory c (.returned (.raised .taskNotFound))

def complete (c : Nat) (tripId : Int) (result : ProcessResult) : Service :=
  x.conclude c tripId .completed (some result) none

def fail (c : Nat) (tripId : Int) (error : ErrorBody) : Service :=
  if error.code = .canceled then x.conclude c tripId .canceled none none
  else x.conclude c tripId .failed none (some error)

def cancel (c : Nat) (tripId : Int) : Service :=
  match x.get tripId with
  | some (i, task) =>
      if task.status.terminal then
        x.turn x.toMemory c (.returned (.raised .taskNotCancelable))
      else if task.status = .queued then
        x.turn (x.finish i task .canceled none none) c (.returned (.task i))
      else x.turn x.toMemory c (.cancelling i)
  | none => x.turn x.toMemory c (.returned (.raised .taskNotFound))

/-- `_dispatch_next`, when the worker has answered. -/
def answered (c i : Nat) (after : After) (answer : SubmitAnswer) : Service :=
  match x.tasks i, answer with
  | some task, .accepted => x.dispatch cfg (x.start i task) c after
  | some task, .unavailable reason =>
      x.dispatch cfg (x.finish i task .failed none
        (some (Tasks.error .workerDead (.record [("reason", .ofString reason)])))) c after
  | _, _ => x.undispatch x.toMemory c after

/-- The lock is taken as a step of its own, also where nobody holds it; this only adds
schedules. -/
def advance : Action → Option Service
  | .pass time => if x.clock ≤ time then some { x with clock := time } else none
  | .submit c tripId request =>
      match x.coroutines c with
      | .absent => some (x.submit cfg c tripId request)
      | _ => none
  | .readied c modelLoaded =>
      match x.coroutines c with
      | .readying tripId request =>
          if modelLoaded = some true then some (x.put c tripId request)
          else some (x.turn x.toMemory c (.returned (.raised .modelNotReady)))
      | _ => none
  | .acquire c =>
      match x.coroutines c, x.lock with
      | .locking after, none => some (x.dispatch cfg x.toMemory c after)
      | _, _ => none
  | .answered c answer =>
      match x.coroutines c with
      | .dispatching i after => some (x.answered cfg c i after answer)
      | _ => none
  | .waitDone c tripId =>
      match x.coroutines c with
      | .absent => some (x.waitDone c tripId)
      | _ => none
  | .wake c =>
      match x.coroutines c with
      | .waiting tripId event stored =>
          if x.fired event then some (x.turn x.toMemory c (.returned (x.lookUp tripId stored)))
          else none
      | _ => none
  | .progress c tripId step done _ =>
      match x.coroutines c with
      | .absent => some (x.progress c tripId step done)
      | _ => none
  | .complete c tripId result =>
      match x.coroutines c with
      | .absent => some (x.complete c tripId result)
      | _ => none
  | .fail c tripId error =>
      match x.coroutines c with
      | .absent => some (x.fail c tripId error)
      | _ => none
  | .cancel c tripId =>
      match x.coroutines c with
      | .absent => some (x.cancel c tripId)
      | _ => none
  | .cancelled c =>
      match x.coroutines c with
      | .cancelling i => some (x.turn x.toMemory c (.returned (.task i)))
      | _ => none
  | .tick c =>
      match x.coroutines c with
      | .absent => some (x.turn (x.watchAll cfg) c (.locking .nothing))
      | _ => none

end Service

def ServiceStep (cfg : Settings) (x : Service) (a : Action) (y : Service) : Prop :=
  x.advance cfg a = some y

/-- The service when the API starts. -/
def ServiceInitial (x : Service) : Prop :=
  (∀ i, x.tasks i = none) ∧ x.created = 0 ∧ x.store = ∅ ∧ (∀ t, x.waiters t = none) ∧
    (∀ i, x.fired i = false) ∧ x.lock = none ∧ ∀ c, x.coroutines c = .absent

abbrev ServiceReached (cfg : Settings) : Service → Prop :=
  Reachable ServiceInitial (ServiceStep cfg)

end Yeodam.Jobs.Tasks
