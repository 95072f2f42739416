/-
The v1 worker, and the messages between it and the API (`app/worker/runner.py`,
`app/worker/callback.py`, `app/jobs/worker_client.py`).

A `System` is a `TaskService`, the `Runner` of the worker and what is under way between
them: the submissions the API has sent and the answers to them, and every copy of a
callback the worker has sent. A message may be delivered late, or never; the worker sends a
callback again when it gets no answer, as often as its settings say, and the API gives a
submission up when it gets none.

What `run_fn` returns or raises is left open, and with it the cancel flags, which only
decide when it raises. The lists `outcomes` and `decided` are not in the code: they record
what the runs ended with and which callback decided an attempt.
-/

import Yeodam.Jobs.TaskSteps

namespace Yeodam.Jobs.Tasks

open Yeodam.Lib Yeodam.Schemas Memory

/-! ### The worker and the messages -/

/-- A job the worker was asked to run: `JobRequest`, with the attempt it was sent for. -/
structure Execution where
  attempt : Nat
  tripId : Int
  request : ProcessRequest

/-- `ProgressIn`, `ResultIn` and `FailedIn`, as the API reads them. -/
inductive Callback where
  | progress (step : ProcessStep) (done total : Nat)
  | result (result : ProcessResult)
  | failed (error : ErrorBody)

def Callback.isFinal : Callback → Bool
  | .progress .. => false
  | .result .. | .failed .. => true

/-- What the API does with a callback. -/
def Callback.action (c : Nat) (tripId : Int) : Callback → Action
  | .progress step done total => .progress c tripId step done total
  | .result body => .complete c tripId body
  | .failed body => .fail c tripId body

/-- The thread of the `Runner`: without work, in `run_fn`, or in `_post` with the copy it
waits for and the number of further tries. -/
inductive Thread where
  | idle
  | executing (run : Execution)
  | posting (run : Execution) (callback : Callback) (copy tries : Nat)

structure Worker where
  modelLoaded : Bool
  /-- `_current`. -/
  current : Option Int
  /-- The jobs submitted to the executor. -/
  waiting : List Execution
  thread : Thread

/-- A submission, with what the worker has answered. -/
structure Job where
  run : Execution
  answer : Option SubmitAnswer

/-- A copy of a callback, with the coroutine of the API that has taken it. -/
structure Post where
  run : Execution
  callback : Callback
  handler : Option Nat

structure System where
  service : Service
  worker : Worker
  /-- By the order in which they were sent. -/
  jobs : Nat → Option Job
  sentJobs : Nat
  posts : Nat → Option Post
  sentPosts : Nat
  /-- What the runs ended with. -/
  outcomes : List (Execution × Callback)
  /-- The callback that decided an attempt. -/
  decided : Nat → Option (Execution × Callback)

/-! ### Steps -/

inductive Event where
  /-- A step of the API on its own. -/
  | api (action : Action)
  /-- The worker's answer comes to a coroutine in `worker.submit`. -/
  | answer (coroutine : Nat)
  /-- A submission comes to the worker. -/
  | job (n : Nat)
  | loaded
  /-- The thread takes the next job. -/
  | start
  /-- `run_fn` reports progress. -/
  | report (step : ProcessStep) (done total : Nat)
  /-- `run_fn` returns or raises. -/
  | finish (callback : Callback)
  /-- A copy of a callback comes to the API. -/
  | deliver (n coroutine : Nat)
  /-- The thread gets the answer to its callback. -/
  | reply
  /-- It does not, and tries again or gives up. -/
  | retry

/-- `_retries` of the `CallbackClient`, less the first. -/
def furtherTries (cfg : Settings) : Nat := max cfg.callbackRetries 1 - 1

namespace System

variable (cfg : Settings) (s : System)

/-- The submission a coroutine has just sent. -/
def outgoing (y : Service) : Action → Option Execution
  | .acquire c | .answered c _ =>
      match y.coroutines c with
      | .dispatching i _ => (y.tasks i).map fun task => ⟨i, task.tripId, task.request⟩
      | _ => none
  | _ => none

/-- After a step of the API. -/
def serve (a : Action) (y : Service) : System :=
  match outgoing y a with
  | some run =>
      { s with
        service := y
        jobs := Function.update s.jobs s.sentJobs (some ⟨run, none⟩)
        sentJobs := s.sentJobs + 1 }
  | none => { s with service := y }

/-- The steps of the API that no message of the worker makes. A submission may fail at any
time, for the API as well as for the worker. -/
def own : Action → Bool
  | .progress .. | .complete .. | .fail .. => false
  | .answered _ answer => match answer with
      | .unavailable _ => true
      | _ => false
  | .readied _ modelLoaded => decide (modelLoaded = some true → s.worker.modelLoaded = true)
  | _ => true

def setAnswer (n : Nat) (run : Execution) (answer : SubmitAnswer) : System :=
  { s with jobs := Function.update s.jobs n (some ⟨run, some answer⟩) }

/-- `POST /jobs` and `Runner.submit`. -/
def handle (n : Nat) (run : Execution) : System :=
  if s.worker.modelLoaded = false then s.setAnswer n run .notReady
  else if s.worker.current.isSome then s.setAnswer n run .busy
  else { s.setAnswer n run .accepted with
    worker := { s.worker with
      current := some run.tripId
      waiting := s.worker.waiting ++ [run] } }

/-- `_post` sends a copy. -/
def post (worker : Worker) (run : Execution) (callback : Callback) (tries : Nat) : System :=
  { s with
    worker := { worker with thread := .posting run callback s.sentPosts tries }
    posts := Function.update s.posts s.sentPosts (some ⟨run, callback, none⟩)
    sentPosts := s.sentPosts + 1 }

/-- `_post` returns. -/
def posted (run : Execution) (callback : Callback) : System :=
  { s with worker := { s.worker with
      thread := if callback.isFinal then .idle else .executing run } }

/-- The attempt a callback decides: the one the API looks up, if it runs. -/
def decides (run : Execution) (callback : Callback) : Option Nat :=
  if callback.isFinal then
    match s.service.get run.tripId with
    | some (i, task) => if task.status = .processing then some i else none
    | none => none
  else none

/-- A copy has come to the API. -/
def delivered (n c : Nat) (run : Execution) (callback : Callback) (y : Service) : System :=
  { s with
    service := y
    posts := Function.update s.posts n (some ⟨run, callback, some c⟩)
    decided := match s.decides run callback with
      | some i => Function.update s.decided i (some (run, callback))
      | none => s.decided }

def advance : Event → Option System
  | .api a => if s.own a then (s.service.advance cfg a).map (s.serve a) else none
  | .answer c =>
      match s.jobs (s.sentJobs - 1) with
      | some ⟨_, some answer⟩ =>
          (s.service.advance cfg (.answered c answer)).map (s.serve (.answered c answer))
      | _ => none
  | .job n =>
      match s.jobs n with
      | some ⟨run, none⟩ => some (s.handle n run)
      | _ => none
  | .loaded => some { s with worker := { s.worker with modelLoaded := true } }
  | .start =>
      match s.worker.thread, s.worker.waiting with
      | .idle, run :: waiting =>
          some { s with worker := { s.worker with waiting := waiting, thread := .executing run } }
      | _, _ => none
  | .report step done total =>
      match s.worker.thread with
      | .executing run => some (s.post s.worker run (.progress step done total) (furtherTries cfg))
      | _ => none
  | .finish callback =>
      match s.worker.thread with
      | .executing run =>
          if callback.isFinal then
            some { s.post { s.worker with current := none } run callback (furtherTries cfg) with
              outcomes := (run, callback) :: s.outcomes }
          else none
      | _ => none
  | .deliver n c =>
      match s.posts n with
      | some ⟨run, callback, none⟩ =>
          (s.service.advance cfg (callback.action c run.tripId)).map
            (s.delivered n c run callback)
      | _ => none
  | .reply =>
      match s.worker.thread with
      | .posting run callback copy _ =>
          match (s.posts copy).bind Post.handler with
          | some c =>
              match s.service.coroutines c with
              | .returned _ => some (s.posted run callback)
              | _ => none
          | none => none
      | _ => none
  | .retry =>
      match s.worker.thread with
      | .posting run callback _ (tries + 1) => some (s.post s.worker run callback tries)
      | .posting run callback _ 0 => some (s.posted run callback)
      | _ => none

end System

def SystemStep (cfg : Settings) (s : System) (e : Event) (s' : System) : Prop :=
  s.advance cfg e = some s'

/-- The API and the worker when both start. -/
def SystemInitial (s : System) : Prop :=
  ServiceInitial s.service ∧ s.worker.current = none ∧ s.worker.waiting = [] ∧
    s.worker.thread = .idle ∧ (∀ n, s.jobs n = none) ∧ (∀ n, s.posts n = none) ∧
    s.outcomes = [] ∧ ∀ i, s.decided i = none

abbrev SystemReached (cfg : Settings) : System → Prop :=
  Reachable SystemInitial (SystemStep cfg)

/-! ### Every step -/

variable {cfg : Settings} {s s' : System} {e : Event}

/-- Everything a step of the system can do: a step of the API that may send a submission, a
callback that comes to the API, or something the worker does. -/
inductive Stepped (cfg : Settings) (s : System) : Event → System → Prop where
  | served {e : Event} {a : Action} {y : Service} :
      ServiceStep cfg s.service a y → (∀ c tripId, ∀ callback : Callback,
        a ≠ callback.action c tripId) →
      (e = .api a ∧ s.own a = true ∨ ∃ c answer run, e = .answer c ∧ a = .answered c answer ∧
        s.jobs (s.sentJobs - 1) = some ⟨run, some answer⟩) → Stepped cfg s e (s.serve a y)
  | handled {n : Nat} {run : Execution} :
      s.jobs n = some ⟨run, none⟩ → Stepped cfg s (.job n) (s.handle n run)
  | loaded : Stepped cfg s .loaded { s with worker := { s.worker with modelLoaded := true } }
  | started {run : Execution} {waiting : List Execution} :
      s.worker.thread = .idle → s.worker.waiting = run :: waiting →
      Stepped cfg s .start
        { s with worker := { s.worker with waiting := waiting, thread := .executing run } }
  | reported {run : Execution} {step : ProcessStep} {done total : Nat} :
      s.worker.thread = .executing run →
      Stepped cfg s (.report step done total)
        (s.post s.worker run (.progress step done total) (furtherTries cfg))
  | finished {run : Execution} {callback : Callback} :
      s.worker.thread = .executing run → callback.isFinal = true →
      Stepped cfg s (.finish callback)
        { s.post { s.worker with current := none } run callback (furtherTries cfg) with
          outcomes := (run, callback) :: s.outcomes }
  | delivered {n c : Nat} {run : Execution} {callback : Callback} {y : Service} :
      s.posts n = some ⟨run, callback, none⟩ →
      ServiceStep cfg s.service (callback.action c run.tripId) y →
      Stepped cfg s (.deliver n c) (s.delivered n c run callback y)
  | posted {e : Event} {run : Execution} {callback : Callback} {copy tries : Nat} :
      s.worker.thread = .posting run callback copy tries →
      Stepped cfg s e (s.posted run callback)
  | retried {run : Execution} {callback : Callback} {copy tries : Nat} :
      s.worker.thread = .posting run callback copy (tries + 1) →
      Stepped cfg s .retry (s.post s.worker run callback tries)

theorem stepped_of_step (h : SystemStep cfg s e s') : Stepped cfg s e s' := by
  unfold SystemStep at h
  cases e with
  | api a =>
      simp only [System.advance] at h
      split at h
      · rename_i hown
        obtain ⟨y, hy, rfl⟩ := Option.map_eq_some_iff.mp h
        refine .served hy ?_ (.inl ⟨rfl, hown⟩)
        rintro c tripId callback rfl
        cases callback <;> simp [System.own, Callback.action] at hown
      · cases h
  | answer c =>
      simp only [System.advance] at h
      split at h
      · rename_i run answer hjob
        obtain ⟨y, hy, rfl⟩ := Option.map_eq_some_iff.mp h
        refine .served hy ?_ (.inr ⟨c, answer, run, rfl, rfl, hjob⟩)
        rintro c tripId (_ | _ | _) <;> simp [Callback.action]
      · cases h
  | job n =>
      simp only [System.advance] at h
      split at h
      · rename_i hjob
        cases h
        exact .handled hjob
      · cases h
  | loaded =>
      cases h
      exact .loaded
  | start =>
      simp only [System.advance] at h
      split at h
      · rename_i hidle hwaiting
        cases h
        exact .started hidle hwaiting
      · cases h
  | report step done total =>
      simp only [System.advance] at h
      split at h
      · rename_i hexecuting
        cases h
        exact .reported hexecuting
      · cases h
  | finish callback =>
      simp only [System.advance] at h
      split at h
      · rename_i hexecuting
        split at h
        · rename_i hfinal
          cases h
          exact .finished hexecuting hfinal
        · cases h
      · cases h
  | deliver n c =>
      simp only [System.advance] at h
      split at h
      · rename_i hpost
        obtain ⟨y, hy, rfl⟩ := Option.map_eq_some_iff.mp h
        exact .delivered hpost hy
      · cases h
  | reply =>
      simp only [System.advance] at h
      split at h
      · rename_i hposting
        split at h
        · split at h
          · cases h
            exact .posted hposting
          · cases h
        · cases h
      · cases h
  | retry =>
      simp only [System.advance] at h
      split at h
      · rename_i hposting
        cases h
        exact .retried hposting
      · rename_i hposting
        cases h
        exact .posted hposting
      · cases h

/-! ### Schedules -/

/-- The API and the worker when both have just started. -/
def System.initial : System where
  service := .initial
  worker := ⟨false, none, [], .idle⟩
  jobs := fun _ => none
  sentJobs := 0
  posts := fun _ => none
  sentPosts := 0
  outcomes := []
  decided := fun _ => none

theorem System.initial_initial : SystemInitial .initial :=
  ⟨Service.initial_initial, rfl, rfl, rfl, fun _ => rfl, fun _ => rfl, rfl, fun _ => rfl⟩

/-- The system after a schedule. -/
def played (es : List Event) : System :=
  followed (System.advance sampleSettings) System.initial es

theorem run_played (es fs : List Event)
    (h : (Lib.follow (System.advance sampleSettings) .initial (es ++ fs)).isSome = true) :
    Run (SystemStep sampleSettings) (played es) fs (played (es ++ fs)) :=
  run_followed_append System.initial es fs h

theorem reached_played (es : List Event)
    (h : (Lib.follow (System.advance sampleSettings) .initial es).isSome = true) :
    SystemReached sampleSettings (played es) :=
  ⟨.initial, es, System.initial_initial, run_followed System.initial es h⟩

/-- Trip 7 is submitted, and the worker accepts the `n`th submission it is sent. -/
def taken (c n : Nat) : List Event :=
  [.api (.submit c 7 sampleRequest), .api (.readied c (some true)), .api (.acquire c), .job n]

def emptyResult : ProcessResult := ⟨[], [], [], []⟩

end Yeodam.Jobs.Tasks
