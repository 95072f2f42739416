/-
What the steps of a `TaskService` do.

`Moved` is everything a step can do: most steps are a `Turn` of one coroutine, the others
run `_dispatch_next` (`Dispatched`) or leave it. `Wrote` forgets the coroutines and says
what becomes of the tasks: one is stored, started, reported on or finished, or the
watchdog goes over them all (`watchAll_induction`).
-/

import Yeodam.Jobs.TaskService

namespace Yeodam.Jobs.Tasks

open Yeodam.Lib Yeodam.Schemas

variable {cfg : Settings} {x y : Service} {a : Action}

/-! ### Every step -/

/-- A step of a coroutine that is not in `_dispatch_next`: what it leaves in memory and
where it waits next. -/
inductive Turn (cfg : Settings) (x : Service) : Action → Memory → Nat → Coroutine → Prop where
  | asking {c : Nat} {tripId : Int} {request : ProcessRequest} :
      x.hasOpen tripId = false → x.count .processing < cfg.maxConcurrent →
      Turn cfg x (.submit c tripId request) x.toMemory c (.readying tripId request)
  | stored {c : Nat} {tripId : Int} {request : ProcessRequest} :
      x.hasOpen tripId = false → cfg.maxConcurrent ≤ x.count .processing →
      x.count .queued < cfg.maxQueue →
      Turn cfg x (.submit c tripId request) (x.add tripId request) c
        (.locking (.submitted x.created))
  | readied {c : Nat} {tripId : Int} {request : ProcessRequest} :
      x.coroutines c = .readying tripId request →
      Turn cfg x (.readied c (some true)) (x.add tripId request) c
        (.locking (.submitted x.created))
  | waiting {c : Nat} {tripId : Int} {event : Nat} :
      x.waiters tripId = some event → x.fired event = false →
      Turn cfg x (.waitDone c tripId) x.toMemory c (.waiting tripId event (x.store.get? tripId))
  | found {c : Nat} {tripId : Int} :
      (∀ event, x.waiters tripId = some event → x.fired event = true) →
      Turn cfg x (.waitDone c tripId) x.toMemory c
        (.returned (x.lookUp tripId (x.store.get? tripId)))
  | woken {c : Nat} {tripId : Int} {event : Nat} {stored : Option Nat} :
      x.coroutines c = .waiting tripId event stored → x.fired event = true →
      Turn cfg x (.wake c) x.toMemory c (.returned (x.lookUp tripId stored))
  | reported {c : Nat} {tripId : Int} {step : ProcessStep} {done total i : Nat} {task : Task} :
      x.get tripId = some (i, task) → task.status = .processing →
      Turn cfg x (.progress c tripId step done total) (x.report i task step done) c
        (.returned .nothing)
  | completed {c : Nat} {tripId : Int} {result : ProcessResult} {i : Nat} {task : Task} :
      x.get tripId = some (i, task) → task.status = .processing →
      Turn cfg x (.complete c tripId result) (x.finish i task .completed (some result) none) c
        (.locking .nothing)
  | aborted {c : Nat} {tripId : Int} {error : ErrorBody} {i : Nat} {task : Task} :
      x.get tripId = some (i, task) → task.status = .processing → error.code = .canceled →
      Turn cfg x (.fail c tripId error) (x.finish i task .canceled none none) c
        (.locking .nothing)
  | failed {c : Nat} {tripId : Int} {error : ErrorBody} {i : Nat} {task : Task} :
      x.get tripId = some (i, task) → task.status = .processing → error.code ≠ .canceled →
      Turn cfg x (.fail c tripId error) (x.finish i task .failed none (some error)) c
        (.locking .nothing)
  | canceled {c : Nat} {tripId : Int} {i : Nat} {task : Task} :
      x.get tripId = some (i, task) → task.status = .queued →
      Turn cfg x (.cancel c tripId) (x.finish i task .canceled none none) c (.returned (.task i))
  | cancelling {c : Nat} {tripId : Int} {i : Nat} {task : Task} :
      x.get tripId = some (i, task) → task.status = .processing →
      Turn cfg x (.cancel c tripId) x.toMemory c (.cancelling i)
  | ticked {c : Nat} : Turn cfg x (.tick c) (x.watchAll cfg) c (.locking .nothing)
  /-- Everything that is refused or has nothing to do. -/
  | ended {a : Action} {c : Nat} {outcome : Outcome} :
      (∀ stored i status, outcome ≠ .waited stored i status) →
      Turn cfg x a x.toMemory c (.returned outcome)

/-- A step that comes to the head of the loop in `_dispatch_next`. -/
inductive Dispatched (x : Service) : Action → Memory → Nat → After → Prop where
  | acquired {c : Nat} {after : After} :
      x.coroutines c = .locking after → x.lock = none →
      Dispatched x (.acquire c) x.toMemory c after
  | accepted {c i : Nat} {after : After} {task : Task} :
      x.coroutines c = .dispatching i after → x.tasks i = some task →
      Dispatched x (.answered c .accepted) (x.start i task) c after
  | unreachable {c i : Nat} {after : After} {task : Task} {reason : String} :
      x.coroutines c = .dispatching i after → x.tasks i = some task →
      Dispatched x (.answered c (.unavailable reason))
        (x.finish i task .failed none
          (some (Tasks.error .workerDead (.record [("reason", .ofString reason)])))) c after

def Coroutine.isDispatching : Coroutine → Bool
  | .dispatching .. => true
  | _ => false

def Action.isAnswer : Action → Bool
  | .answered .. => true
  | _ => false

/-- Everything a step can do. -/
inductive Moved (cfg : Settings) (x : Service) : Action → Service → Prop where
  | pass {time : Time} :
      x.clock ≤ time → Moved cfg x (.pass time) { x with clock := time }
  | turn {a : Action} {m : Memory} {c : Nat} {coroutine : Coroutine} :
      (x.coroutines c).isDispatching = false → coroutine.isDispatching = false →
      a.isAnswer = false → Turn cfg x a m c coroutine → Moved cfg x a (x.turn m c coroutine)
  | dispatch {a : Action} {m : Memory} {c : Nat} {after : After} :
      Dispatched x a m c after → Moved cfg x a (x.dispatch cfg m c after)
  | kept {c i : Nat} {after : After} {answer : SubmitAnswer} :
      x.coroutines c = .dispatching i after →
      (∀ task, x.tasks i = some task → answer = .busy ∨ answer = .notReady) →
      Moved cfg x (.answered c answer) (x.undispatch x.toMemory c after)

theorem Turn.moved {m : Memory} {c : Nat} {before coroutine : Coroutine}
    (hc : x.coroutines c = before) (h : Turn cfg x a m c coroutine)
    (hbefore : before.isDispatching = false := by rfl)
    (hafter : coroutine.isDispatching = false := by rfl)
    (ha : a.isAnswer = false := by rfl) : Moved cfg x a (x.turn m c coroutine) :=
  .turn (hc.symm ▸ hbefore) hafter ha h

theorem moved_of_step (h : ServiceStep cfg x a y) : Moved cfg x a y := by
  unfold ServiceStep at h
  cases a with
  | pass time =>
      simp only [Service.advance] at h
      split at h
      · rename_i hle
        cases h
        exact .pass hle
      · cases h
  | submit c tripId request =>
      simp only [Service.advance] at h
      split at h
      · rename_i habsent
        cases h
        unfold Service.submit
        split
        · exact Turn.moved habsent (.ended (by simp))
        · rename_i hopen
          rw [Bool.not_eq_true] at hopen
          split
          · rename_i hslot
            exact Turn.moved habsent (.asking hopen hslot)
          · rename_i hslot
            split
            · exact Turn.moved habsent (.ended (by simp))
            · rename_i hroom
              exact Turn.moved habsent (.stored hopen (not_lt.mp hslot) (not_le.mp hroom))
      · cases h
  | readied c modelLoaded =>
      simp only [Service.advance] at h
      split at h
      · rename_i hready
        split at h
        · rename_i hloaded
          subst hloaded
          cases h
          exact Turn.moved hready (.readied hready)
        · cases h
          exact Turn.moved hready (.ended (by simp))
      · cases h
  | acquire c =>
      simp only [Service.advance] at h
      split at h
      · rename_i hlocking hfree
        cases h
        exact .dispatch (.acquired hlocking hfree)
      · cases h
  | answered c answer =>
      simp only [Service.advance] at h
      split at h
      · rename_i i after hdispatching
        cases h
        unfold Service.answered
        split
        · rename_i htask
          exact .dispatch (.accepted hdispatching htask)
        · rename_i htask
          exact .dispatch (.unreachable hdispatching htask)
        · rename_i answer _ _ haccepted hunavailable
          refine .kept hdispatching fun task htask => ?_
          cases answer with
          | accepted => exact (haccepted task htask rfl).elim
          | unavailable reason => exact (hunavailable task reason htask rfl).elim
          | busy => exact .inl rfl
          | notReady => exact .inr rfl
      · cases h
  | waitDone c tripId =>
      simp only [Service.advance] at h
      split at h
      · rename_i habsent
        cases h
        unfold Service.waitDone
        split
        · rename_i event hevent
          split
          · rename_i hfired
            exact Turn.moved habsent (.found (by simp [hevent, hfired]))
          · rename_i hfired
            exact Turn.moved habsent (.waiting hevent (by simpa using hfired))
        · rename_i hnone
          exact Turn.moved habsent (.found (by simp [hnone]))
      · cases h
  | wake c =>
      simp only [Service.advance] at h
      split at h
      · rename_i hwaiting
        split at h
        · rename_i hfired
          cases h
          exact Turn.moved hwaiting (.woken hwaiting hfired)
        · cases h
      · cases h
  | progress c tripId step done total =>
      simp only [Service.advance] at h
      split at h
      · rename_i habsent
        cases h
        unfold Service.progress
        split
        · rename_i hget
          split
          · rename_i hstatus
            exact Turn.moved habsent (.reported hget hstatus)
          · exact Turn.moved habsent (.ended (by simp))
        · exact Turn.moved habsent (.ended (by simp))
      · cases h
  | complete c tripId result =>
      simp only [Service.advance] at h
      split at h
      · rename_i habsent
        cases h
        unfold Service.complete Service.conclude
        split
        · rename_i hget
          split
          · rename_i hstatus
            exact Turn.moved habsent (.completed hget hstatus)
          · exact Turn.moved habsent (.ended (by simp))
        · exact Turn.moved habsent (.ended (by simp))
      · cases h
  | fail c tripId error =>
      simp only [Service.advance] at h
      split at h
      · rename_i habsent
        cases h
        unfold Service.fail Service.conclude
        split
        · rename_i hcode
          split
          · rename_i hget
            split
            · rename_i hstatus
              exact Turn.moved habsent (.aborted hget hstatus hcode)
            · exact Turn.moved habsent (.ended (by simp))
          · exact Turn.moved habsent (.ended (by simp))
        · rename_i hcode
          split
          · rename_i hget
            split
            · rename_i hstatus
              exact Turn.moved habsent (.failed hget hstatus hcode)
            · exact Turn.moved habsent (.ended (by simp))
          · exact Turn.moved habsent (.ended (by simp))
      · cases h
  | cancel c tripId =>
      simp only [Service.advance] at h
      split at h
      · rename_i habsent
        cases h
        unfold Service.cancel
        split
        · rename_i i task hget
          split
          · exact Turn.moved habsent (.ended (by simp))
          · rename_i hterminal
            split
            · rename_i hqueued
              exact Turn.moved habsent (.canceled hget hqueued)
            · rename_i hqueued
              refine Turn.moved habsent (.cancelling hget ?_)
              cases hstatus : task.status <;> simp_all [TaskStatus.terminal]
        · exact Turn.moved habsent (.ended (by simp))
      · cases h
  | cancelled c =>
      simp only [Service.advance] at h
      split at h
      · rename_i hcancelling
        cases h
        exact Turn.moved hcancelling (.ended (by simp))
      · cases h
  | tick c =>
      simp only [Service.advance] at h
      split at h
      · rename_i habsent
        cases h
        exact Turn.moved habsent .ticked
      · cases h

/-! ### What a step writes -/

/-- A step that stores a new task for a trip. -/
inductive Stores (cfg : Settings) (x : Service) : Action → Int → ProcessRequest → Prop where
  | submit {c : Nat} {tripId : Int} {request : ProcessRequest} :
      x.hasOpen tripId = false → cfg.maxConcurrent ≤ x.count .processing →
      x.count .queued < cfg.maxQueue → Stores cfg x (.submit c tripId request) tripId request
  | readied {c : Nat} {tripId : Int} {request : ProcessRequest} :
      x.coroutines c = .readying tripId request →
      Stores cfg x (.readied c (some true)) tripId request

/-- A step other than a tick that finishes a task. -/
inductive Finishes (x : Service) : Action → Nat → Task → TerminalStatus →
    Option ProcessResult → Option ErrorBody → Prop where
  | completed {c : Nat} {tripId : Int} {result : ProcessResult} {i : Nat} {task : Task} :
      x.get tripId = some (i, task) → task.status = .processing →
      Finishes x (.complete c tripId result) i task .completed (some result) none
  | aborted {c : Nat} {tripId : Int} {error : ErrorBody} {i : Nat} {task : Task} :
      x.get tripId = some (i, task) → task.status = .processing → error.code = .canceled →
      Finishes x (.fail c tripId error) i task .canceled none none
  | failed {c : Nat} {tripId : Int} {error : ErrorBody} {i : Nat} {task : Task} :
      x.get tripId = some (i, task) → task.status = .processing → error.code ≠ .canceled →
      Finishes x (.fail c tripId error) i task .failed none (some error)
  | canceled {c : Nat} {tripId : Int} {i : Nat} {task : Task} :
      x.get tripId = some (i, task) → task.status = .queued →
      Finishes x (.cancel c tripId) i task .canceled none none
  | unreachable {c i : Nat} {after : After} {task : Task} {reason : String} :
      x.coroutines c = .dispatching i after → x.tasks i = some task →
      Finishes x (.answered c (.unavailable reason)) i task .failed none
        (some (Tasks.error .workerDead (.record [("reason", .ofString reason)])))

/-- What a step leaves in memory. -/
inductive Wrote (cfg : Settings) (x : Service) : Action → Memory → Prop where
  | same {a : Action} : Wrote cfg x a x.toMemory
  | pass {time : Time} :
      x.clock ≤ time → Wrote cfg x (.pass time) { x.toMemory with clock := time }
  | added {a : Action} {tripId : Int} {request : ProcessRequest} :
      Stores cfg x a tripId request → Wrote cfg x a (x.add tripId request)
  | started {c i : Nat} {after : After} {task : Task} :
      x.coroutines c = .dispatching i after → x.tasks i = some task →
      Wrote cfg x (.answered c .accepted) (x.start i task)
  | reported {c : Nat} {tripId : Int} {step : ProcessStep} {done total i : Nat} {task : Task} :
      x.get tripId = some (i, task) → task.status = .processing →
      Wrote cfg x (.progress c tripId step done total) (x.report i task step done)
  | finished {a : Action} {i : Nat} {task : Task} {status : TerminalStatus}
      {result : Option ProcessResult} {error : Option ErrorBody} :
      Finishes x a i task status result error →
      Wrote cfg x a (x.finish i task status result error)
  | ticked {c : Nat} : Wrote cfg x (.tick c) (x.watchAll cfg)

@[simp] theorem toMemory_turn (m : Memory) (c : Nat) (coroutine : Coroutine) :
    (x.turn m c coroutine).toMemory = m := rfl

@[simp] theorem toMemory_undispatch (m : Memory) (c : Nat) (after : After) :
    (x.undispatch m c after).toMemory = m := rfl

@[simp] theorem toMemory_dispatch (m : Memory) (c : Nat) (after : After) :
    (x.dispatch cfg m c after).toMemory = m := by
  unfold Service.dispatch
  split
  · split <;> rfl
  · rfl

theorem Turn.wrote {m : Memory} {c : Nat} {coroutine : Coroutine}
    (h : Turn cfg x a m c coroutine) : Wrote cfg x a m := by
  cases h with
  | asking | waiting | found | woken | cancelling | ended => exact .same
  | stored hopen hfull hroom => exact .added (.submit hopen hfull hroom)
  | readied hready => exact .added (.readied hready)
  | reported hget hstatus => exact .reported hget hstatus
  | completed hget hstatus => exact .finished (.completed hget hstatus)
  | aborted hget hstatus hcode => exact .finished (.aborted hget hstatus hcode)
  | failed hget hstatus hcode => exact .finished (.failed hget hstatus hcode)
  | canceled hget hstatus => exact .finished (.canceled hget hstatus)
  | ticked => exact .ticked

theorem Dispatched.wrote {m : Memory} {c : Nat} {after : After} (h : Dispatched x a m c after) :
    Wrote cfg x a m := by
  cases h with
  | acquired => exact .same
  | accepted hdispatching htask => exact .started hdispatching htask
  | unreachable hdispatching htask => exact .finished (.unreachable hdispatching htask)

theorem wrote_of_step (h : ServiceStep cfg x a y) : Wrote cfg x a y.toMemory := by
  cases moved_of_step h with
  | pass hle => exact .pass hle
  | turn _ _ _ hturn => exact hturn.wrote
  | dispatch hdispatched =>
      rw [toMemory_dispatch]
      exact hdispatched.wrote
  | kept => exact .same

/-! ### Reading the memory -/

namespace Memory

variable {m : Memory} {i j : Nat} {tripId t : Int} {request : ProcessRequest} {task : Task}
  {status : TerminalStatus} {result : Option ProcessResult} {error : Option ErrorBody}

theorem get_eq_some :
    m.get tripId = some (i, task) ↔ m.store.get? tripId = some i ∧ m.tasks i = some task := by
  simp only [get, Option.bind_eq_bind, Option.bind_eq_some_iff, Option.pure_def, Option.some.injEq,
    Prod.mk.injEq]
  constructor
  · rintro ⟨j, hj, task', htask, rfl, rfl⟩
    exact ⟨hj, htask⟩
  · rintro ⟨hi, htask⟩
    exact ⟨i, hi, task, htask, rfl, rfl⟩

theorem hasOpen_iff : m.hasOpen tripId = true ↔
    ∃ i task, m.get tripId = some (i, task) ∧ task.status.terminal = false := by
  unfold hasOpen
  rw [Option.any_eq_true]
  constructor
  · rintro ⟨⟨i, task⟩, hget, hopen⟩
    exact ⟨i, task, hget, by simpa using hopen⟩
  · rintro ⟨i, task, hget, hopen⟩
    exact ⟨(i, task), hget, by simpa using hopen⟩

theorem hasStatus_iff {status : TaskStatus} :
    m.hasStatus status i = true ↔ ∃ task, m.tasks i = some task ∧ task.status = status := by
  simp [hasStatus, Option.any_eq_true]

@[simp] theorem tasks_add : (m.add tripId request).tasks =
    Function.update m.tasks m.created (some
      { tripId := tripId, request := request, total := request.attachments.length
        createdAt := m.clock }) := rfl

@[simp] theorem store_add :
    (m.add tripId request).store = m.store.set tripId m.created := rfl

@[simp] theorem waiters_add :
    (m.add tripId request).waiters = Function.update m.waiters tripId (some m.created) := rfl

@[simp] theorem created_add : (m.add tripId request).created = m.created + 1 := rfl

@[simp] theorem fired_add : (m.add tripId request).fired = m.fired := rfl

/-- What stays when a task is written: all but the task and the signals. -/
structure Kept (m m' : Memory) : Prop where
  clock : m'.clock = m.clock
  created : m'.created = m.created
  store : m'.store = m.store
  waiters : m'.waiters = m.waiters

theorem Kept.refl (m : Memory) : Kept m m := ⟨rfl, rfl, rfl, rfl⟩

theorem Kept.trans {m₁ m₂ m₃ : Memory} (h : Kept m₁ m₂) (h' : Kept m₂ m₃) : Kept m₁ m₃ :=
  ⟨h'.clock.trans h.clock, h'.created.trans h.created, h'.store.trans h.store,
    h'.waiters.trans h.waiters⟩

theorem kept_start : Kept m (m.start i task) := ⟨rfl, rfl, rfl, rfl⟩

theorem kept_report {step : ProcessStep} {done : Nat} : Kept m (m.report i task step done) :=
  ⟨rfl, rfl, rfl, rfl⟩

theorem kept_finish : Kept m (m.finish i task status result error) := ⟨rfl, rfl, rfl, rfl⟩

@[simp] theorem tasks_start : (m.start i task).tasks = Function.update m.tasks i (some
    { task with
      status := .processing, startedAt := some m.clock, lastCallback := some m.clock }) := rfl

@[simp] theorem tasks_report {step : ProcessStep} {done : Nat} :
    (m.report i task step done).tasks = Function.update m.tasks i (some
      { task with done := done, currentStep := some step, lastCallback := some m.clock }) := rfl

@[simp] theorem tasks_finish : (m.finish i task status result error).tasks =
    Function.update m.tasks i (some
      { task with
        status := status.toTaskStatus, result := result, error := error, currentStep := none
        finishedAt := some m.clock }) := rfl

@[simp] theorem fired_start : (m.start i task).fired = m.fired := rfl

@[simp] theorem fired_report {step : ProcessStep} {done : Nat} :
    (m.report i task step done).fired = m.fired := rfl

theorem fired_finish : (m.finish i task status result error).fired = fun event =>
    if m.waiters task.tripId = some event then true else m.fired event := by
  funext event
  unfold finish
  dsimp only
  cases h : m.waiters task.tripId with
  | none => rfl
  | some event' =>
      by_cases heq : event = event'
      · subst heq
        simp
      · have hne : event' ≠ event := fun h => heq h.symm
        simp [heq, hne]

/-- **What holds before the watchdog looks holds after it**, if it survives that a task of
the store is failed while it runs. -/
theorem watchAll_induction {P : Memory → Prop} (h : P m)
    (hstep : ∀ m' i task error, P m' → Kept m m' → i ∈ m.store.values → m'.tasks i = some task →
      task.status = .processing → P (m'.finish i task .failed none (some error))) :
    P (m.watchAll cfg) := by
  have hfold : ∀ is : List Nat, (∀ i ∈ is, i ∈ m.store.values) → ∀ m', P m' → Kept m m' →
      P (is.foldl (fun m' i => m'.watch cfg i) m') := by
    intro is
    induction is with
    | nil => exact fun _ m' hm' _ => hm'
    | cons i is ih =>
        intro his m' hm' hkept
        have hwatch : P (m'.watch cfg i) ∧ Kept m (m'.watch cfg i) := by
          unfold watch
          split
          · rename_i task htask
            split
            · exact ⟨hm', hkept⟩
            · rename_i hrunning
              rw [not_not] at hrunning
              have hfailed := fun error =>
                hstep m' i task error hm' hkept (his i List.mem_cons_self) htask hrunning
              split
              · exact ⟨hfailed _, hkept.trans kept_finish⟩
              · split
                · exact ⟨hfailed _, hkept.trans kept_finish⟩
                · exact ⟨hm', hkept⟩
          · exact ⟨hm', hkept⟩
        exact ih (fun j hj => his j (List.mem_cons_of_mem i hj)) _ hwatch.1 hwatch.2
  exact hfold m.store.values (fun _ hi => hi) m h (.refl m)

theorem kept_watchAll : Kept m (m.watchAll cfg) :=
  watchAll_induction (.refl m) fun _ _ _ _ hkept _ _ _ _ => hkept.trans kept_finish

/-- Store, waiters and tasks fit together, and a task has the times its status needs. -/
structure Sound (m : Memory) : Prop where
  stored : ∀ tripId i, m.store.get? tripId = some i →
    ∃ task, m.tasks i = some task ∧ task.tripId = tripId
  waiters : ∀ tripId, m.waiters tripId = m.store.get? tripId
  created : ∀ i task, m.tasks i = some task → i < m.created
  started : ∀ i task, m.tasks i = some task → task.status = .processing →
    task.startedAt.isSome = true ∧ task.lastCallback.isSome = true
  finished : ∀ i task, m.tasks i = some task → task.status.terminal = true →
    task.finishedAt.isSome = true

/-- One task is stored for one trip. -/
theorem Sound.stored_injective (h : Sound m) (hi : m.store.get? tripId = some i)
    (hj : m.store.get? t = some i) : tripId = t := by
  obtain ⟨task, htask, rfl⟩ := h.stored tripId i hi
  obtain ⟨task', htask', rfl⟩ := h.stored t i hj
  cases htask.symm.trans htask'
  rfl

theorem Sound.write {m' : Memory} {task' : Task} (h : Sound m) (hkept : Kept m m')
    (htask : m.tasks i = some task) (htasks : m'.tasks = Function.update m.tasks i (some task'))
    (htrip : task'.tripId = task.tripId)
    (hstarted : task'.status = .processing →
      task'.startedAt.isSome = true ∧ task'.lastCallback.isSome = true)
    (hfinished : task'.status.terminal = true → task'.finishedAt.isSome = true) : Sound m' := by
  have hcases : ∀ j t, m'.tasks j = some t → (j = i ∧ t = task') ∨ m.tasks j = some t := by
    intro j t ht
    rw [htasks, Function.update_apply] at ht
    split at ht
    · rename_i hj
      exact .inl ⟨hj, (Option.some.inj ht).symm⟩
    · exact .inr ht
  constructor
  · intro tripId j hj
    rw [hkept.store] at hj
    obtain ⟨t, ht, htripId⟩ := h.stored tripId j hj
    by_cases heq : j = i
    · subst heq
      cases htask.symm.trans ht
      exact ⟨task', by rw [htasks, Function.update_self], htrip.trans htripId⟩
    · exact ⟨t, by rw [htasks, Function.update_of_ne heq, ht], htripId⟩
  · intro tripId
    rw [hkept.waiters, hkept.store, h.waiters]
  · intro j t ht
    rw [hkept.created]
    obtain ⟨rfl, -⟩ | ht := hcases j t ht
    · exact h.created _ task htask
    · exact h.created j t ht
  · intro j t ht
    obtain ⟨-, rfl⟩ | ht := hcases j t ht
    · exact hstarted
    · exact h.started j t ht
  · intro j t ht
    obtain ⟨-, rfl⟩ | ht := hcases j t ht
    · exact hfinished
    · exact h.finished j t ht

theorem Sound.finish (h : Sound m) (htask : m.tasks i = some task) :
    Sound (m.finish i task status result error) :=
  h.write kept_finish htask tasks_finish rfl (fun hstatus => by cases status <;> cases hstatus)
    fun _ => rfl

theorem Sound.add (h : Sound m) : Sound (m.add tripId request) := by
  have hfresh : m.tasks m.created = none := by
    cases hnone : m.tasks m.created with
    | none => rfl
    | some task => exact absurd (h.created _ task hnone) (lt_irrefl _)
  have hcases : ∀ j t, (m.add tripId request).tasks j = some t →
      (j = m.created ∧ t.status = .queued) ∨ m.tasks j = some t := by
    intro j t ht
    rw [tasks_add, Function.update_apply] at ht
    split at ht
    · rename_i hj
      cases ht
      exact .inl ⟨hj, rfl⟩
    · exact .inr ht
  constructor
  · intro t j hj
    rw [store_add, Dict.get?_set] at hj
    split at hj
    · rename_i heq
      cases hj
      exact ⟨_, by rw [tasks_add, Function.update_self], heq.symm⟩
    · obtain ⟨task, htask, htrip⟩ := h.stored t j hj
      have hne : j ≠ m.created := fun heq => by
        rw [heq, hfresh] at htask
        cases htask
      exact ⟨task, by rw [tasks_add, Function.update_of_ne hne, htask], htrip⟩
  · intro t
    rw [waiters_add, store_add, Dict.get?_set, Function.update_apply, h.waiters]
  · intro j t ht
    rw [created_add]
    obtain ⟨rfl, -⟩ | ht := hcases j t ht
    · exact Nat.lt_succ_self _
    · exact Nat.lt_succ_of_lt (h.created j t ht)
  · intro j t ht hstatus
    obtain ⟨-, hqueued⟩ | ht := hcases j t ht
    · rw [hqueued] at hstatus
      cases hstatus
    · exact h.started j t ht hstatus
  · intro j t ht hstatus
    obtain ⟨-, hqueued⟩ | ht := hcases j t ht
    · rw [hqueued] at hstatus
      cases hstatus
    · exact h.finished j t ht hstatus

theorem Sound.watchAll (h : Sound m) : Sound (m.watchAll cfg) :=
  watchAll_induction h fun _ _ _ _ hm' _ _ htask _ => hm'.finish htask

end Memory

open Memory

theorem Finishes.task {i : Nat} {task : Task} {status : TerminalStatus}
    {result : Option ProcessResult} {error : Option ErrorBody}
    (h : Finishes x a i task status result error) : x.tasks i = some task := by
  cases h with
  | completed hget | aborted hget | failed hget | canceled hget => exact (get_eq_some.mp hget).2
  | unreachable _ htask => exact htask

theorem sound_step (hs : Sound x.toMemory) (h : ServiceStep cfg x a y) : Sound y.toMemory := by
  have hwrote := wrote_of_step h
  generalize y.toMemory = m at hwrote
  cases hwrote with
  | same => exact hs
  | pass => exact ⟨hs.stored, hs.waiters, hs.created, hs.started, hs.finished⟩
  | added => exact hs.add
  | started _ htask =>
      refine hs.write kept_start htask tasks_start rfl (fun _ => ⟨rfl, rfl⟩) fun hterminal => ?_
      cases hterminal
  | @reported _ _ _ _ _ i task hget hstatus =>
      obtain ⟨-, htask⟩ := get_eq_some.mp hget
      refine hs.write kept_report htask tasks_report rfl (fun _ => ?_) (hs.finished i task htask)
      exact ⟨(hs.started i task htask hstatus).1, rfl⟩
  | finished hfin => exact hs.finish hfin.task
  | ticked => exact hs.watchAll

theorem sound_initial (h : ServiceInitial x) : Sound x.toMemory := by
  obtain ⟨htasks, hcreated, hstore, hwaiters, -⟩ := h
  constructor <;> simp [htasks, hstore, hwaiters]

/-- **In every reachable state** the store, the waiters and the tasks fit together. -/
theorem reached_sound (h : ServiceReached cfg x) : Sound x.toMemory :=
  h.invariant (P := fun x => Sound x.toMemory) (fun _ => sound_initial) fun _ _ _ => sound_step

/-- The `assert` in `tick` never fails. -/
theorem reached_started (h : ServiceReached cfg x) {i : Nat} {task : Task}
    (htask : x.tasks i = some task) (hstatus : task.status = .processing) :
    task.startedAt.isSome = true ∧ task.lastCallback.isSome = true :=
  (reached_sound h).started i task htask hstatus

/-! ### What becomes of a task -/

/-- A task stays, with its trip and its request. -/
theorem task_step (hs : Sound x.toMemory) (h : ServiceStep cfg x a y) {i : Nat} {task : Task}
    (htask : x.tasks i = some task) :
    ∃ task', y.tasks i = some task' ∧ task'.tripId = task.tripId ∧
      task'.request = task.request := by
  have hwrite : ∀ {m : Memory} {j : Nat} {t t' : Task}, x.tasks j = some t →
      m.tasks = Function.update x.tasks j (some t') → t'.tripId = t.tripId →
      t'.request = t.request →
      ∃ task', m.tasks i = some task' ∧ task'.tripId = task.tripId ∧
        task'.request = task.request := by
    intro m j t t' ht htasks htrip hrequest
    rw [htasks, Function.update_apply]
    split
    · rename_i heq
      subst heq
      cases htask.symm.trans ht
      exact ⟨t', rfl, htrip, hrequest⟩
    · exact ⟨task, htask, rfl, rfl⟩
  have hwrote := wrote_of_step h
  generalize y.toMemory = m at hwrote
  cases hwrote with
  | same | pass => exact ⟨task, htask, rfl, rfl⟩
  | added =>
      have hne : i ≠ x.created := (hs.created i task htask).ne
      exact ⟨task, by rw [tasks_add, Function.update_of_ne hne, htask], rfl, rfl⟩
  | started _ ht => exact hwrite ht tasks_start rfl rfl
  | reported hget => exact hwrite (get_eq_some.mp hget).2 tasks_report rfl rfl
  | finished hfin => exact hwrite hfin.task tasks_finish rfl rfl
  | ticked =>
      refine watchAll_induction (P := fun m => ∃ task', m.tasks i = some task' ∧
        task'.tripId = task.tripId ∧ task'.request = task.request) ⟨task, htask, rfl, rfl⟩ ?_
      rintro m j t error ⟨task', htask', htrip, hrequest⟩ - - ht -
      rw [tasks_finish, Function.update_apply]
      split
      · rename_i heq
        subst heq
        cases htask'.symm.trans ht
        exact ⟨_, rfl, htrip, hrequest⟩
      · exact ⟨task', htask', htrip, hrequest⟩

/-- A task that was there is stored where it was. -/
theorem stored_from (hs : Sound x.toMemory) (h : ServiceStep cfg x a y) {tripId : Int} {i : Nat}
    {task : Task} (htask : x.tasks i = some task) (hy : y.store.get? tripId = some i) :
    x.store.get? tripId = some i := by
  have hwrote := wrote_of_step h
  generalize y.toMemory = m at hwrote hy
  cases hwrote with
  | same | pass | started | reported | finished => exact hy
  | added =>
      rw [store_add, Dict.get?_set] at hy
      split at hy
      · cases hy
        exact absurd (hs.created _ task htask) (lt_irrefl _)
      · exact hy
  | ticked => rwa [kept_watchAll.store] at hy

/-- A task that runs did so before, or the worker has just accepted it. -/
theorem processing_from (h : ServiceStep cfg x a y) {i : Nat} {task : Task}
    (htask : y.tasks i = some task) (hstatus : task.status = .processing) :
    (∃ before, x.tasks i = some before ∧ before.status = .processing) ∨
      ∃ c after before, a = .answered c .accepted ∧ x.coroutines c = .dispatching i after ∧
        x.tasks i = some before := by
  have hwrote := wrote_of_step h
  generalize y.toMemory = m at hwrote htask
  cases hwrote with
  | same | pass => exact .inl ⟨task, htask, hstatus⟩
  | added =>
      rw [tasks_add, Function.update_apply] at htask
      split at htask
      · cases htask
        cases hstatus
      · exact .inl ⟨task, htask, hstatus⟩
  | @started c j after before hdispatching hbefore =>
      rw [tasks_start, Function.update_apply] at htask
      split at htask
      · rename_i heq
        subst heq
        exact .inr ⟨c, after, before, rfl, hdispatching, hbefore⟩
      · exact .inl ⟨task, htask, hstatus⟩
  | @reported _ _ _ _ _ j before hget hprocessing =>
      rw [tasks_report, Function.update_apply] at htask
      split at htask
      · rename_i heq
        subst heq
        exact .inl ⟨before, (get_eq_some.mp hget).2, hprocessing⟩
      · exact .inl ⟨task, htask, hstatus⟩
  | @finished _ _ _ status =>
      rw [tasks_finish, Function.update_apply] at htask
      split at htask
      · cases htask
        cases status <;> cases hstatus
      · exact .inl ⟨task, htask, hstatus⟩
  | ticked =>
      have hsame : ∀ t, (x.watchAll cfg).tasks i = some t → t.status = .processing →
          x.tasks i = some t := by
        refine watchAll_induction (P := fun m => ∀ t, m.tasks i = some t →
          t.status = .processing → x.tasks i = some t) (fun t ht _ => ht) ?_
        intro m j t error hm _ _ ht _ t' ht' hprocessing
        rw [tasks_finish, Function.update_apply] at ht'
        split at ht'
        · cases ht'
          cases hprocessing
        · exact hm t' ht' hprocessing
      exact .inl ⟨task, hsame task htask hstatus, hstatus⟩

/-- A completed task was that before, or its result has just come while it ran. -/
theorem completed_from (h : ServiceStep cfg x a y) {i : Nat} {task : Task}
    (htask : y.tasks i = some task) (hstatus : task.status = .completed) :
    x.tasks i = some task ∨ ∃ c tripId result before, a = .complete c tripId result ∧
      x.get tripId = some (i, before) ∧ before.status = .processing ∧
        task.result = some result := by
  have hwrote := wrote_of_step h
  generalize y.toMemory = m at hwrote htask
  cases hwrote with
  | same | pass => exact .inl htask
  | added =>
      rw [tasks_add, Function.update_apply] at htask
      split at htask
      · cases htask
        cases hstatus
      · exact .inl htask
  | started =>
      rw [tasks_start, Function.update_apply] at htask
      split at htask
      · cases htask
        cases hstatus
      · exact .inl htask
  | reported hget hprocessing =>
      rw [tasks_report, Function.update_apply] at htask
      split at htask
      · cases htask
        rw [hprocessing] at hstatus
        cases hstatus
      · exact .inl htask
  | finished hfin =>
      rw [tasks_finish, Function.update_apply] at htask
      split at htask
      · rename_i heq
        subst heq
        cases htask
        cases hfin with
        | completed hget hprocessing => exact .inr ⟨_, _, _, _, rfl, hget, hprocessing, rfl⟩
        | aborted | failed | canceled | unreachable => cases hstatus
      · exact .inl htask
  | ticked =>
      left
      have hsame : ∀ t, (x.watchAll cfg).tasks i = some t → t.status = .completed →
          x.tasks i = some t := by
        refine watchAll_induction (P := fun m => ∀ t, m.tasks i = some t →
          t.status = .completed → x.tasks i = some t) (fun t ht _ => ht) ?_
        intro m j t error hm _ _ ht _ t' ht' hcompleted
        rw [tasks_finish, Function.update_apply] at ht'
        split at ht'
        · cases ht'
          cases hcompleted
        · exact hm t' ht' hcompleted
      exact hsame task htask hstatus

/-! ### The lock -/

theorem step_acquire {c : Nat} (h : ServiceStep cfg x (.acquire c) y) :
    ∃ after, x.coroutines c = .locking after ∧ y = x.dispatch cfg x.toMemory c after := by
  simp only [ServiceStep, Service.advance] at h
  split at h
  · rename_i after hlocking _
    cases h
    exact ⟨after, hlocking, rfl⟩
  · cases h

theorem step_accepted {c i : Nat} {after : After} {task : Task}
    (h : ServiceStep cfg x (.answered c .accepted) y)
    (hdispatching : x.coroutines c = .dispatching i after) (htask : x.tasks i = some task) :
    y.toMemory = x.start i task := by
  simp only [ServiceStep, Service.advance, hdispatching, Service.answered, htask,
    Option.some.injEq] at h
  rw [← h, toMemory_dispatch]

theorem step_unavailable {c i : Nat} {after : After} {task : Task} {reason : String}
    (h : ServiceStep cfg x (.answered c (.unavailable reason)) y)
    (hdispatching : x.coroutines c = .dispatching i after) (htask : x.tasks i = some task) :
    y.toMemory = x.finish i task .failed none
      (some (Tasks.error .workerDead (.record [("reason", .ofString reason)]))) := by
  simp only [ServiceStep, Service.advance, hdispatching, Service.answered, htask,
    Option.some.injEq] at h
  rw [← h, toMemory_dispatch]

/-- The two ends of the loop in `_dispatch_next`. -/
theorem dispatch_cases (cfg : Settings) (x : Service) (m : Memory) (c : Nat) (after : After) :
    (∃ i, m.count .processing < cfg.maxConcurrent ∧ m.oldestQueued = some i ∧
      x.dispatch cfg m c after =
        { x.turn m c (.dispatching i after) with lock := some c }) ∨
      x.dispatch cfg m c after = x.undispatch m c after := by
  unfold Service.dispatch
  split
  · rename_i hslot
    split
    · rename_i i holdest
      exact .inl ⟨i, hslot, holdest, rfl⟩
    · exact .inr rfl
  · exact .inr rfl

theorem Memory.oldestQueued_mem {m : Memory} {i : Nat} (h : m.oldestQueued = some i) :
    (∃ tripId, m.store.get? tripId = some i) ∧
      ∃ task, m.tasks i = some task ∧ task.status = .queued := by
  have hmem : i ∈ m.store.values.filter (m.hasStatus .queued) := List.argmin_mem h
  obtain ⟨hvalue, hqueued⟩ := List.mem_filter.mp hmem
  exact ⟨Dict.mem_values_iff.mp hvalue, hasStatus_iff.mp hqueued⟩

/-- A coroutine that waits for the worker's answer holds the lock. -/
def Locked (x : Service) : Prop :=
  ∀ c i after, x.coroutines c = .dispatching i after → x.lock = some c

theorem Dispatched.lock {m : Memory} {c c' i : Nat} {after after' : After}
    (h : Dispatched x a m c after) (hl : Locked x) (hc' : x.coroutines c' = .dispatching i after') :
    c' = c := by
  have hlock := hl c' i after' hc'
  cases h with
  | acquired _ hfree =>
      rw [hfree] at hlock
      cases hlock
  | accepted hc | unreachable hc => exact Option.some.inj (hlock.symm.trans (hl c _ _ hc))

theorem coroutines_turn {m : Memory} {c c' : Nat} {coroutine : Coroutine} :
    (x.turn m c coroutine).coroutines c' = if c' = c then coroutine else x.coroutines c' :=
  Function.update_apply ..

theorem coroutines_undispatch {m : Memory} {c c' i : Nat} {after after' : After}
    (h : (x.undispatch m c after).coroutines c' = .dispatching i after') :
    c' ≠ c ∧ x.coroutines c' = .dispatching i after' := by
  change (x.turn m c _).coroutines c' = _ at h
  rw [coroutines_turn] at h
  split at h
  · cases h
  · rename_i hne
    exact ⟨hne, h⟩

/-- Where a coroutine in `worker.submit` comes from: it was there, and this was not an
answer of the worker; or it has just found a free slot and the oldest queued task. -/
theorem dispatching_cases {c i : Nat} {after : After} (hl : Locked x)
    (h : ServiceStep cfg x a y) (hy : y.coroutines c = .dispatching i after) :
    (x.coroutines c = .dispatching i after ∧ y.lock = x.lock ∧ a.isAnswer = false) ∨
      y.lock = some c ∧ y.count .processing < cfg.maxConcurrent ∧ y.oldestQueued = some i := by
  cases moved_of_step h with
  | pass => exact .inl ⟨hy, rfl, rfl⟩
  | turn hc hafter ha =>
      rw [coroutines_turn] at hy
      split at hy
      · subst hy
        cases hafter
      · exact .inl ⟨hy, rfl, ha⟩
  | @dispatch a m c' after' hdispatched =>
      -- The others are not in `worker.submit` while this one has the lock or takes it.
      have hother : x.coroutines c = .dispatching i after → c = c' := hdispatched.lock hl
      obtain ⟨j, hslot, holdest, heq⟩ | heq := dispatch_cases cfg x m c' after'
      · rw [heq] at hy ⊢
        change (x.turn m c' _).coroutines c = _ at hy
        rw [coroutines_turn] at hy
        split at hy
        · rename_i hc
          cases hy
          exact .inr ⟨by rw [hc], hslot, holdest⟩
        · rename_i hne
          exact absurd (hother hy) hne
      · rw [heq] at hy
        obtain ⟨hne, hy⟩ := coroutines_undispatch hy
        exact absurd (hother hy) hne
  | kept hdispatching =>
      obtain ⟨hne, hy⟩ := coroutines_undispatch hy
      have hlock := (hl _ _ _ hdispatching).symm.trans (hl _ _ _ hy)
      exact absurd (Option.some.inj hlock).symm hne

theorem locked_step (hl : Locked x) (h : ServiceStep cfg x a y) : Locked y := by
  intro c i after hy
  obtain ⟨hx, hlock, -⟩ | ⟨hlock, -⟩ := dispatching_cases hl h hy
  · rw [hlock]
    exact hl c i after hx
  · exact hlock

theorem reached_locked (h : ServiceReached cfg x) : Locked x := by
  refine h.invariant (fun x hx c i after hc => ?_) fun _ _ _ => locked_step
  obtain ⟨-, -, -, -, -, -, habsent⟩ := hx
  rw [habsent] at hc
  cases hc

/-- The task a coroutine hands over to the worker is queued, or has been cancelled since. -/
def HandsOver (x : Service) : Prop :=
  ∀ c i after, x.coroutines c = .dispatching i after →
    ∃ task, x.tasks i = some task ∧ (task.status = .queued ∨ task.status = .canceled)

theorem Memory.tasks_watchAll {m : Memory} {i : Nat} {task : Task} (htask : m.tasks i = some task)
    (hstatus : task.status ≠ .processing) : (m.watchAll cfg).tasks i = some task := by
  refine watchAll_induction (P := fun m' => m'.tasks i = some task) htask ?_
  intro m' j task' error hm' _ _ htask' hrunning
  have hne : i ≠ j := by
    rintro rfl
    cases hm'.symm.trans htask'
    exact hstatus hrunning
  rw [tasks_finish, Function.update_of_ne hne, hm']

theorem handsOver_step (hs : Sound x.toMemory) (hl : Locked x) (hx : HandsOver x)
    (h : ServiceStep cfg x a y) : HandsOver y := by
  intro c i after hy
  obtain ⟨hold, -, ha⟩ | ⟨-, -, holdest⟩ := dispatching_cases hl h hy
  · obtain ⟨task, htask, hstatus⟩ := hx c i after hold
    have hrunning : task.status ≠ .processing := by
      rcases hstatus with hstatus | hstatus <;> rw [hstatus] <;> decide
    -- A task that runs is another one.
    have hother : ∀ j t, x.tasks j = some t → t.status = .processing → i ≠ j := by
      rintro _ t ht hprocessing rfl
      cases htask.symm.trans ht
      exact hrunning hprocessing
    have hwrote := wrote_of_step h
    generalize y.toMemory = m at hwrote
    cases hwrote with
    | same | pass => exact ⟨task, htask, hstatus⟩
    | added =>
        have hne : i ≠ x.created := (hs.created i task htask).ne
        exact ⟨task, by rw [tasks_add, Function.update_of_ne hne, htask], hstatus⟩
    | started => cases ha
    | reported hget hprocessing =>
        have hne := hother _ _ (get_eq_some.mp hget).2 hprocessing
        exact ⟨task, by rw [tasks_report, Function.update_of_ne hne, htask], hstatus⟩
    | finished hfin =>
        rw [tasks_finish]
        cases hfin with
        | completed hget hprocessing | aborted hget hprocessing | failed hget hprocessing =>
            have hne := hother _ _ (get_eq_some.mp hget).2 hprocessing
            exact ⟨task, by rw [Function.update_of_ne hne, htask], hstatus⟩
        | @canceled _ _ j =>
            rw [Function.update_apply]
            split
            · exact ⟨_, rfl, .inr rfl⟩
            · exact ⟨task, htask, hstatus⟩
        | unreachable => cases ha
    | ticked => exact ⟨task, tasks_watchAll htask hrunning, hstatus⟩
  · obtain ⟨-, task, htask, hqueued⟩ := oldestQueued_mem holdest
    exact ⟨task, htask, .inl hqueued⟩

theorem reached_handsOver (h : ServiceReached cfg x) : HandsOver x := by
  refine h.invariant_of (fun _ hx => And.intro (reached_sound hx) (reached_locked hx))
    (fun x hx c i after hc => ?_) fun _ _ _ hi hx hstep => handsOver_step hi.1 hi.2 hx hstep
  obtain ⟨-, -, -, -, -, -, habsent⟩ := hx
  rw [habsent] at hc
  cases hc

/-! ### Schedules -/

/-- The default settings, with room for one task in the queue. -/
def sampleSettings : Settings where
  maxConcurrent := 1
  maxQueue := 1
  workerDeadSec := 120
  taskTimeoutSec := 1800
  callbackRetries := 3
  concurrent_pos := le_refl 1

def sampleRequest : ProcessRequest where
  executionId := none
  tripName := "제주"
  period := ⟨739536, 739538⟩
  regions := [⟨.finite "33.4996", .finite "126.5312"⟩]
  attachments := [⟨100, "trips/7/analyze/0.jpg", none, none, none, none⟩]
  existingPlaces := []

/-- A service that has just started. -/
def Service.initial : Service where
  clock := 0
  tasks := fun _ => none
  created := 0
  store := ∅
  waiters := fun _ => none
  fired := fun _ => false
  lastActivity := none
  lock := none
  coroutines := fun _ => .absent

theorem Service.initial_initial : ServiceInitial .initial :=
  ⟨fun _ => rfl, rfl, rfl, fun _ => rfl, fun _ => rfl, rfl, fun _ => rfl⟩

/-- The service after a schedule. -/
def served (as : List Action) : Service :=
  followed (Service.advance sampleSettings) Service.initial as

theorem reached_served (as : List Action)
    (h : (Lib.follow (Service.advance sampleSettings) .initial as).isSome = true) :
    ServiceReached sampleSettings (served as) :=
  ⟨.initial, as, Service.initial_initial, run_followed Service.initial as h⟩

theorem reached_served_of_meets {cond : Service → Action → Prop} (as : List Action)
    (h : (Lib.follow (Service.advance sampleSettings) .initial as).isSome = true)
    (hmeets : Meets (Service.advance sampleSettings) cond .initial as) :
    Reachable ServiceInitial (Guarded cond (ServiceStep sampleSettings)) (served as) :=
  ⟨.initial, as, Service.initial_initial, run_meets Service.initial as h hmeets⟩

theorem run_served (as bs : List Action)
    (h : (Lib.follow (Service.advance sampleSettings) .initial (as ++ bs)).isSome = true) :
    Run (ServiceStep sampleSettings) (served as) bs (served (as ++ bs)) :=
  run_followed_append Service.initial as bs h

/-- A submission by coroutine `c` that reaches the worker: the API waits for its answer. -/
def submitted (c : Nat) (tripId : Int) : List Action :=
  [.submit c tripId sampleRequest, .readied c (some true), .acquire c]

end Yeodam.Jobs.Tasks
