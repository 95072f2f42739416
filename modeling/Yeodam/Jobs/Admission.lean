/-
Which submissions `TaskService` takes.

`submit` asks the worker whether it is ready between its checks and the store, and does
not check again. Two submissions of one trip can therefore both pass, and the second
replaces the task of the first (`duplicate_replaces`); and any number of submissions can be
stored while the worker accepts none (`queue_overflows`), for the queue's limit is read
only when no slot is free.

`submit_keeps_iff` and `admission_iff` say exactly which steps do that. Without them every
task is found by its trip until it is finished, and the counts stay within the limits; the
number of running tasks does so in any case (`processing_le`).
-/

import Yeodam.Jobs.TaskSteps

namespace Yeodam.Jobs.Tasks

open Yeodam.Lib Yeodam.Schemas Memory

variable {cfg : Settings} {x y : Service} {a : Action}

/-! ### Duplicates -/

/-- A submission that comes to the point where its task is stored unless it is refused. -/
inductive Submits (x : Service) : Action → Nat → Int → Prop where
  | called {c : Nat} {tripId : Int} {request : ProcessRequest} :
      Submits x (.submit c tripId request) c tripId
  | readied {c : Nat} {tripId : Int} {request : ProcessRequest} :
      x.coroutines c = .readying tripId request → Submits x (.readied c (some true)) c tripId

/-- A submission of a trip with an open task is refused as a duplicate, and an open task
keeps its place in the store and its event. -/
structure KeepsOpen (x : Service) (a : Action) (y : Service) : Prop where
  refused : ∀ c tripId, Submits x a c tripId → x.hasOpen tripId = true →
    y.coroutines c = .returned (.raised .duplicateTask)
  kept : ∀ tripId i task, x.get tripId = some (i, task) → task.status.terminal = false →
    y.store.get? tripId = some i ∧ y.waiters tripId = x.waiters tripId

/-- When the worker says it is ready, the trip has no open task. -/
def StillFree (x : Service) (a : Action) : Prop :=
  ∀ c tripId request, a = .readied c (some true) → x.coroutines c = .readying tripId request →
    x.hasOpen tripId = false

theorem Stores.hasOpen {tripId : Int} {request : ProcessRequest} (h : Stores cfg x a tripId request)
    (hfree : StillFree x a) : x.hasOpen tripId = false := by
  cases h with
  | submit hopen => exact hopen
  | readied hready => exact hfree _ _ _ rfl hready

theorem kept_of_stillFree (h : ServiceStep cfg x a y) (hfree : StillFree x a) {tripId : Int}
    {i : Nat} {task : Task} (hget : x.get tripId = some (i, task))
    (hopen : task.status.terminal = false) :
    y.store.get? tripId = some i ∧ y.waiters tripId = x.waiters tripId := by
  have hstored := (get_eq_some.mp hget).1
  have hwrote := wrote_of_step h
  generalize y.toMemory = m at hwrote
  cases hwrote with
  | same | pass => exact ⟨hstored, rfl⟩
  | @added _ tripId' _ hstores =>
      have hne : tripId ≠ tripId' := by
        rintro rfl
        have hfalse := hstores.hasOpen hfree
        rw [hasOpen_iff.mpr ⟨i, task, hget, hopen⟩] at hfalse
        cases hfalse
      exact ⟨by rw [store_add, Dict.get?_set_ne hne, hstored],
        by rw [waiters_add, Function.update_of_ne hne]⟩
  | started | reported | finished => exact ⟨hstored, rfl⟩
  | ticked => exact ⟨by rw [kept_watchAll.store, hstored], by rw [kept_watchAll.waiters]⟩

theorem keepsOpen_iff (h : ServiceStep cfg x a y) : KeepsOpen x a y ↔ StillFree x a := by
  constructor
  · rintro hkeeps c tripId request rfl hready
    by_contra hopen
    rw [Bool.not_eq_false] at hopen
    have hrefused := hkeeps.refused c tripId (.readied hready) hopen
    simp only [ServiceStep, Service.advance, hready, if_true, Option.some.injEq] at h
    rw [← h, Service.put, coroutines_turn, if_pos rfl] at hrefused
    cases hrefused
  · intro hfree
    refine ⟨?_, fun _ _ _ => kept_of_stillFree h hfree⟩
    rintro c tripId (_ | hready) hopen
    · simp only [ServiceStep, Service.advance] at h
      split at h
      · cases h
        rw [Service.submit, if_pos hopen, coroutines_turn, if_pos rfl]
      · cases h
    · rw [hfree _ _ _ rfl hready] at hopen
      cases hopen

/-- A task that has never been terminal is found by its trip. -/
def Findable (m : Memory) : Prop :=
  ∀ i task, m.tasks i = some task → task.finishedAt = none → m.store.get? task.tripId = some i

theorem Findable.write {m m' : Memory} {i : Nat} {task task' : Task} (h : Findable m)
    (hkept : Memory.Kept m m') (htask : m.tasks i = some task)
    (htasks : m'.tasks = Function.update m.tasks i (some task'))
    (htrip : task'.tripId = task.tripId) (hfinished : task'.finishedAt = none →
      task.finishedAt = none) : Findable m' := by
  intro j t ht hunfinished
  rw [htasks, Function.update_apply] at ht
  rw [hkept.store]
  split at ht
  · rename_i hj
    cases ht
    rw [htrip, hj]
    exact h i task htask (hfinished hunfinished)
  · exact h j t ht hunfinished

theorem Findable.finish {m : Memory} {i : Nat} {task : Task} {status : TerminalStatus}
    {result : Option ProcessResult} {error : Option ErrorBody} (h : Findable m)
    (htask : m.tasks i = some task) : Findable (m.finish i task status result error) :=
  h.write kept_finish htask tasks_finish rfl nofun

theorem findable_step (hs : Sound x.toMemory) (hf : Findable x.toMemory) (hfree : StillFree x a)
    (h : ServiceStep cfg x a y) : Findable y.toMemory := by
  have hwrote := wrote_of_step h
  generalize y.toMemory = m at hwrote
  cases hwrote with
  | same | pass => exact hf
  | @added _ tripId _ hstores =>
      intro j t ht hunfinished
      rw [tasks_add, Function.update_apply] at ht
      rw [store_add]
      split at ht
      · rename_i hj
        cases ht
        rw [hj, Dict.get?_set_self]
      · have hstored := hf j t ht hunfinished
        -- An unfinished task of the trip would have been open.
        have hne : t.tripId ≠ tripId := by
          rintro rfl
          have hopen : x.hasOpen t.tripId = true := by
            refine hasOpen_iff.mpr ⟨j, t, get_eq_some.mpr ⟨hstored, ht⟩, ?_⟩
            by_contra hterminal
            have hsome := hs.finished j t ht (by simpa using hterminal)
            rw [hunfinished] at hsome
            cases hsome
          rw [hstores.hasOpen hfree] at hopen
          cases hopen
        rw [Dict.get?_set_ne hne, hstored]
  | started _ htask => exact hf.write kept_start htask tasks_start rfl id
  | reported hget => exact hf.write kept_report (get_eq_some.mp hget).2 tasks_report rfl id
  | finished hfin => exact hf.finish hfin.task
  | ticked => exact watchAll_induction hf fun _ _ _ _ hm _ _ htask _ => hm.finish htask

theorem findable_of_stillFree
    (h : Reachable ServiceInitial (Guarded StillFree (ServiceStep cfg)) x) :
    Findable x.toMemory := by
  have hinit : ∀ x : Service, ServiceInitial x → Findable x.toMemory := by
    intro x hx i task htask
    rw [hx.1] at htask
    cases htask
  exact h.invariant_of (P := fun x => Findable x.toMemory) (fun _ hx => reached_sound hx.of_guarded)
    hinit fun _ _ _ hs hf hstep => findable_step hs hf hstep.1 hstep.2

/-- **Submissions of one trip.** A step refuses duplicates and keeps every open task where it
is just if a worker's readiness does not come to a trip with an open task; and where only
such steps were taken, every task is found by its trip until it is finished. -/
theorem submit_keeps_iff (cfg : Settings) :
    (∀ x a y, ServiceReached cfg x → ServiceStep cfg x a y →
      (KeepsOpen x a y ↔ StillFree x a)) ∧
    ∀ x, Reachable ServiceInitial (Guarded StillFree (ServiceStep cfg)) x → Findable x.toMemory :=
  ⟨fun _ _ _ _ h => keepsOpen_iff h, fun _ => findable_of_stillFree⟩

/-- Two submissions of trip 7 that both ask the worker. -/
def twice : List Action :=
  [.submit 0 7 sampleRequest, .submit 1 7 sampleRequest, .readied 0 (some true)]

/-- The second replaces the task of the first, which is still queued. -/
theorem duplicate_replaces : ¬ ∀ (cfg : Settings) (x : Service), ServiceReached cfg x →
    (∀ a y, ServiceStep cfg x a y → KeepsOpen x a y) ∧ Findable x.toMemory := by
  intro h
  have hreached := reached_served (twice ++ [.readied 1 (some true)]) (by decide +kernel)
  have htask : ((served (twice ++ [.readied 1 (some true)])).tasks 0).any (fun task =>
      decide (task.tripId = 7 ∧ task.finishedAt = none)) = true := by decide +kernel
  obtain ⟨task, htask, hunfinished⟩ := (Option.any_eq_true _ _).mp htask
  rw [decide_eq_true_iff] at hunfinished
  have hfound := (h sampleSettings _ hreached).2 0 task htask hunfinished.2
  have hlater : (served (twice ++ [.readied 1 (some true)])).store.get? 7 = some 1 := by
    decide +kernel
  rw [hunfinished.1, hlater] at hfound
  cases hfound

/-- `StillFree`, decided. -/
def stillFree (x : Service) : Action → Bool
  | .readied c (some true) =>
      match x.coroutines c with
      | .readying tripId _ => !x.hasOpen tripId
      | _ => true
  | _ => true

theorem stillFree_sound (h : stillFree x a = true) : StillFree x a := by
  rintro c tripId request rfl hready
  simpa [stillFree, hready] using h

/-- Trip 7 is submitted, and a second submission finds its task open. -/
def resubmitted : List Action := submitted 0 7 ++ [.submit 1 7 sampleRequest]

/-- The second is refused, and the task of the first is found by its trip. -/
theorem findable_resubmitted :
    (served resubmitted).coroutines 1 = .returned (.raised .duplicateTask) ∧
      Findable (served resubmitted).toMemory := by
  have hpasses : passes (Service.advance sampleSettings) stillFree .initial resubmitted = true := by
    decide +kernel
  have hreached : Reachable ServiceInitial (Guarded StillFree (ServiceStep sampleSettings))
      (served resubmitted) :=
    reachable_passes (fun _ _ _ h => stillFree_sound h) Service.initial_initial hpasses
  have hbefore := reached_served (submitted 0 7) (by decide +kernel)
  have hsecond := run_served (submitted 0 7) [.submit 1 7 sampleRequest] (by decide +kernel)
  have hkeeps : KeepsOpen (served (submitted 0 7)) (.submit 1 7 sampleRequest)
      (served resubmitted) := by
    cases hsecond with
    | cons first rest =>
        cases rest
        exact ((submit_keeps_iff sampleSettings).1 _ _ _ hbefore first).mpr nofun
  exact ⟨hkeeps.refused 1 7 .called (by decide +kernel), (submit_keeps_iff sampleSettings).2 _
    hreached⟩

/-! ### Counts -/

/-- The number of tasks that are queued or processing. -/
def Memory.active (m : Memory) : Nat := m.count .queued + m.count .processing

namespace Memory

variable {m m' : Memory} {i : Nat} {task task' : Task} {tripId : Int} {status : TaskStatus}

theorem count_of_kept (hkept : Kept m m')
    (htasks : ∀ t j, m.store.get? t = some j → m'.tasks j = m.tasks j) :
    m'.count status = m.count status := by
  unfold count Dict.count
  rw [hkept.store]
  apply List.countP_congr
  intro j hj
  obtain ⟨t, ht⟩ := Dict.mem_values_iff.mp hj
  rw [hasStatus, hasStatus, htasks t j ht]

/-- What writing a task makes of a count. -/
theorem count_write (m' : Memory) (status : TaskStatus) (hs : Sound m) (hkept : Kept m m')
    (htask : m.tasks i = some task) (htasks : m'.tasks = Function.update m.tasks i (some task')) :
    (m.store.get? task.tripId = some i ∧
      m'.count status + (if task.status = status then 1 else 0) =
        m.count status + (if task'.status = status then 1 else 0)) ∨
      m.store.get? task.tripId ≠ some i ∧ m'.count status = m.count status := by
  by_cases hstored : m.store.get? task.tripId = some i
  · refine .inl ⟨hstored, ?_⟩
    have hcongr := Dict.count_congr (d := m.store) (p := m'.hasStatus status)
      (q := m.hasStatus status) task.tripId fun t j hne hj => by
        have hji : j ≠ i := by
          rintro rfl
          exact hne (hs.stored_injective hj hstored)
        rw [hasStatus, hasStatus, htasks, Function.update_of_ne hji]
    rw [hstored, Dict.weight_some, Dict.weight_some] at hcongr
    simp only [hasStatus, htasks, Function.update_self, htask, Option.any_some, decide_eq_true_eq]
      at hcongr
    rw [count, count, hkept.store]
    exact hcongr
  · refine .inr ⟨hstored, count_of_kept hkept fun t j hj => ?_⟩
    have hji : j ≠ i := by
      rintro rfl
      obtain ⟨task₀, htask₀, rfl⟩ := hs.stored t j hj
      cases htask.symm.trans htask₀
      exact hstored hj
    rw [htasks, Function.update_of_ne hji]

theorem count_add (hs : Sound m) (tripId : Int) (request : ProcessRequest) (status : TaskStatus) :
    (m.add tripId request).count status +
        Dict.weight (m.hasStatus status) (m.store.get? tripId) =
      m.count status + (if status = .queued then 1 else 0) := by
  have hothers : ((m.store.others tripId).map Prod.snd).countP
      ((m.add tripId request).hasStatus status) =
      ((m.store.others tripId).map Prod.snd).countP (m.hasStatus status) := by
    apply List.countP_congr
    intro j hj
    obtain ⟨⟨t, j'⟩, hmem, rfl⟩ := List.mem_map.mp hj
    obtain ⟨task, htask, -⟩ := hs.stored t j' (Dict.mem_entries_iff.mp (List.mem_filter.mp hmem).1)
    have hne : j' ≠ m.created := (hs.created j' task htask).ne
    rw [hasStatus, hasStatus, tasks_add, Function.update_of_ne hne]
  have hnew : Dict.weight ((m.add tripId request).hasStatus status) (some m.created) =
      if status = .queued then 1 else 0 := by
    simp [hasStatus, eq_comm]
  rw [count, store_add, Dict.count_set, hothers, hnew, count, Dict.count_eq _ tripId]
  omega

/-- A trip without an open task has no part in the active ones, one with has one. -/
theorem weight_active (hs : Sound m) (tripId : Int) :
    Dict.weight (m.hasStatus .queued) (m.store.get? tripId) +
        Dict.weight (m.hasStatus .processing) (m.store.get? tripId) =
      if m.hasOpen tripId then 1 else 0 := by
  cases hstored : m.store.get? tripId with
  | none => simp [hasOpen, get, hstored]
  | some i =>
      obtain ⟨task, htask, -⟩ := hs.stored tripId i hstored
      have hget : m.get tripId = some (i, task) := get_eq_some.mpr ⟨hstored, htask⟩
      cases hstatus : task.status <;>
        simp [hasOpen, hget, hasStatus, htask, hstatus, TaskStatus.terminal]

theorem active_add (hs : Sound m) (tripId : Int) (request : ProcessRequest) :
    (m.add tripId request).active + (if m.hasOpen tripId then 1 else 0) = m.active + 1 := by
  have hqueued := count_add hs tripId request .queued
  have hprocessing := count_add hs tripId request .processing
  have hweight := weight_active hs tripId
  rw [active, active]
  simp only [if_true, reduceCtorEq, if_false] at hqueued hprocessing
  omega

/-- Finishing a task makes no count of unfinished ones larger. -/
theorem count_finish_le (hs : Sound m) (htask : m.tasks i = some task) {t : TerminalStatus}
    {result : Option ProcessResult} {error : Option ErrorBody} (hopen : status.terminal = false) :
    (m.finish i task t result error).count status ≤ m.count status := by
  have hne : ¬ t.toTaskStatus = status := by
    rintro rfl
    rw [TerminalStatus.terminal_toTaskStatus] at hopen
    cases hopen
  obtain ⟨-, hcount⟩ | ⟨-, hcount⟩ :=
    count_write (m.finish i task t result error) status hs kept_finish htask tasks_finish
  · rw [if_neg hne] at hcount
    omega
  · exact hcount.le

theorem count_watchAll_le (hs : Sound m) (hopen : status.terminal = false) :
    (m.watchAll cfg).count status ≤ m.count status := by
  have hboth : Sound (m.watchAll cfg) ∧ (m.watchAll cfg).count status ≤ m.count status := by
    refine watchAll_induction (P := fun m' => Sound m' ∧ m'.count status ≤ m.count status)
      ⟨hs, le_rfl⟩ fun m' j task error hm' _ _ htask _ => ?_
    exact ⟨hm'.1.finish htask, (count_finish_le hm'.1 htask hopen).trans hm'.2⟩
  exact hboth.2

theorem count_report (hs : Sound m) (htask : m.tasks i = some task) {step : ProcessStep}
    {done : Nat} : (m.report i task step done).count status = m.count status := by
  obtain ⟨-, hcount⟩ | ⟨-, hcount⟩ :=
    count_write (m.report i task step done) status hs kept_report htask tasks_report
  · exact Nat.add_right_cancel hcount
  · exact hcount

end Memory

/-! ### The limits -/

/-- The number of running tasks is within the limit, with room for one more while a
submission to the worker is under way. -/
structure Slots (cfg : Settings) (x : Service) : Prop where
  within : x.count .processing ≤ cfg.maxConcurrent
  room : ∀ c i after, x.coroutines c = .dispatching i after →
    x.count .processing < cfg.maxConcurrent

/-- Only the worker's acceptance makes the number of running tasks larger. -/
theorem processing_le_of_step (hs : Sound x.toMemory) (h : ServiceStep cfg x a y)
    (ha : a.isAnswer = false) : y.count .processing ≤ x.count .processing := by
  have hwrote := wrote_of_step h
  generalize y.toMemory = m at hwrote
  cases hwrote with
  | same | pass => exact le_rfl
  | @added _ tripId request =>
      have hcount := count_add hs tripId request .processing
      rw [if_neg (by decide)] at hcount
      omega
  | started => cases ha
  | reported hget => exact (count_report hs (get_eq_some.mp hget).2).le
  | finished hfin => exact count_finish_le hs hfin.task rfl
  | ticked => exact count_watchAll_le hs rfl

theorem count_start_le {i : Nat} {task : Task} {m : Memory} (hs : Sound m)
    (htask : m.tasks i = some task) :
    (m.start i task).count .processing ≤ m.count .processing + 1 := by
  obtain ⟨-, hcount⟩ | ⟨-, hcount⟩ :=
    count_write (m.start i task) .processing hs kept_start htask tasks_start
  · rw [if_pos rfl] at hcount
    omega
  · omega

theorem slots_step (hs : Sound x.toMemory) (hl : Locked x) (hx : Slots cfg x)
    (h : ServiceStep cfg x a y) : Slots cfg y := by
  constructor
  · cases ha : a.isAnswer with
    | false => exact (processing_le_of_step hs h ha).trans hx.within
    | true =>
        have hwrote := wrote_of_step h
        generalize y.toMemory = m at hwrote
        cases hwrote with
        | same => exact hx.within
        | started hdispatching htask =>
            have hroom := hx.room _ _ _ hdispatching
            have hstart := count_start_le hs htask
            omega
        | finished hfin => exact (count_finish_le hs hfin.task rfl).trans hx.within
        | pass | reported | ticked => cases ha
        | added hstores => cases hstores <;> cases ha
  · intro c i after hy
    obtain ⟨hold, -, ha⟩ | ⟨-, hroom, -⟩ := dispatching_cases hl h hy
    · exact (processing_le_of_step hs h ha).trans_lt (hx.room c i after hold)
    · exact hroom

theorem reached_slots (h : ServiceReached cfg x) : Slots cfg x := by
  refine h.invariant_of (fun _ hx => And.intro (reached_sound hx) (reached_locked hx))
    (fun x hx => ?_) fun _ _ _ hi hx hstep => slots_step hi.1 hi.2 hx hstep
  obtain ⟨-, -, hstore, -, -, -, habsent⟩ := hx
  constructor
  · rw [count, hstore]
    exact Nat.zero_le _
  · intro c i after hc
    rw [habsent] at hc
    cases hc

/-- **Running tasks.** Whatever happens, no more of them than the settings allow. -/
theorem processing_le (h : ServiceReached cfg x) : x.count .processing ≤ cfg.maxConcurrent :=
  (reached_slots h).within

/-- What the settings promise: the running tasks and the active ones are within their
limits, and a submission that finds no room is refused. -/
structure Admitted (cfg : Settings) (x : Service) (a : Action) (y : Service) : Prop where
  running : y.count .processing ≤ cfg.maxConcurrent
  active : y.active ≤ cfg.maxConcurrent + cfg.maxQueue
  refused : ∀ c tripId request, a = .submit c tripId request → x.hasOpen tripId = false →
    cfg.maxConcurrent + cfg.maxQueue ≤ x.active →
    y.coroutines c = .returned (.raised .rateLimited)

/-- No task becomes active beyond the limits, and none is asked for while no room is left
but a slot is free. -/
structure Admits (cfg : Settings) (x : Service) (a : Action) : Prop where
  /-- A worker's readiness comes while there is room. -/
  readied : ∀ c tripId request, a = .readied c (some true) →
    x.coroutines c = .readying tripId request → x.hasOpen tripId = false →
    x.active < cfg.maxConcurrent + cfg.maxQueue
  /-- So does the acceptance of a task that was cancelled meanwhile. -/
  accepted : ∀ c i after task, a = .answered c .accepted → x.coroutines c = .dispatching i after →
    x.tasks i = some task → task.status ≠ .queued → x.store.get? task.tripId = some i →
    x.active < cfg.maxConcurrent + cfg.maxQueue
  submitted : ∀ c tripId request, a = .submit c tripId request → x.hasOpen tripId = false →
    cfg.maxConcurrent + cfg.maxQueue ≤ x.active → cfg.maxConcurrent ≤ x.count .processing

/-- What the acceptance of a task makes of the number of active ones. -/
theorem active_start {m : Memory} {i : Nat} {task : Task} (hs : Sound m)
    (htask : m.tasks i = some task) (hstatus : task.status ≠ .processing) :
    (m.start i task).active = m.active +
      if task.status ≠ .queued ∧ m.store.get? task.tripId = some i then 1 else 0 := by
  have hqueued := count_write (m.start i task) .queued hs kept_start htask tasks_start
  have hprocessing := count_write (m.start i task) .processing hs kept_start htask tasks_start
  rw [Memory.active, Memory.active]
  rcases hqueued with ⟨hstored, hqueued⟩ | ⟨hstored, hqueued⟩
  · rcases hprocessing with ⟨-, hprocessing⟩ | ⟨hnot, -⟩
    · simp only [hstatus, reduceCtorEq, if_true, if_false, Nat.add_zero] at hqueued hprocessing
      by_cases hq : task.status = .queued
      · rw [if_pos hq] at hqueued
        rw [if_neg (fun hand => hand.1 hq)]
        omega
      · rw [if_neg hq] at hqueued
        rw [if_pos ⟨hq, hstored⟩]
        omega
    · exact absurd hstored hnot
  · rcases hprocessing with ⟨hnot, -⟩ | ⟨-, hprocessing⟩
    · exact absurd hnot hstored
    · rw [if_neg (fun hand => hstored hand.2)]
      omega

/-- **What a step makes of the limits.** -/
theorem active_le_step (hs : Sound x.toMemory) (hh : HandsOver x)
    (hx : x.active ≤ cfg.maxConcurrent + cfg.maxQueue) (hslots : Slots cfg x)
    (h : ServiceStep cfg x a y) (hadmits : Admits cfg x a) :
    y.active ≤ cfg.maxConcurrent + cfg.maxQueue := by
  have hwrote := wrote_of_step h
  generalize y.toMemory = m at hwrote
  cases hwrote with
  | same | pass => exact hx
  | @added _ tripId request hstores =>
      have hactive := active_add hs tripId request
      cases hstores with
      | submit hopen hfull hroom =>
          have hwithin := hslots.within
          rw [if_neg (by simp [hopen])] at hactive
          rw [Memory.active, Memory.active] at *
          omega
      | readied hready =>
          split at hactive
          · omega
          · rename_i hopen
            have hroom := hadmits.readied _ _ _ rfl hready (by simpa using hopen)
            omega
  | @started c i after task hdispatching htask =>
      obtain ⟨task', htask', hstatus⟩ := hh c i after hdispatching
      cases htask.symm.trans htask'
      have hrunning : task.status ≠ .processing := by
        rcases hstatus with hstatus | hstatus <;> rw [hstatus] <;> decide
      rw [active_start hs htask hrunning]
      split
      · rename_i hand
        exact hadmits.accepted c i after task rfl hdispatching htask hand.1 hand.2
      · exact hx
  | reported hget =>
      have htask := (get_eq_some.mp hget).2
      rw [Memory.active, count_report hs htask, count_report hs htask]
      exact hx
  | @finished _ i task status result error hfin =>
      have hqueued : (x.finish i task status result error).count .queued ≤ x.count .queued :=
        count_finish_le hs hfin.task rfl
      have hprocessing : (x.finish i task status result error).count .processing ≤
          x.count .processing := count_finish_le hs hfin.task rfl
      rw [Memory.active] at hx ⊢
      omega
  | ticked =>
      have hqueued : (x.watchAll cfg).count .queued ≤ x.count .queued := count_watchAll_le hs rfl
      have hprocessing : (x.watchAll cfg).count .processing ≤ x.count .processing :=
        count_watchAll_le hs rfl
      rw [Memory.active] at hx ⊢
      omega

theorem step_submit {c : Nat} {tripId : Int} {request : ProcessRequest}
    (h : ServiceStep cfg x (.submit c tripId request) y) : y = x.submit cfg c tripId request := by
  simp only [ServiceStep, Service.advance] at h
  split at h
  · cases h
    rfl
  · cases h

theorem admitted_of_admits (h : ServiceReached cfg x)
    (hx : x.active ≤ cfg.maxConcurrent + cfg.maxQueue) (hstep : ServiceStep cfg x a y)
    (hadmits : Admits cfg x a) : Admitted cfg x a y := by
  refine ⟨processing_le (h.next hstep), active_le_step (reached_sound h) (reached_handsOver h) hx
    (reached_slots h) hstep hadmits, ?_⟩
  rintro c tripId request rfl hopen hfull
  have hslots := hadmits.submitted c tripId request rfl hopen hfull
  have hwithin := processing_le h
  have hqueue : cfg.maxQueue ≤ x.count .queued := by
    rw [Memory.active] at hfull
    omega
  rw [step_submit hstep, Service.submit, if_neg (by simp [hopen]), if_neg (not_lt.mpr hslots),
    if_pos hqueue, coroutines_turn, if_pos rfl]

theorem admits_of_admitted (h : ServiceReached cfg x) (hstep : ServiceStep cfg x a y)
    (hadmitted : Admitted cfg x a y) : Admits cfg x a := by
  constructor
  · rintro c tripId request rfl hready hopen
    simp only [ServiceStep, Service.advance, hready, if_true, Option.some.injEq] at hstep
    have hactive := active_add (reached_sound h) tripId request
    rw [if_neg (by simp [hopen])] at hactive
    have hy := hadmitted.active
    rw [← hstep, Service.put, toMemory_turn] at hy
    omega
  · rintro c i after task rfl hdispatching htask hqueued hstored
    obtain ⟨task', htask', hstatus⟩ := reached_handsOver h c i after hdispatching
    cases htask.symm.trans htask'
    have hrunning : task.status ≠ .processing := by
      rcases hstatus with hstatus | hstatus <;> rw [hstatus] <;> decide
    have hy := hadmitted.active
    rw [step_accepted hstep hdispatching htask, active_start (reached_sound h) htask hrunning,
      if_pos ⟨hqueued, hstored⟩] at hy
    exact hy
  · rintro c tripId request rfl hopen hfull
    by_contra hslot
    have hy := hadmitted.refused c tripId request rfl hopen hfull
    rw [step_submit hstep, Service.submit, if_neg (by simp [hopen]), if_pos (not_le.mp hslot),
      coroutines_turn, if_pos rfl] at hy
    cases hy

/-- **Admission.** As long as no task becomes active beyond the limits and none is asked for
in vain, both limits hold and further submissions are refused; and the first step that is
not like that breaks one of them. -/
theorem admission_iff
    (h : Reachable ServiceInitial (Guarded (Admits cfg) (ServiceStep cfg)) x) :
    x.count .processing ≤ cfg.maxConcurrent ∧ x.active ≤ cfg.maxConcurrent + cfg.maxQueue ∧
      ∀ a y, ServiceStep cfg x a y → (Admitted cfg x a y ↔ Admits cfg x a) := by
  have hactive : x.active ≤ cfg.maxConcurrent + cfg.maxQueue := by
    refine h.invariant_of (P := fun x => x.active ≤ cfg.maxConcurrent + cfg.maxQueue)
      (fun _ hx => hx.of_guarded) (fun x hx => ?_)
      fun x a y hx hle hstep => (admitted_of_admits hx hle hstep.2 hstep.1).active
    rw [Memory.active, count, count, hx.2.2.1]
    exact Nat.zero_le _
  have hreached := h.of_guarded
  exact ⟨processing_le hreached, hactive, fun a y hstep =>
    ⟨admits_of_admitted hreached hstep, admitted_of_admits hreached hactive hstep⟩⟩

/-- Three submissions, of which the worker takes none. -/
def busyWorker : List Action :=
  submitted 0 1 ++ [.answered 0 .busy] ++ submitted 1 2 ++ [.answered 1 .busy] ++
    [.submit 2 3 sampleRequest]

/-- The third is stored beside two queued tasks, with room for one running and one queued. -/
theorem queue_overflows : ¬ ∀ (cfg : Settings) (x y : Service) (a : Action), 1 ≤ cfg.maxQueue →
    ServiceReached cfg x → ServiceStep cfg x a y → Admitted cfg x a y := by
  intro h
  have hbefore := reached_served busyWorker (by decide +kernel)
  have hafter := run_served busyWorker [.readied 2 (some true)] (by decide +kernel)
  cases hafter with
  | cons first rest =>
      cases rest
      have hactive := (h sampleSettings _ _ _ le_rfl hbefore first).active
      exact absurd hactive (by decide +kernel)

/-- `Admits`, decided. -/
def admits (cfg : Settings) (x : Service) : Action → Bool
  | .readied c (some true) =>
      match x.coroutines c with
      | .readying tripId _ =>
          x.hasOpen tripId || decide (x.active < cfg.maxConcurrent + cfg.maxQueue)
      | _ => true
  | .answered c .accepted =>
      match x.coroutines c with
      | .dispatching i _ => (x.tasks i).all fun task =>
          decide (task.status = .queued) || decide (x.store.get? task.tripId ≠ some i) ||
            decide (x.active < cfg.maxConcurrent + cfg.maxQueue)
      | _ => true
  | .submit _ tripId _ =>
      x.hasOpen tripId || decide (x.active < cfg.maxConcurrent + cfg.maxQueue) ||
        decide (cfg.maxConcurrent ≤ x.count .processing)
  | _ => true

theorem admits_sound (h : admits cfg x a = true) : Admits cfg x a := by
  constructor
  · rintro c tripId request rfl hready hopen
    simpa [admits, hready, hopen] using h
  · rintro c i after task rfl hdispatching htask hqueued hstored
    simpa [admits, hdispatching, htask, hqueued, hstored] using h
  · rintro c tripId request rfl hopen hfull
    simpa [admits, hopen, not_lt.mpr hfull] using h

/-- Trip 1 runs, and trip 2 is queued behind it. -/
def filled : List Action :=
  submitted 0 1 ++ [.answered 0 .accepted, .submit 1 2 sampleRequest, .acquire 1]

/-- With the slot and the queue full, a third trip is refused. -/
theorem filled_within :
    (served filled).count .processing = 1 ∧ (served filled).count .queued = 1 ∧
      (served (filled ++ [.submit 2 3 sampleRequest])).coroutines 2 =
        .returned (.raised .rateLimited) ∧
      (served (filled ++ [.submit 2 3 sampleRequest])).active ≤ 2 := by
  have hpasses : passes (Service.advance sampleSettings) (admits sampleSettings) .initial
      filled = true := by
    decide +kernel
  have hreached : Reachable ServiceInitial
      (Guarded (Admits sampleSettings) (ServiceStep sampleSettings)) (served filled) :=
    reachable_passes (fun _ _ _ h => admits_sound h) Service.initial_initial hpasses
  have hthird := run_served filled [.submit 2 3 sampleRequest] (by decide +kernel)
  have hadmitted : Admitted sampleSettings (served filled) (.submit 2 3 sampleRequest)
      (served (filled ++ [.submit 2 3 sampleRequest])) := by
    cases hthird with
    | cons first rest =>
        cases rest
        exact ((admission_iff hreached).2.2 _ _ first).mpr (admits_sound (by decide +kernel))
  exact ⟨by decide +kernel, by decide +kernel,
    hadmitted.refused 2 3 sampleRequest rfl (by decide +kernel) (by decide +kernel),
    hadmitted.active⟩

end Yeodam.Jobs.Tasks
