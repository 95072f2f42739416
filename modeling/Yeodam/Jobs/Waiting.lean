/-
What a caller of `wait_done` is told (`app/jobs/task_service.py`).

`wait_done` waits for the event of the trip and then looks the trip up again. The event is
set before the waiting coroutine runs on, so a new submission of the trip can come in
between, and the caller is given that attempt, still queued (`later_attempt_returned`).

`waited_terminal` says when this does not happen: a task is stored only for a trip nobody
waits for, and the worker's answer comes only to tasks that are still queued.
-/

import Yeodam.Jobs.Transitions

namespace Yeodam.Jobs.Tasks

open Yeodam.Lib Yeodam.Schemas Memory

variable {cfg : Settings} {x y : Service} {a : Action} {m : Memory} {i : Nat} {task : Task}

/-- A task is stored for a trip that has no open one and for which no `wait_done` is
waiting, and the worker's answer comes to a queued task. -/
structure Undisturbed (cfg : Settings) (x : Service) (a : Action) : Prop where
  free : ∀ tripId request, Stores cfg x a tripId request → x.hasOpen tripId = false
  unwaited : ∀ tripId request, Stores cfg x a tripId request →
    ∀ c event stored, x.coroutines c ≠ .waiting tripId event stored
  queued : StillQueued x a

/-- An open task is the one stored for its trip, and an event is set only when its task is
terminal. -/
structure Signalled (m : Memory) : Prop where
  stored : ∀ i task, m.tasks i = some task → task.status.terminal = false →
    m.store.get? task.tripId = some i
  fired : ∀ i, m.fired i = true → ∃ task, m.tasks i = some task ∧ task.status.terminal = true

theorem Signalled.finish (h : Signalled m) (hs : Sound m) (htask : m.tasks i = some task)
    (hopen : task.status.terminal = false) (status : TerminalStatus)
    (result : Option ProcessResult) (error : Option ErrorBody) :
    Signalled (m.finish i task status result error) := by
  constructor
  · intro j t ht hterminal
    rw [tasks_finish, Function.update_apply] at ht
    split at ht
    · cases ht
      rw [TerminalStatus.terminal_toTaskStatus] at hterminal
      cases hterminal
    · exact h.stored j t ht hterminal
  · intro j hj
    rw [tasks_finish, Function.update_apply]
    split
    · exact ⟨_, rfl, status.terminal_toTaskStatus⟩
    · rename_i hne
      simp only [fired_finish] at hj
      split at hj
      · -- The event of the trip is that of the task.
        rename_i hwaiter
        rw [hs.waiters, h.stored i task htask hopen] at hwaiter
        exact absurd (Option.some.inj hwaiter).symm hne
      · exact h.fired j hj

/-- A task that goes on, and was open. -/
theorem Signalled.write {m' : Memory} {task' : Task} (h : Signalled m) (hkept : Memory.Kept m m')
    (hfired : m'.fired = m.fired) (htask : m.tasks i = some task)
    (htasks : m'.tasks = Function.update m.tasks i (some task'))
    (htrip : task'.tripId = task.tripId) (hopen : task.status.terminal = false) :
    Signalled m' := by
  constructor
  · intro j t ht hterminal
    rw [htasks, Function.update_apply] at ht
    rw [hkept.store]
    split at ht
    · rename_i heq
      cases ht
      rw [htrip, heq, h.stored i task htask hopen]
    · exact h.stored j t ht hterminal
  · intro j hj
    rw [hfired] at hj
    obtain ⟨t, ht, hterminal⟩ := h.fired j hj
    have hne : j ≠ i := by
      rintro rfl
      cases htask.symm.trans ht
      rw [hopen] at hterminal
      cases hterminal
    exact ⟨t, by rw [htasks, Function.update_of_ne hne, ht], hterminal⟩

theorem Signalled.add (h : Signalled m) (hs : Sound m) {tripId : Int} (request : ProcessRequest)
    (hfree : m.hasOpen tripId = false) : Signalled (m.add tripId request) := by
  constructor
  · intro j t ht hterminal
    rw [tasks_add, Function.update_apply] at ht
    rw [store_add]
    split at ht
    · rename_i heq
      cases ht
      rw [heq, Dict.get?_set_self]
    · have hstored := h.stored j t ht hterminal
      have hne : t.tripId ≠ tripId := by
        rintro rfl
        rw [hasOpen_iff.mpr ⟨j, t, get_eq_some.mpr ⟨hstored, ht⟩, hterminal⟩] at hfree
        cases hfree
      rw [Dict.get?_set_ne hne, hstored]
  · intro j hj
    obtain ⟨t, ht, hterminal⟩ := h.fired j hj
    exact ⟨t, by rw [tasks_add, Function.update_of_ne (hs.created j t ht).ne, ht], hterminal⟩

theorem Finishes.terminal_eq_false {status : TerminalStatus} {result : Option ProcessResult}
    {error : Option ErrorBody} (h : Finishes x a i task status result error)
    (hqueued : StillQueued x a) : task.status.terminal = false := by
  cases h with
  | completed _ hstatus | aborted _ hstatus | failed _ hstatus | canceled _ hstatus =>
      rw [hstatus]
      rfl
  | unreachable hdispatching htask =>
      rw [hqueued _ _ _ _ _ rfl hdispatching htask (.inr ⟨_, rfl⟩)]
      rfl

theorem signalled_step (hs : Sound x.toMemory) (hx : Signalled x.toMemory)
    (hfree : ∀ tripId request, Stores cfg x a tripId request → x.hasOpen tripId = false)
    (hqueued : StillQueued x a) (h : ServiceStep cfg x a y) : Signalled y.toMemory := by
  have hwrote := wrote_of_step h
  generalize y.toMemory = m at hwrote
  cases hwrote with
  | same => exact hx
  | pass => exact ⟨hx.stored, hx.fired⟩
  | added hstores => exact hx.add hs _ (hfree _ _ hstores)
  | started hdispatching htask =>
      have hstatus := hqueued _ _ _ _ _ rfl hdispatching htask (.inl rfl)
      exact hx.write kept_start fired_start htask tasks_start rfl (by rw [hstatus]; rfl)
  | reported hget hstatus =>
      exact hx.write kept_report fired_report (get_eq_some.mp hget).2 tasks_report rfl
        (by rw [hstatus]; rfl)
  | finished hfin => exact hx.finish hs hfin.task (hfin.terminal_eq_false hqueued) _ _ _
  | ticked =>
      have hboth : Sound (x.watchAll cfg) ∧ Signalled (x.watchAll cfg) := by
        refine watchAll_induction (P := fun m => Sound m ∧ Signalled m) ⟨hs, hx⟩
          fun m j t error hm _ _ ht hstatus => ?_
        exact ⟨hm.1.finish ht, hm.2.finish hm.1 ht (by rw [hstatus]; rfl) _ _ _⟩
      exact hboth.2

/-- What a caller of `wait_done` should be told, and what its coroutine waits for. -/
def Told (m : Memory) : Coroutine → Prop
  | .returned (.waited stored i status) => stored = some i ∧ status.terminal = true
  | .waiting tripId event stored => stored = some event ∧ m.store.get? tripId = some event
  | _ => True

/-- Looking up a trip whose event is set. -/
theorem told_lookUp (hx : Signalled m) {tripId : Int} {stored : Option Nat}
    (hfired : ∀ event, m.store.get? tripId = some event →
      stored = some event ∧ m.fired event = true) :
    Told m (.returned (m.lookUp tripId stored)) := by
  unfold lookUp
  split
  · rename_i i task hget
    obtain ⟨hi, htask⟩ := get_eq_some.mp hget
    obtain ⟨hstored, hset⟩ := hfired i hi
    obtain ⟨task', htask', hterminal⟩ := hx.fired i hset
    cases htask.symm.trans htask'
    exact ⟨hstored, hterminal⟩
  · trivial

/-- `_dispatch_next` has nothing to do with `wait_done`. -/
theorem told_undispatch {c c' : Nat} {after : After} (h : Told m (x.coroutines c')) :
    Told m ((x.undispatch m c after).coroutines c') := by
  change Told m ((x.turn m c _).coroutines c')
  rw [coroutines_turn]
  split
  · cases after <;> trivial
  · exact h

theorem told_dispatch {c c' : Nat} {after : After} (h : Told m (x.coroutines c')) :
    Told m ((x.dispatch cfg m c after).coroutines c') := by
  obtain ⟨i, -, -, heq⟩ | heq := dispatch_cases cfg x m c after
  · rw [heq]
    change Told m ((x.turn m c _).coroutines c')
    rw [coroutines_turn]
    split
    · trivial
    · exact h
  · rw [heq]
    exact told_undispatch h

/-- The task stored for a trip that is waited for stays. -/
theorem store_step (hclean : Undisturbed cfg x a) (h : ServiceStep cfg x a y) {c : Nat}
    {tripId : Int} {event : Nat} {stored : Option Nat}
    (hwaiting : x.coroutines c = .waiting tripId event stored) :
    y.store.get? tripId = x.store.get? tripId := by
  have hwrote := wrote_of_step h
  generalize y.toMemory = m at hwrote
  cases hwrote with
  | same | pass | started | reported | finished => rfl
  | @added _ tripId' request hstores =>
      have hne : tripId ≠ tripId' := by
        rintro rfl
        exact hclean.unwaited _ _ hstores c event stored hwaiting
      rw [store_add, Dict.get?_set_ne hne]
  | ticked => rw [kept_watchAll.store]

/-- A coroutine that does not move is told the same after the step. -/
theorem told_stays (hclean : Undisturbed cfg x a) (h : ServiceStep cfg x a y) {c : Nat}
    (hc : Told x.toMemory (x.coroutines c)) : Told y.toMemory (x.coroutines c) := by
  generalize hcoroutine : x.coroutines c = coroutine at hc ⊢
  cases coroutine with
  | waiting tripId event stored => exact ⟨hc.1, (store_step hclean h hcoroutine).trans hc.2⟩
  | returned outcome => cases outcome <;> exact hc
  | absent | readying | locking | dispatching | cancelling => trivial

theorem told_step (hs : Sound x.toMemory) (hsignalled : Signalled x.toMemory)
    (hx : ∀ c, Told x.toMemory (x.coroutines c)) (hclean : Undisturbed cfg x a)
    (h : ServiceStep cfg x a y) (c : Nat) : Told y.toMemory (y.coroutines c) := by
  have hstays := told_stays hclean h (hx c)
  cases moved_of_step h with
  | pass => exact hstays
  | @turn a m c' coroutine _ _ _ hturn =>
      rw [coroutines_turn]
      split
      · cases hturn with
        | waiting hevent _ =>
            rw [hs.waiters] at hevent
            exact ⟨hevent, hevent⟩
        | @found _ tripId hfired =>
            refine told_lookUp hsignalled fun event hevent => ⟨hevent, hfired event ?_⟩
            rw [hs.waiters, hevent]
        | @woken _ tripId event stored hwaiting hfired =>
            have hc' := hx c'
            rw [hwaiting] at hc'
            apply told_lookUp hsignalled
            intro event' hevent
            cases hc'.2.symm.trans hevent
            exact ⟨hc'.1, hfired⟩
        | @ended _ _ outcome hnot =>
            cases outcome with
            | waited stored i status => exact absurd rfl (hnot stored i status)
            | raised | nothing | task => trivial
        | asking | stored | readied | reported | completed | aborted | failed | canceled
        | cancelling | ticked => trivial
      · exact hstays
  | dispatch =>
      rw [toMemory_dispatch] at hstays ⊢
      exact told_dispatch hstays
  | kept => exact told_undispatch hstays

/-- **Waiters see their own outcome.** As long as a task is stored only for a trip without an
open task and without a waiting `wait_done`, and the worker's answers come to queued tasks,
every `wait_done` returns the task that was stored when it began, in a terminal status. -/
theorem waited_terminal
    (h : Reachable ServiceInitial (Guarded (Undisturbed cfg) (ServiceStep cfg)) x) {c : Nat}
    {stored : Option Nat} {i : Nat} {status : TaskStatus}
    (hc : x.coroutines c = .returned (.waited stored i status)) :
    stored = some i ∧ status.terminal = true := by
  have hboth : Signalled x.toMemory ∧ ∀ c, Told x.toMemory (x.coroutines c) := by
    refine h.invariant_of
      (P := fun x => Signalled x.toMemory ∧ ∀ c, Told x.toMemory (x.coroutines c))
      (fun _ hx => reached_sound hx.of_guarded) (fun x hx => ?_)
      fun x a y hs hx hstep => ⟨signalled_step hs hx.1 hstep.1.free hstep.1.queued hstep.2,
        told_step hs hx.1 hx.2 hstep.1 hstep.2⟩
    obtain ⟨htasks, -, -, -, hfired, -, habsent⟩ := hx
    refine ⟨⟨fun i task htask => ?_, fun i hi => ?_⟩, fun c => ?_⟩
    · rw [htasks] at htask
      cases htask
    · rw [hfired] at hi
      cases hi
    · rw [habsent]
      trivial
  have hc' := hboth.2 c
  rwa [hc] at hc'

/-- What a coroutine has returned. -/
def Coroutine.outcome? : Coroutine → Option Outcome
  | .returned outcome => some outcome
  | _ => none

theorem returned_of_outcome? {coroutine : Coroutine} {outcome : Outcome}
    (h : coroutine.outcome? = some outcome) : coroutine = .returned outcome := by
  cases coroutine <;> cases h
  rfl

/-- Behind a running task trip 7 is queued, waited for, cancelled and submitted again before
the waiting coroutine runs on. -/
def overtaken : List Action :=
  submitted 0 1 ++ [.answered 0 .accepted, .submit 1 7 sampleRequest, .acquire 1, .waitDone 2 7,
    .cancel 3 7, .submit 4 7 sampleRequest, .acquire 4, .wake 2]

/-- It is given the new attempt, which is queued. -/
theorem later_attempt_returned : ¬ ∀ (cfg : Settings) (x : Service), ServiceReached cfg x →
    ∀ c stored i status, x.coroutines c = .returned (.waited stored i status) →
      stored = some i ∧ status.terminal = true := by
  intro h
  have hreached := reached_served overtaken (by decide +kernel)
  have hreturned : ((served overtaken).coroutines 2).outcome? =
      some (.waited (some 1) 2 .queued) := by
    decide +kernel
  have htold := h sampleSettings _ hreached 2 _ _ _ (returned_of_outcome? hreturned)
  cases htold.2

/-- Steps that store nothing and are no answer disturb nobody. -/
theorem undisturbed_of_quiet (hstores : ∀ tripId request, ¬ Stores cfg x a tripId request)
    (ha : a.isAnswer = false) : Undisturbed cfg x a := by
  refine ⟨fun _ _ h => absurd h (hstores _ _), fun _ _ h => absurd h (hstores _ _), ?_⟩
  rintro c i after task answer rfl
  cases ha

/-- Trip 7 is cancelled before it comes to the worker, and asked for. -/
def cancelledEarly : List Action :=
  [.submit 0 7 sampleRequest, .readied 0 (some true), .cancel 1 7, .waitDone 2 7]

theorem waited_canceled : ∃ stored i status,
    (served cancelledEarly).coroutines 2 = .returned (.waited stored i status) ∧
      stored = some i ∧ status.terminal = true := by
  have hmeets : Meets (Service.advance sampleSettings) (Undisturbed sampleSettings) .initial
      cancelledEarly := by
    refine ⟨undisturbed_of_quiet ?_ rfl, fun t ht => ?_⟩
    · rintro tripId request ⟨-, hfull, -⟩
      exact absurd hfull (by decide +kernel)
    · cases ht
      refine ⟨⟨fun _ _ _ => rfl, ?_, ?_⟩, fun t ht => ?_⟩
      · intro _ _ _ c event stored hwaiting
        rw [Service.submit, if_neg (by decide), if_pos (by decide +kernel), coroutines_turn]
          at hwaiting
        split at hwaiting <;> cases hwaiting
      · rintro c i after task answer ⟨⟩
      · cases ht
        refine ⟨undisturbed_of_quiet nofun rfl, fun t ht => ?_⟩
        cases ht
        exact ⟨undisturbed_of_quiet nofun rfl, fun _ _ => trivial⟩
  have hreturned : ((served cancelledEarly).coroutines 2).outcome? =
      some (.waited (some 0) 0 .canceled) := by
    decide +kernel
  have hreached := reached_served_of_meets _ (by decide +kernel) hmeets
  exact ⟨_, _, _, returned_of_outcome? hreturned,
    waited_terminal hreached (returned_of_outcome? hreturned)⟩

end Yeodam.Jobs.Tasks
