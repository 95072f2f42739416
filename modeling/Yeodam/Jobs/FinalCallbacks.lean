/-
What becomes of a final callback (`app/jobs/task_service.py`, `app/worker/runner.py`).

`complete` and `fail` ignore a callback whose task is not running. The worker may be done
before its answer to the submission has reached the API: the callback then comes to a task
that is still queued, is acknowledged and dropped, and nothing else will come
(`overtaking_result_dropped`).

`final_callback_iff` says which callbacks decide their attempt: those that find it running
under its trip. In an orderly run these are all that do not overtake the answer.
-/

import Yeodam.Jobs.Admission
import Yeodam.Jobs.Attribution
import Yeodam.Jobs.Waiting

namespace Yeodam.Jobs.Tasks

open Yeodam.Lib Yeodam.Schemas Memory

variable {cfg : Settings} {s s' : System} {e : Event} {run : Execution} {callback : Callback}

/-- A task has the outcome of a callback. -/
def Callback.Outcome (task : Task) : Callback → Prop
  | .progress .. => False
  | .result body => task.status = .completed ∧ task.result = some body
  | .failed body =>
      if body.code = .canceled then task.status = .canceled
      else task.status = .failed ∧ task.error = some body

theorem Callback.Outcome.terminal {task : Task} (h : callback.Outcome task) :
    task.status.terminal = true := by
  cases callback with
  | progress => exact h.elim
  | result body =>
      rw [h.1]
      rfl
  | failed body =>
      simp only [Outcome] at h
      split at h
      · rw [h]
        rfl
      · rw [h.1]
        rfl

/-- The attempt of a run has the outcome of a callback, and that by this callback. -/
structure DecidedBy (s : System) (run : Execution) (callback : Callback) : Prop where
  decided : s.decided run.attempt = some (run, callback)
  outcome : ∃ task, s.service.tasks run.attempt = some task ∧ callback.Outcome task

/-- A final callback of a run comes to the API while its attempt is open. -/
structure Arrives (s : System) (e : Event) (run : Execution) (callback : Callback) (task : Task) :
    Prop where
  delivery : ∃ n c, e = .deliver n c ∧ s.posts n = some ⟨run, callback, none⟩
  final : callback.isFinal = true
  attempt : s.service.tasks run.attempt = some task
  pending : task.status.terminal = false

/-- A callback that comes while its attempt is open decides it. -/
def Heeds (s : System) (e : Event) (s' : System) : Prop :=
  ∀ run callback task, Arrives s e run callback task → DecidedBy s' run callback

/-- Its attempt is the one stored for the trip, and runs. -/
def FindsRunning (s : System) (e : Event) : Prop :=
  ∀ run callback task, Arrives s e run callback task →
    s.service.get run.tripId = some (run.attempt, task) ∧ task.status = .processing

/-- Its attempt is not queued any more. -/
def InOrder (s : System) (e : Event) : Prop :=
  ∀ run callback task, Arrives s e run callback task → task.status ≠ .queued

/-! ### One callback -/

variable {x y : Service} {c i : Nat} {tripId : Int} {task : Task}

theorem step_complete {body : ProcessResult} (h : ServiceStep cfg x (.complete c tripId body) y)
    (hget : x.get tripId = some (i, task)) (hrunning : task.status = .processing) :
    y.toMemory = x.finish i task .completed (some body) none := by
  simp only [ServiceStep, Service.advance] at h
  split at h
  · cases h
    simp [Service.complete, Service.conclude, hget, hrunning]
  · cases h

theorem step_fail {body : ErrorBody} (h : ServiceStep cfg x (.fail c tripId body) y)
    (hget : x.get tripId = some (i, task)) (hrunning : task.status = .processing) :
    y.toMemory = if body.code = .canceled then x.finish i task .canceled none none
      else x.finish i task .failed none (some body) := by
  simp only [ServiceStep, Service.advance] at h
  split at h
  · cases h
    unfold Service.fail
    split <;> simp [Service.conclude, hget, hrunning]
  · cases h

/-- An open task that a callback ends was running, and stored for the trip. -/
theorem running_of_ended (h : ServiceStep cfg x (callback.action c tripId) y) {task' : Task}
    (htask : x.tasks i = some task) (hopen : task.status.terminal = false)
    (htask' : y.tasks i = some task') (hended : task'.status.terminal = true) :
    x.get tripId = some (i, task) ∧ task.status = .processing := by
  have hsame : ∀ t, x.tasks i = some t → t.status.terminal = true → False := by
    intro t ht hterminal
    cases htask.symm.trans ht
    rw [hopen] at hterminal
    cases hterminal
  have hwrote := wrote_of_step h
  generalize ha : callback.action c tripId = a at hwrote
  generalize y.toMemory = m at hwrote htask'
  cases hwrote with
  | same => exact (hsame _ htask' hended).elim
  | reported hget hrunning =>
      rw [tasks_report, Function.update_apply] at htask'
      split at htask'
      · cases htask'
        rw [hrunning] at hended
        cases hended
      · exact (hsame _ htask' hended).elim
  | finished hfin =>
      rw [tasks_finish, Function.update_apply] at htask'
      split at htask'
      · rename_i heq
        subst heq
        cases htask.symm.trans hfin.task
        cases hfin with
        | completed hget hrunning | aborted hget hrunning | failed hget hrunning =>
            cases callback <;> cases ha
            exact ⟨hget, hrunning⟩
        | canceled | unreachable => cases callback <;> cases ha
      · exact (hsame _ htask' hended).elim
  | pass | started | ticked => cases callback <;> cases ha
  | added hstores => cases callback <;> cases ha <;> cases hstores

theorem task_finish {m m' : Memory} {status : TerminalStatus} {result : Option ProcessResult}
    {error : Option ErrorBody} (h : m' = m.finish i task status result error) :
    m'.tasks i = some { task with
      status := status.toTaskStatus, result := result, error := error, currentStep := none
      finishedAt := some m.clock } := by
  rw [h, tasks_finish, Function.update_self]

theorem heeds_of_findsRunning (h : SystemStep cfg s e s') (hfinds : FindsRunning s e) :
    Heeds s e s' := by
  intro run callback task harrives
  obtain ⟨hget, hrunning⟩ := hfinds run callback task harrives
  obtain ⟨⟨n, c, rfl, hpost⟩, hfinal, -, -⟩ := harrives
  simp only [SystemStep, System.advance, hpost] at h
  obtain ⟨y, hy, rfl⟩ := Option.map_eq_some_iff.mp h
  have hdecides : s.decides run callback = some run.attempt := by
    simp [System.decides, hfinal, hget, hrunning]
  refine ⟨by simp [System.delivered, hdecides], ?_⟩
  cases callback with
  | progress => cases hfinal
  | result body =>
      exact ⟨_, task_finish (step_complete hy hget hrunning), rfl, rfl⟩
  | failed body =>
      have hmemory := step_fail hy hget hrunning
      by_cases hcode : body.code = .canceled
      · rw [if_pos hcode] at hmemory
        refine ⟨_, task_finish hmemory, ?_⟩
        rw [Callback.Outcome, if_pos hcode]
        rfl
      · rw [if_neg hcode] at hmemory
        refine ⟨_, task_finish hmemory, ?_⟩
        rw [Callback.Outcome, if_neg hcode]
        exact ⟨rfl, rfl⟩

theorem findsRunning_of_heeds (h : SystemStep cfg s e s') (hheeds : Heeds s e s') :
    FindsRunning s e := by
  intro run callback task harrives
  obtain ⟨task', htask', houtcome⟩ := (hheeds run callback task harrives).outcome
  obtain ⟨⟨n, c, rfl, hpost⟩, hfinal, htask, hopen⟩ := harrives
  simp only [SystemStep, System.advance, hpost] at h
  obtain ⟨y, hy, rfl⟩ := Option.map_eq_some_iff.mp h
  exact running_of_ended hy htask hopen htask' houtcome.terminal

/-! ### Orderly runs -/

/-- The step of the API that an event makes. -/
def System.action? (s : System) : Event → Option Action
  | .api a => some a
  | .answer c => ((s.jobs (s.sentJobs - 1)).bind Job.answer).map fun answer => .answered c answer
  | _ => none

/-- No task is stored over an open one, and no answer of the worker comes to a task that was
cancelled meanwhile. -/
def Orderly (s : System) (e : Event) : Prop :=
  ∀ a, s.action? e = some a → StillFree s.service a ∧ StillQueued s.service a

theorem signalled_of_orderly
    (h : Reachable SystemInitial (Guarded Orderly (SystemStep cfg)) s) :
    Signalled s.service.toMemory := by
  refine h.invariant_of (P := fun s => Signalled s.service.toMemory)
    (fun _ hs => reached_service hs.of_guarded) (fun s hs => ?_) fun s e s' hs hx hstep => ?_
  · obtain ⟨⟨htasks, -, -, -, hfired, -⟩, -⟩ := hs
    refine ⟨fun i task htask => ?_, fun i hi => ?_⟩
    · rw [htasks] at htask
      cases htask
    · rw [hfired] at hi
      cases hi
  · obtain ⟨horderly, hstep⟩ := hstep
    have hsound := reached_sound hs
    obtain ⟨hsame, -⟩ | ⟨a, ha, -, -, he⟩ | ⟨n, c, run, callback, -, -, ha, -⟩ :=
      service_cases hstep
    · rwa [hsame]
    · have haction : s.action? e = some a := by
        obtain ⟨rfl, -⟩ | ⟨c, answer, run, rfl, rfl, hjob⟩ := he
        · rfl
        · simp [System.action?, hjob]
      obtain ⟨hfree, hqueued⟩ := horderly a haction
      exact signalled_step hsound hx (fun _ _ hstores => hstores.hasOpen hfree) hqueued ha
    · refine signalled_step hsound hx (fun _ _ hstores => ?_) ?_ ha
      · cases callback <;> cases hstores
      · intro c' i after task answer heq
        cases callback <;> cases heq

/-- **Final callbacks.** A final callback that comes while its attempt is open decides it just
if the attempt is the one stored for the trip and runs. In an orderly run this is so just if
the callback has not overtaken the answer to its submission. -/
theorem final_callback_iff (cfg : Settings) :
    (∀ s e s', SystemReached cfg s → SystemStep cfg s e s' →
      (Heeds s e s' ↔ FindsRunning s e)) ∧
    ∀ s e s', Reachable SystemInitial (Guarded Orderly (SystemStep cfg)) s →
      SystemStep cfg s e s' → (Heeds s e s' ↔ InOrder s e) := by
  have hfirst : ∀ s e s', SystemStep cfg s e s' → (Heeds s e s' ↔ FindsRunning s e) :=
    fun s e s' h => ⟨findsRunning_of_heeds h, heeds_of_findsRunning h⟩
  refine ⟨fun s e s' _ => hfirst s e s', fun s e s' hreached h => ?_⟩
  rw [hfirst s e s' h]
  constructor
  · intro hfinds run callback task harrives
    rw [(hfinds run callback task harrives).2]
    decide
  · intro hinOrder run callback task harrives
    have hqueued := hinOrder run callback task harrives
    obtain ⟨⟨n, c, rfl, hpost⟩, hfinal, htask, hopen⟩ := harrives
    obtain ⟨task', htask', htrip, -⟩ :=
      reached_known hreached.of_guarded run (.post hpost hfinal)
    cases htask.symm.trans htask'
    have hstored := (signalled_of_orderly hreached).stored run.attempt task htask hopen
    rw [htrip] at hstored
    refine ⟨get_eq_some.mpr ⟨hstored, htask⟩, ?_⟩
    cases hstatus : task.status with
    | processing => rfl
    | queued => exact absurd hstatus hqueued
    | completed | failed | canceled =>
        rw [hstatus] at hopen
        cases hopen

/-- The worker accepts trip 7 and is done before its answer comes to the API. -/
def overtaking : List Event :=
  [.loaded] ++ taken 0 0 ++ [.start, .finish (.result emptyResult)]

/-- What comes to the API in a schedule. -/
theorem arrives_played (es : List Event) (n c attempt : Nat)
    (hposts : ((played es).posts n).any (fun post => post.handler.isNone &&
      post.callback.isFinal && decide (post.run.attempt = attempt)) = true)
    (htasks : ((played es).service.tasks attempt).any (fun task => !task.status.terminal) = true) :
    ∃ run callback task, run.attempt = attempt ∧
      Arrives (played es) (.deliver n c) run callback task := by
  obtain ⟨⟨run, callback, handler⟩, hpost, hchecks⟩ := (Option.any_eq_true _ _).mp hposts
  obtain ⟨task, htask, hopen⟩ := (Option.any_eq_true _ _).mp htasks
  simp only [Bool.and_eq_true, Option.isNone_iff_eq_none, decide_eq_true_eq] at hchecks
  obtain ⟨⟨rfl, hfinal⟩, rfl⟩ := hchecks
  exact ⟨run, callback, task, rfl, ⟨n, c, rfl, hpost⟩, hfinal, htask, by simpa using hopen⟩

/-- The result comes to a queued task and is dropped. -/
theorem overtaking_result_dropped : ¬ ∀ (cfg : Settings) (s : System) (e : Event) (s' : System),
    SystemReached cfg s → SystemStep cfg s e s' → Heeds s e s' := by
  intro h
  have hreached := reached_played overtaking (by decide +kernel)
  have hrun := run_played overtaking [.deliver 0 1] (by decide +kernel)
  have hdropped : (played (overtaking ++ [.deliver 0 1])).decided 0 = none := by decide +kernel
  cases hrun with
  | cons first rest =>
      cases rest
      obtain ⟨run, callback, task, hattempt, harrives⟩ :=
        arrives_played overtaking 0 1 0 (by decide +kernel) (by decide +kernel)
      have hdecided := (h sampleSettings _ _ _ hreached first run callback task harrives).decided
      rw [hattempt, hdropped] at hdecided
      cases hdecided

/-- The answer has come before the result. -/
def answeredFirst : List Event := overtaking ++ [.answer 0]

theorem findsRunning_answeredFirst : FindsRunning (played answeredFirst) (.deliver 0 1) := by
  rintro run callback task ⟨⟨n, c, heq, hpost⟩, -, htask, -⟩
  cases heq
  have hposts : ((played answeredFirst).posts 0).all (fun post =>
      decide (post.run.attempt = 0 ∧ post.run.tripId = 7)) = true := by decide +kernel
  have hget : ((played answeredFirst).service.get 7).any (fun stored =>
      decide (stored.1 = 0 ∧ stored.2.status = .processing)) = true := by decide +kernel
  obtain ⟨⟨i, task'⟩, hget, hstored⟩ := (Option.any_eq_true _ _).mp hget
  rw [hpost, Option.all_some, decide_eq_true_iff] at hposts
  rw [decide_eq_true_iff] at hstored
  obtain ⟨hattempt, htrip⟩ := hposts
  obtain ⟨rfl, hrunning⟩ := hstored
  rw [hattempt] at htask ⊢
  cases htask.symm.trans (get_eq_some.mp hget).2
  exact ⟨htrip ▸ hget, hrunning⟩

/-- Then the result decides the attempt. -/
theorem result_decides : ∃ run callback, run.attempt = 0 ∧
    DecidedBy (played (answeredFirst ++ [.deliver 0 1])) run callback := by
  have hreached := reached_played answeredFirst (by decide +kernel)
  have hrun := run_played answeredFirst [.deliver 0 1] (by decide +kernel)
  cases hrun with
  | cons first rest =>
      cases rest
      obtain ⟨run, callback, task, hattempt, harrives⟩ :=
        arrives_played answeredFirst 0 1 0 (by decide +kernel) (by decide +kernel)
      have hheeds := ((final_callback_iff sampleSettings).1 _ _ _ hreached first).mpr
        findsRunning_answeredFirst
      exact ⟨run, callback, hattempt, hheeds run callback task harrives⟩

end Yeodam.Jobs.Tasks
