/-
The status of a v1 task (`app/jobs/task_service.py`, the table at its top).

`_dispatch_next` waits for the worker's answer and then writes what the answer means,
whatever has become of the task meanwhile. A task that was cancelled in between comes back
to life (`canceled_revives`), or fails. `transitions_iff` says that this is the only way in
which a step leaves the table, and that a terminal status stays in every run without it.
-/

import Yeodam.Jobs.TaskSteps

namespace Yeodam.Jobs.Tasks

open Yeodam.Lib Yeodam.Schemas Memory

variable {cfg : Settings} {x y : Service} {a : Action}

/-- The table: from which status a step of which function leads to which. -/
inductive Transition : Option TaskStatus → Action → TaskStatus → Prop where
  | submit {c : Nat} {tripId : Int} {request : ProcessRequest} :
      Transition none (.submit c tripId request) .queued
  | readied {c : Nat} : Transition none (.readied c (some true)) .queued
  | accepted {c : Nat} : Transition (some .queued) (.answered c .accepted) .processing
  | cancel {c : Nat} {tripId : Int} : Transition (some .queued) (.cancel c tripId) .canceled
  | unreachable {c : Nat} {reason : String} :
      Transition (some .queued) (.answered c (.unavailable reason)) .failed
  | complete {c : Nat} {tripId : Int} {result : ProcessResult} :
      Transition (some .processing) (.complete c tripId result) .completed
  | fail {c : Nat} {tripId : Int} {error : ErrorBody} : error.code ≠ .canceled →
      Transition (some .processing) (.fail c tripId error) .failed
  | tick {c : Nat} : Transition (some .processing) (.tick c) .failed
  | aborted {c : Nat} {tripId : Int} {error : ErrorBody} : error.code = .canceled →
      Transition (some .processing) (.fail c tripId error) .canceled

theorem Transition.not_terminal {status status' : TaskStatus}
    (h : Transition (some status) a status') : status.terminal = false := by
  cases h <;> rfl

/-- The status of a task, if it exists. -/
def Memory.status? (m : Memory) (i : Nat) : Option TaskStatus := (m.tasks i).map Task.status

/-- Every status a step changes, it changes by the table. -/
def Lawful (x : Service) (a : Action) (y : Service) : Prop :=
  ∀ i, y.status? i ≠ x.status? i →
    ∃ status, y.status? i = some status ∧ Transition (x.status? i) a status

/-- When the worker has accepted a task or could not be reached, the task is still queued. -/
def StillQueued (x : Service) (a : Action) : Prop :=
  ∀ c i after task answer, a = .answered c answer → x.coroutines c = .dispatching i after →
    x.tasks i = some task → answer = .accepted ∨ (∃ reason, answer = .unavailable reason) →
    task.status = .queued

theorem Memory.status?_update {m m' : Memory} {i j : Nat} {task : Task}
    (htasks : m'.tasks = Function.update m.tasks i (some task)) :
    m'.status? j = if j = i then some task.status else m.status? j := by
  rw [status?, status?, htasks, Function.update_apply]
  split <;> rfl

/-- A step that writes one task is lawful if it keeps the status or moves by the table. -/
theorem lawful_of_write {i : Nat} {task : Task}
    (htasks : y.tasks = Function.update x.tasks i (some task))
    (h : x.status? i = some task.status ∨ Transition (x.status? i) a task.status) :
    Lawful x a y := by
  intro j hj
  rw [status?_update htasks] at hj ⊢
  split at hj
  · rename_i heq
    subst heq
    rw [if_pos rfl]
    obtain hsame | htransition := h
    · exact absurd hsame.symm hj
    · exact ⟨_, rfl, htransition⟩
  · exact absurd rfl hj

theorem status?_of_task {m : Memory} {i : Nat} {task : Task} (htask : m.tasks i = some task) :
    m.status? i = some task.status := by
  rw [status?, htask, Option.map_some]

/-- The watchdog only fails tasks that run. -/
theorem status?_watchAll (cfg : Settings) (m : Memory) (i : Nat) :
    (m.watchAll cfg).status? i = m.status? i ∨
      m.status? i = some .processing ∧ (m.watchAll cfg).status? i = some .failed := by
  refine watchAll_induction (P := fun m' => m'.status? i = m.status? i ∨
    m.status? i = some .processing ∧ m'.status? i = some .failed) (.inl rfl) ?_
  intro m' j task error hm' _ _ htask hrunning
  rw [status?_update tasks_finish]
  split
  · rename_i heq
    subst heq
    rw [status?_of_task htask, hrunning] at hm'
    obtain hsame | ⟨-, hfailed⟩ := hm'
    · exact .inr ⟨hsame.symm, rfl⟩
    · cases hfailed
  · exact hm'

theorem lawful_of_stillQueued (hs : Sound x.toMemory) (h : ServiceStep cfg x a y)
    (hqueued : StillQueued x a) : Lawful x a y := by
  have hwrote := wrote_of_step h
  generalize hm : y.toMemory = m at hwrote
  cases hwrote with
  | same =>
      intro i hi
      rw [hm] at hi
      exact absurd rfl hi
  | pass =>
      intro i hi
      rw [hm] at hi
      exact absurd rfl hi
  | added hstores =>
      have hnone : x.status? x.created = none := by
        rw [status?, Option.map_eq_none_iff]
        by_contra hsome
        obtain ⟨task, htask⟩ := Option.ne_none_iff_exists'.mp hsome
        exact absurd (hs.created _ task htask) (lt_irrefl _)
      refine lawful_of_write (by rw [hm, tasks_add]) (.inr ?_)
      rw [hnone]
      cases hstores with
      | submit => exact .submit
      | readied => exact .readied
  | started hdispatching htask =>
      refine lawful_of_write (by rw [hm, tasks_start]) (.inr ?_)
      rw [status?_of_task htask, hqueued _ _ _ _ _ rfl hdispatching htask (.inl rfl)]
      exact .accepted
  | reported hget =>
      refine lawful_of_write (by rw [hm, tasks_report]) (.inl ?_)
      rw [status?_of_task (get_eq_some.mp hget).2]
  | finished hfin =>
      refine lawful_of_write (by rw [hm, tasks_finish]) (.inr ?_)
      rw [status?_of_task hfin.task]
      cases hfin with
      | completed _ hstatus =>
          rw [hstatus]
          exact .complete
      | aborted _ hstatus hcode =>
          rw [hstatus]
          exact .aborted hcode
      | failed _ hstatus hcode =>
          rw [hstatus]
          exact .fail hcode
      | canceled _ hstatus =>
          rw [hstatus]
          exact .cancel
      | unreachable hdispatching htask =>
          rw [hqueued _ _ _ _ _ rfl hdispatching htask (.inr ⟨_, rfl⟩)]
          exact .unreachable
  | ticked =>
      intro i hi
      rw [hm] at hi ⊢
      obtain hsame | ⟨hrunning, hfailed⟩ := status?_watchAll cfg x.toMemory i
      · exact absurd hsame hi
      · exact ⟨_, hfailed, hrunning ▸ .tick⟩

/-- What a lawful step leaves of a terminal status: all. -/
theorem Lawful.terminal {i : Nat} {status : TaskStatus} (h : Lawful x a y)
    (hx : x.status? i = some status) (hterminal : status.terminal = true) :
    y.status? i = some status := by
  by_contra hne
  obtain ⟨status', -, htransition⟩ := h i (by rwa [hx])
  rw [hx] at htransition
  rw [htransition.not_terminal] at hterminal
  cases hterminal

theorem stillQueued_of_lawful (hh : HandsOver x) (h : ServiceStep cfg x a y)
    (hlawful : Lawful x a y) : StillQueued x a := by
  rintro c i after task answer rfl hdispatching htask hanswer
  obtain ⟨task', htask', hqueued | hcanceled⟩ := hh c i after hdispatching
  · cases htask.symm.trans htask'
    exact hqueued
  · cases htask.symm.trans htask'
    -- What the answer does to a cancelled task is not in the table.
    have hy := hlawful.terminal ((status?_of_task htask).trans (congrArg some hcanceled)) rfl
    rcases hanswer with rfl | ⟨reason, rfl⟩
    · rw [step_accepted h hdispatching htask, status?_update tasks_start, if_pos rfl] at hy
      cases hy
    · rw [step_unavailable h hdispatching htask, status?_update tasks_finish, if_pos rfl] at hy
      cases hy

/-- **Statuses.** A step keeps to the table just if an answer of the worker does not come
to a task that is no longer queued; and a run of such steps keeps every terminal status. -/
theorem transitions_iff (h : ServiceReached cfg x) :
    (∀ a y, ServiceStep cfg x a y → (Lawful x a y ↔ StillQueued x a)) ∧
    ∀ as y, Run (Guarded StillQueued (ServiceStep cfg)) x as y →
      ∀ i status, x.status? i = some status → status.terminal = true →
        y.status? i = some status := by
  refine ⟨fun a y hstep => ⟨stillQueued_of_lawful (reached_handsOver h) hstep,
    lawful_of_stillQueued (reached_sound h) hstep⟩, fun as y hrun i status hx hterminal => ?_⟩
  have hpreserved := hrun.preserves
    (P := fun x => ServiceReached cfg x ∧ x.status? i = some status)
    (fun u a v hu hstep => ⟨hu.1.next hstep.2,
      (lawful_of_stillQueued (reached_sound hu.1) hstep.2 hstep.1).terminal hu.2 hterminal⟩)
    ⟨h, hx⟩
  exact hpreserved.2

/-- Trip 7 is handed to the worker and cancelled. -/
def withdrawn : List Action := submitted 0 7 ++ [.cancel 1 7]

/-- A cancelled task is taken up again when the worker's answer comes. -/
theorem canceled_revives : ¬ ∀ (cfg : Settings) (x : Service), ServiceReached cfg x →
    (∀ a y, ServiceStep cfg x a y → Lawful x a y) ∧
      ∀ as y, Run (ServiceStep cfg) x as y → ∀ i status, x.status? i = some status →
        status.terminal = true → y.status? i = some status := by
  intro h
  have hbefore := reached_served withdrawn (by decide +kernel)
  have hafter := run_served withdrawn [.answered 0 .accepted] (by decide +kernel)
  have hstays := (h sampleSettings _ hbefore).2 _ _ hafter 0 .canceled (by decide +kernel) rfl
  have hrunning : (served (withdrawn ++ [.answered 0 .accepted])).status? 0 = some .processing := by
    decide +kernel
  rw [hrunning] at hstays
  cases hstays

/-- If the worker is busy instead, it stays cancelled. -/
theorem canceled_stays :
    (served (withdrawn ++ [.answered 0 .busy])).status? 0 = some .canceled := by
  have hbefore := reached_served withdrawn (by decide +kernel)
  have hafter := run_served withdrawn [.answered 0 .busy] (by decide +kernel)
  refine (transitions_iff hbefore).2 _ _ (hafter.guarded fun a ha u => ?_) 0 .canceled
    (by decide +kernel) rfl
  obtain rfl := List.mem_singleton.mp ha
  rintro c i after task answer heq - - (rfl | ⟨reason, rfl⟩) <;> cases heq

end Yeodam.Jobs.Tasks
