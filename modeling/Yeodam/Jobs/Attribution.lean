/-
Which run a callback decides (`app/jobs/task_service.py`, `app/worker/runner.py`,
`app/worker/callback.py`).

A callback names its trip and nothing else, and the API gives it to whatever attempt of the
trip it has. The worker frees itself before it sends its last callback and sends it again
until it is answered, so an attempt may run while callbacks of an earlier one are still
under way, and is then decided by them (`earlier_run_decides`).

`attributed_of_settled` says when every attempt is decided by its own run: when the worker's
acceptance comes to an attempt only after everything of the earlier runs of its trip has
left the system.
-/

import Yeodam.Jobs.Worker

namespace Yeodam.Jobs.Tasks

open Yeodam.Lib Yeodam.Schemas Memory

variable {cfg : Settings} {s s' : System} {e : Event} {run : Execution}

/-! ### Runs that are not over -/

/-- The run the thread works on. -/
def Thread.run? : Thread → Option Execution
  | .idle => none
  | .executing run | .posting run _ _ _ => some run

/-- A run from which a final callback may still come. -/
inductive Live (s : System) : Execution → Prop where
  | job {n : Nat} {run : Execution} : s.jobs n = some ⟨run, none⟩ → Live s run
  | waiting {run : Execution} : run ∈ s.worker.waiting → Live s run
  | thread {run : Execution} : s.worker.thread.run? = some run → Live s run
  | post {n : Nat} {run : Execution} {callback : Callback} :
      s.posts n = some ⟨run, callback, none⟩ → callback.isFinal = true → Live s run

/-- The trip and the request of a run are those of an attempt. -/
def Execution.IsOf (run : Execution) (m : Memory) (i : Nat) : Prop :=
  ∃ task, m.tasks i = some task ∧ task.tripId = run.tripId ∧ task.request = run.request

/-- The run a step of the API submits is that of the oldest queued task. -/
theorem outgoing_spec {x y : Service} {a : Action} (hl : Locked x) (h : ServiceStep cfg x a y)
    (ho : System.outgoing y a = some run) :
    y.oldestQueued = some run.attempt ∧ run.IsOf y.toMemory run.attempt := by
  have hc : ∃ c, (a = .acquire c ∨ ∃ answer, a = .answered c answer) ∧
      ∃ i after, y.coroutines c = .dispatching i after ∧
        ∃ task, y.tasks i = some task ∧ run = ⟨i, task.tripId, task.request⟩ := by
    unfold System.outgoing at ho
    split at ho
    · rename_i c
      split at ho
      · rename_i i after hdispatching
        obtain ⟨task, htask, rfl⟩ := Option.map_eq_some_iff.mp ho
        exact ⟨c, .inl rfl, i, after, hdispatching, task, htask, rfl⟩
      · cases ho
    · rename_i c answer
      split at ho
      · rename_i i after hdispatching
        obtain ⟨task, htask, rfl⟩ := Option.map_eq_some_iff.mp ho
        exact ⟨c, .inr ⟨answer, rfl⟩, i, after, hdispatching, task, htask, rfl⟩
      · cases ho
    · cases ho
  obtain ⟨c, ha, i, after, hdispatching, task, htask, rfl⟩ := hc
  refine ⟨?_, task, htask, rfl, rfl⟩
  obtain ⟨hold, -, hanswer⟩ | ⟨-, -, holdest⟩ := dispatching_cases hl h hdispatching
  · obtain rfl | ⟨answer, rfl⟩ := ha
    · obtain ⟨after', hlocking, -⟩ := step_acquire h
      rw [hlocking] at hold
      cases hold
    · cases hanswer
  · exact holdest

@[simp] theorem service_serve (a : Action) (y : Service) : (s.serve a y).service = y := by
  unfold System.serve
  split <;> rfl

theorem live_serve {a : Action} {y : Service} (h : Live (s.serve a y) run) :
    Live s run ∨ System.outgoing y a = some run := by
  unfold System.serve at h
  split at h
  · rename_i run' ho
    cases h with
    | job hjob =>
        simp only [Function.update_apply] at hjob
        split at hjob
        · cases hjob
          exact .inr ho
        · exact .inl (.job hjob)
    | waiting hmem => exact .inl (.waiting hmem)
    | thread hthread => exact .inl (.thread hthread)
    | post hpost hfinal => exact .inl (.post hpost hfinal)
  · cases h with
    | job hjob => exact .inl (.job hjob)
    | waiting hmem => exact .inl (.waiting hmem)
    | thread hthread => exact .inl (.thread hthread)
    | post hpost hfinal => exact .inl (.post hpost hfinal)

theorem live_setAnswer {n : Nat} {run' : Execution} {answer : SubmitAnswer}
    (h : Live (s.setAnswer n run' answer) run) : Live s run := by
  cases h with
  | job hjob =>
      simp only [System.setAnswer, Function.update_apply] at hjob
      split at hjob
      · cases hjob
      · exact .job hjob
  | waiting hmem => exact .waiting hmem
  | thread hthread => exact .thread hthread
  | post hpost hfinal => exact .post hpost hfinal

theorem live_handle {n : Nat} {run' : Execution} (hjob : s.jobs n = some ⟨run', none⟩)
    (h : Live (s.handle n run') run) : Live s run := by
  unfold System.handle at h
  split at h
  · exact live_setAnswer h
  · split at h
    · exact live_setAnswer h
    · cases h with
      | job hm => exact live_setAnswer (.job hm)
      | waiting hmem =>
          obtain hold | hnew := List.mem_append.mp hmem
          · exact .waiting hold
          · obtain rfl := List.mem_singleton.mp hnew
            exact .job hjob
      | thread hthread => exact .thread hthread
      | post hpost hfinal => exact .post hpost hfinal

theorem live_post {worker : Worker} {run' : Execution} {callback : Callback} {tries : Nat}
    (hwaiting : worker.waiting = s.worker.waiting) (hrun : Live s run')
    (h : Live (s.post worker run' callback tries) run) : Live s run := by
  cases h with
  | job hjob => exact .job hjob
  | waiting hmem => exact .waiting (hwaiting ▸ hmem)
  | thread hthread =>
      cases hthread
      exact hrun
  | post hpost hfinal =>
      simp only [System.post, Function.update_apply] at hpost
      split at hpost
      · cases hpost
        exact hrun
      · exact .post hpost hfinal

/-- **No run comes from nowhere**: a step makes a run live only by submitting it. -/
theorem live_step (h : SystemStep cfg s e s') (hlive : Live s' run) :
    Live s run ∨ ∃ a, ServiceStep cfg s.service a s'.service ∧
      System.outgoing s'.service a = some run := by
  cases stepped_of_step h with
  | @served _ a y hy =>
      rw [service_serve]
      obtain hold | hnew := live_serve hlive
      · exact .inl hold
      · exact .inr ⟨a, hy, hnew⟩
  | handled hjob => exact .inl (live_handle hjob hlive)
  | loaded =>
      left
      cases hlive with
      | job hjob => exact .job hjob
      | waiting hmem => exact .waiting hmem
      | thread hthread => exact .thread hthread
      | post hpost hfinal => exact .post hpost hfinal
  | started _ hwaiting =>
      left
      cases hlive with
      | job hjob => exact .job hjob
      | waiting hmem => exact .waiting (hwaiting ▸ List.mem_cons_of_mem _ hmem)
      | thread hthread =>
          cases hthread
          exact .waiting (hwaiting ▸ List.mem_cons_self)
      | post hpost hfinal => exact .post hpost hfinal
  | reported hexecuting => exact .inl (live_post rfl (.thread (by rw [hexecuting]; rfl)) hlive)
  | @finished run' callback hexecuting _ =>
      left
      have hposted :
          Live (s.post { s.worker with current := none } run' callback (furtherTries cfg))
          run := by
        cases hlive with
        | job hjob => exact .job hjob
        | waiting hmem => exact .waiting hmem
        | thread hthread => exact .thread hthread
        | post hpost hfinal => exact .post hpost hfinal
      have hwaiting : ({ s.worker with current := none } : Worker).waiting = s.worker.waiting := rfl
      exact live_post hwaiting (.thread (by rw [hexecuting]; rfl)) hposted
  | delivered =>
      left
      cases hlive with
      | job hjob => exact .job hjob
      | waiting hmem => exact .waiting hmem
      | thread hthread => exact .thread hthread
      | post hpost hfinal =>
          simp only [System.delivered, Function.update_apply] at hpost
          split at hpost
          · cases hpost
          · exact .post hpost hfinal
  | @posted _ run' callback _ _ hposting =>
      left
      cases hlive with
      | job hjob => exact .job hjob
      | waiting hmem => exact .waiting hmem
      | thread hthread =>
          simp only [System.posted] at hthread
          split at hthread
          · cases hthread
          · cases hthread
            exact .thread (by rw [hposting]; rfl)
      | post hpost hfinal => exact .post hpost hfinal
  | retried hposting => exact .inl (live_post rfl (.thread (by rw [hposting]; rfl)) hlive)

/-! ### The API in the system -/

theorem service_handle (n : Nat) :
    (s.handle n run).service = s.service ∧ (s.handle n run).decided = s.decided := by
  unfold System.handle
  split
  · exact ⟨rfl, rfl⟩
  · split <;> exact ⟨rfl, rfl⟩

/-- What a step of the system does to the API: nothing, a step that no callback makes, or
the step a callback makes. -/
theorem service_cases (h : SystemStep cfg s e s') :
    (s'.service = s.service ∧ s'.decided = s.decided) ∨
      (∃ a, ServiceStep cfg s.service a s'.service ∧ (∀ c tripId, ∀ callback : Callback,
        a ≠ callback.action c tripId) ∧ s' = s.serve a s'.service ∧
        (e = .api a ∧ s.own a = true ∨ ∃ c answer run, e = .answer c ∧ a = .answered c answer ∧
          s.jobs (s.sentJobs - 1) = some ⟨run, some answer⟩)) ∨
      ∃ n c run callback, e = .deliver n c ∧ s.posts n = some ⟨run, callback, none⟩ ∧
        ServiceStep cfg s.service (callback.action c run.tripId) s'.service ∧
        s' = s.delivered n c run callback s'.service := by
  cases stepped_of_step h with
  | served hy hown he =>
      refine .inr (.inl ⟨_, ?_, hown, ?_, he⟩)
      · rwa [service_serve]
      · rw [service_serve]
  | handled => exact .inl (service_handle _)
  | loaded | started | reported | finished | posted | retried => exact .inl ⟨rfl, rfl⟩
  | delivered hpost hy => exact .inr (.inr ⟨_, _, _, _, rfl, hpost, hy, rfl⟩)

theorem reached_service (h : SystemReached cfg s) : ServiceReached cfg s.service := by
  refine h.invariant (P := fun s => ServiceReached cfg s.service) (fun s hs => .of_init hs.1)
    fun s e s' hs hstep => ?_
  obtain ⟨hsame, -⟩ | ⟨a, ha, -⟩ | ⟨n, c, run, callback, -, -, ha, -⟩ := service_cases hstep
  · rwa [hsame]
  · exact hs.next ha
  · exact hs.next ha

theorem isOf_step (hreached : SystemReached cfg s) (h : SystemStep cfg s e s') {i : Nat}
    (hrun : run.IsOf s.service.toMemory i) : run.IsOf s'.service.toMemory i := by
  have hs := reached_sound (reached_service hreached)
  obtain ⟨task, htask, htrip, hrequest⟩ := hrun
  obtain ⟨hsame, -⟩ | ⟨a, ha, -⟩ | ⟨n, c, run', callback, -, -, ha, -⟩ := service_cases h
  · exact ⟨task, by rw [hsame, htask], htrip, hrequest⟩
  · obtain ⟨task', htask', htrip', hrequest'⟩ := task_step hs ha htask
    exact ⟨task', htask', htrip'.trans htrip, hrequest'.trans hrequest⟩
  · obtain ⟨task', htask', htrip', hrequest'⟩ := task_step hs ha htask
    exact ⟨task', htask', htrip'.trans htrip, hrequest'.trans hrequest⟩

/-- Every live run was sent with the trip and the request of its attempt. -/
def Known (s : System) : Prop := ∀ run, Live s run → run.IsOf s.service.toMemory run.attempt

theorem not_live_initial (h : SystemInitial s) : ¬ Live s run := by
  obtain ⟨-, -, hwaiting, hthread, hjobs, hposts, -⟩ := h
  rintro (hjob | hmem | hrun | hpost)
  · rw [hjobs] at hjob
    cases hjob
  · rw [hwaiting] at hmem
    cases hmem
  · rw [hthread] at hrun
    cases hrun
  · rw [hposts] at hpost
    cases hpost

theorem known_step (hreached : SystemReached cfg s) (hk : Known s) (h : SystemStep cfg s e s') :
    Known s' := by
  intro run hlive
  obtain hold | ⟨a, ha, hnew⟩ := live_step h hlive
  · exact isOf_step hreached h (hk run hold)
  · exact (outgoing_spec (reached_locked (reached_service hreached)) ha hnew).2

theorem reached_known (h : SystemReached cfg s) : Known s :=
  h.invariant_of (fun _ hs => hs) (fun _ hs _ hlive => absurd hlive (not_live_initial hs))
    fun _ _ _ hs hk hstep => known_step hs hk hstep

/-! ### Earlier runs -/

/-- When the worker's acceptance comes to an attempt, no other run of the trip is live. -/
def Settled (s : System) (e : Event) : Prop :=
  ∀ c i after task job, e = .answer c → s.jobs (s.sentJobs - 1) = some ⟨job, some .accepted⟩ →
    s.service.coroutines c = .dispatching i after → s.service.tasks i = some task →
    ∀ run, Live s run → run.tripId = task.tripId → run.attempt = i

/-- While the attempt stored for a trip runs, all live runs of the trip are its own. -/
def Attended (s : System) : Prop :=
  ∀ tripId i task run, s.service.get tripId = some (i, task) → task.status = .processing →
    Live s run → run.tripId = tripId → run.attempt = i

theorem attended_step (hreached : SystemReached cfg s) (hx : Attended s) (hsettled : Settled s e)
    (h : SystemStep cfg s e s') : Attended s' := by
  have hservice := reached_service hreached
  have hs := reached_sound hservice
  intro tripId i task run hget hstatus hlive htrip
  obtain ⟨hstored, htask⟩ := get_eq_some.mp hget
  -- A stored attempt that ran before was attended.
  have hbefore : ∀ before, s.service.tasks i = some before → before.status = .processing →
      s.service.store.get? tripId = some i → Live s run → run.attempt = i :=
    fun before hbefore hrunning hst hold =>
      hx tripId i before run (get_eq_some.mpr ⟨hst, hbefore⟩) hrunning hold htrip
  obtain hold | ⟨a, ha, hnew⟩ := live_step h hlive
  · obtain ⟨hsame, -⟩ | ⟨a, ha, -, -, he⟩ | ⟨n, c, run', callback, -, -, ha, -⟩ :=
      service_cases h
    · rw [hsame] at htask hstored
      exact hbefore task htask hstatus hstored hold
    · obtain ⟨before, hb, hrunning⟩ | ⟨c, after, before, rfl, hdispatching, hb⟩ :=
        processing_from ha htask hstatus
      · exact hbefore before hb hrunning (stored_from hs ha hb hstored) hold
      · obtain ⟨rfl, hown⟩ | ⟨c', answer, job, rfl, hanswer, hjob⟩ := he
        · cases hown
        · cases hanswer
          have hst := stored_from hs ha hb hstored
          obtain ⟨before', hb', htrip'⟩ := hs.stored tripId i hst
          cases hb.symm.trans hb'
          exact hsettled c i after before job rfl hjob hdispatching hb run hold
            (htrip.trans htrip'.symm)
    · obtain ⟨before, hb, hrunning⟩ | ⟨c', after, before, heq, -⟩ :=
        processing_from ha htask hstatus
      · exact hbefore before hb hrunning (stored_from hs ha hb hstored) hold
      · cases callback <;> cases heq
  · -- The run that was submitted is that of a queued attempt.
    obtain ⟨holdest, task', htask', htrip', -⟩ :=
      outgoing_spec (reached_locked hservice) ha hnew
    obtain ⟨⟨t, ht⟩, queued, hqueued, hstatus'⟩ := oldestQueued_mem holdest
    cases htask'.symm.trans hqueued
    obtain ⟨task₀, htask₀, htrip₀⟩ := (sound_step hs ha).stored t run.attempt ht
    cases htask'.symm.trans htask₀
    have hsame : t = tripId := htrip₀.symm.trans (htrip'.trans htrip)
    rw [hsame, hstored] at ht
    exact (Option.some.inj ht).symm

/-! ### Attribution -/

/-- Every callback the worker has under way is what its run ended with. -/
structure Produced (s : System) : Prop where
  posts : ∀ n post, s.posts n = some post → post.callback.isFinal = true →
    (post.run, post.callback) ∈ s.outcomes
  posting : ∀ run callback copy tries, s.worker.thread = .posting run callback copy tries →
    callback.isFinal = true → (run, callback) ∈ s.outcomes

/-- An attempt was decided by its own run, and a completed one has that run's result. -/
structure Attributed (s : System) : Prop where
  decided : ∀ i run callback, s.decided i = some (run, callback) →
    run.attempt = i ∧ (run, callback) ∈ s.outcomes ∧ run.IsOf s.service.toMemory i
  completed : ∀ i task, s.service.tasks i = some task → task.status = .completed →
    ∃ run result, s.decided i = some (run, .result result) ∧ task.result = some result

theorem produced_post {worker : Worker} {callback : Callback} {tries : Nat} (hp : Produced s)
    (h : callback.isFinal = true → (run, callback) ∈ s.outcomes) :
    Produced (s.post worker run callback tries) := by
  constructor
  · intro n post hpost hfinal
    simp only [System.post, Function.update_apply] at hpost
    split at hpost
    · cases hpost
      exact h hfinal
    · exact hp.posts n post hpost hfinal
  · intro run' callback' copy tries' hposting hfinal
    cases hposting
    exact h hfinal

theorem produced_step (hp : Produced s) (h : SystemStep cfg s e s') : Produced s' := by
  cases stepped_of_step h with
  | served =>
      unfold System.serve
      split <;> exact ⟨hp.posts, hp.posting⟩
  | handled =>
      unfold System.handle
      split
      · exact ⟨hp.posts, hp.posting⟩
      · split <;> exact ⟨hp.posts, hp.posting⟩
  | loaded => exact ⟨hp.posts, hp.posting⟩
  | started => exact ⟨hp.posts, fun _ _ _ _ hposting => by cases hposting⟩
  | reported => exact produced_post hp fun hfinal => by cases hfinal
  | @finished run callback _ _ =>
      have hmore : Produced { s with outcomes := (run, callback) :: s.outcomes } := by
        constructor
        · intro n post hpost hfinal
          exact List.mem_cons_of_mem _ (hp.posts n post hpost hfinal)
        · intro run' callback' copy tries hposting hfinal
          exact List.mem_cons_of_mem _ (hp.posting run' callback' copy tries hposting hfinal)
      exact produced_post hmore fun _ => List.mem_cons_self
  | @delivered n c run callback y hpost =>
      refine ⟨fun m post hm hfinal => ?_, hp.posting⟩
      simp only [System.delivered, Function.update_apply] at hm
      split at hm
      · cases hm
        exact hp.posts n ⟨run, callback, none⟩ hpost hfinal
      · exact hp.posts m post hm hfinal
  | posted =>
      refine ⟨hp.posts, fun run callback copy tries hposting => ?_⟩
      simp only [System.posted] at hposting
      split at hposting <;> cases hposting
  | retried hposting => exact produced_post hp fun hfinal => hp.posting _ _ _ _ hposting hfinal

theorem reached_produced (h : SystemReached cfg s) : Produced s := by
  refine h.invariant (fun s hs => ?_) fun _ _ _ => produced_step
  obtain ⟨-, -, -, hthread, -, hposts, -⟩ := hs
  constructor
  · intro n post hpost
    rw [hposts] at hpost
    cases hpost
  · intro run callback copy tries hposting
    rw [hthread] at hposting
    cases hposting

theorem outcomes_step (h : SystemStep cfg s e s') (outcome : Execution × Callback)
    (hmem : outcome ∈ s.outcomes) : outcome ∈ s'.outcomes := by
  cases stepped_of_step h with
  | served =>
      unfold System.serve
      split <;> exact hmem
  | handled =>
      unfold System.handle
      split
      · exact hmem
      · split <;> exact hmem
  | finished => exact List.mem_cons_of_mem _ hmem
  | loaded | started | reported | delivered | posted | retried => exact hmem

/-- The attempt a callback decides is the one of its trip, and runs. -/
theorem decides_eq_some {callback : Callback} {i : Nat} (h : s.decides run callback = some i) :
    callback.isFinal = true ∧
      ∃ task, s.service.get run.tripId = some (i, task) ∧ task.status = .processing := by
  unfold System.decides at h
  split at h
  · rename_i hfinal
    split at h
    · rename_i hget
      split at h
      · rename_i hrunning
        cases h
        exact ⟨hfinal, _, hget, hrunning⟩
      · cases h
    · cases h
  · cases h

/-- A step that decides nothing and completes nothing. -/
theorem attributed_of_same (hreached : SystemReached cfg s) (hx : Attributed s)
    (h : SystemStep cfg s e s') (hdecided : s'.decided = s.decided)
    (hcompleted : ∀ i task, s'.service.tasks i = some task → task.status = .completed →
      s.service.tasks i = some task) : Attributed s' := by
  refine ⟨fun i run callback hi => ?_, fun i task htask hstatus => ?_⟩
  · rw [hdecided] at hi
    obtain ⟨hattempt, houtcome, hrun⟩ := hx.decided i run callback hi
    exact ⟨hattempt, outcomes_step h _ houtcome, isOf_step hreached h hrun⟩
  · rw [hdecided]
    exact hx.completed i task (hcompleted i task htask hstatus) hstatus

theorem attributed_step (hreached : SystemReached cfg s) (hattended : Attended s)
    (hx : Attributed s) (h : SystemStep cfg s e s') : Attributed s' := by
  obtain ⟨hsame, hdecided⟩ | ⟨a, ha, hown, hserve, -⟩ |
    ⟨n, c, run', callback', rfl, hpost, ha, hdelivered⟩ := service_cases h
  · exact attributed_of_same hreached hx h hdecided fun i task htask _ => by rwa [hsame] at htask
  · have hdecided : s'.decided = s.decided := by
      rw [hserve]
      unfold System.serve
      split <;> rfl
    apply attributed_of_same hreached hx h hdecided
    intro i task htask hstatus
    obtain hold | ⟨c, tripId, result, -, rfl, -⟩ := completed_from ha htask hstatus
    · exact hold
    · exact absurd rfl (hown c tripId (.result result))
  · have hdecided := congrArg System.decided hdelivered
    cases hdecides : s.decides run' callback' with
    | none =>
        simp only [System.delivered, hdecides] at hdecided
        apply attributed_of_same hreached hx h hdecided
        intro i task htask hstatus
        obtain hold | ⟨c', tripId, result, before, heq, hget, hrunning, -⟩ :=
          completed_from ha htask hstatus
        · exact hold
        · cases callback' <;> cases heq
          simp only [System.decides, Callback.isFinal, if_true, hget, hrunning] at hdecides
          cases hdecides
    | some j =>
        simp only [System.delivered, hdecides] at hdecided
        obtain ⟨hfinal, before, hget, hrunning⟩ := decides_eq_some hdecides
        have hlive : Live s run' := .post hpost hfinal
        have hattempt : run'.attempt = j :=
          hattended run'.tripId j before run' hget hrunning hlive rfl
        refine ⟨fun i run callback hi => ?_, fun i task htask hstatus => ?_⟩
        · rw [hdecided, Function.update_apply] at hi
          split at hi
          · rename_i heq
            cases hi
            subst heq
            refine ⟨hattempt, outcomes_step h _ ?_, isOf_step hreached h ?_⟩
            · exact (reached_produced hreached).posts n _ hpost hfinal
            · exact hattempt ▸ reached_known hreached run' hlive
          · obtain ⟨hattempt, houtcome, hrun⟩ := hx.decided i run callback hi
            exact ⟨hattempt, outcomes_step h _ houtcome, isOf_step hreached h hrun⟩
        · rw [hdecided, Function.update_apply]
          obtain hold | ⟨c', tripId, result, before', heq, hget', -, hresult⟩ :=
            completed_from ha htask hstatus
          · have hne : i ≠ j := by
              rintro rfl
              cases hold.symm.trans (get_eq_some.mp hget).2
              rw [hrunning] at hstatus
              cases hstatus
            rw [if_neg hne]
            exact hx.completed i task hold hstatus
          · cases callback' <;> cases heq
            cases hget.symm.trans hget'
            exact ⟨run', result, if_pos rfl, hresult⟩

/-- **Callbacks are attributed.** As long as the worker's acceptance comes to an attempt only
when no other run of its trip is live, every attempt that a callback decided was decided by
its own run, and a completed one has the result that run produced. -/
theorem attributed_of_settled
    (h : Reachable SystemInitial (Guarded Settled (SystemStep cfg)) s) : Attributed s := by
  have hboth : Attended s ∧ Attributed s := by
    refine h.invariant_of (P := fun s => Attended s ∧ Attributed s) (fun _ hs => hs.of_guarded)
      (fun s hs => ⟨?_, ?_⟩) fun s e s' hs hx hstep =>
        ⟨attended_step hs hx.1 hstep.1 hstep.2, attributed_step hs hx.1 hx.2 hstep.2⟩
    · exact fun _ _ _ _ _ _ hlive => absurd hlive (not_live_initial hs)
    · obtain ⟨⟨htasks, -⟩, -, -, -, -, -, -, hdecided⟩ := hs
      refine ⟨fun i run callback hi => ?_, fun i task htask => ?_⟩
      · rw [hdecided] at hi
        cases hi
      · rw [htasks] at htask
        cases htask
  exact hboth.2

/-- The first run of trip 7 ends and its result is taken, but the answer to that is lost; a
second attempt runs when the result is sent again. -/
def resentResult : List Event :=
  [.loaded] ++ taken 0 0 ++ [.answer 0, .start, .finish (.result emptyResult), .deliver 0 1,
    .api (.acquire 1)] ++ taken 2 1 ++ [.answer 2, .retry, .deliver 1 3]

/-- The second attempt is completed with the result of the first. -/
theorem earlier_run_decides : ¬ ∀ (cfg : Settings) (s : System), SystemReached cfg s →
    Attributed s := by
  intro h
  have hreached := reached_played resentResult (by decide +kernel)
  have hdecided : ((played resentResult).decided 1).any (fun outcome =>
      decide (outcome.1.attempt = 0)) = true := by decide +kernel
  obtain ⟨⟨run, callback⟩, hdecided, hattempt⟩ := (Option.any_eq_true _ _).mp hdecided
  rw [decide_eq_true_iff] at hattempt
  have hown := ((h sampleSettings _ hreached).decided 1 run callback hdecided).1
  rw [hattempt] at hown
  cases hown

/-! ### Settled steps, decided -/

/-- What was sent has a number that was given. -/
structure Sent (s : System) : Prop where
  jobs : ∀ n job, s.jobs n = some job → n < s.sentJobs
  posts : ∀ n post, s.posts n = some post → n < s.sentPosts

theorem sent_post {worker : Worker} {callback : Callback} {tries : Nat} (hx : Sent s) :
    Sent (s.post worker run callback tries) := by
  refine ⟨hx.jobs, fun n post hn => ?_⟩
  simp only [System.post, Function.update_apply] at hn ⊢
  split at hn
  · omega
  · have hlt := hx.posts n post hn
    omega

theorem sent_step (hx : Sent s) (h : SystemStep cfg s e s') : Sent s' := by
  cases stepped_of_step h with
  | served _ _ _ =>
      unfold System.serve
      split
      · refine ⟨fun n job hn => ?_, hx.posts⟩
        simp only [Function.update_apply] at hn ⊢
        split at hn
        · omega
        · have hlt := hx.jobs n job hn
          omega
      · exact ⟨hx.jobs, hx.posts⟩
  | handled hjob =>
      have hsent := hx.jobs _ _ hjob
      have hanswer : ∀ m run answer, m < s.sentJobs → Sent (s.setAnswer m run answer) := by
        refine fun m run answer hm => ⟨fun n job hn => ?_, hx.posts⟩
        simp only [System.setAnswer, Function.update_apply] at hn ⊢
        split at hn
        · omega
        · exact hx.jobs n job hn
      unfold System.handle
      split
      · exact hanswer _ _ _ hsent
      · split
        · exact hanswer _ _ _ hsent
        · exact ⟨(hanswer _ _ _ hsent).jobs, hx.posts⟩
  | loaded | started | posted => exact ⟨hx.jobs, hx.posts⟩
  | reported | retried => exact sent_post hx
  | @finished run callback =>
      have hposted : Sent (s.post { s.worker with current := none } run callback
        (furtherTries cfg)) := sent_post hx
      exact ⟨hposted.jobs, hposted.posts⟩
  | delivered hpost =>
      refine ⟨hx.jobs, fun n post hn => ?_⟩
      simp only [System.delivered, Function.update_apply] at hn
      split at hn
      · rename_i heq
        subst heq
        exact hx.posts _ _ hpost
      · exact hx.posts n post hn

theorem reached_sent (h : SystemReached cfg s) : Sent s := by
  refine h.invariant (fun s hs => ?_) fun _ _ _ hx hstep => sent_step hx hstep
  obtain ⟨-, -, -, -, hjobs, hposts, -⟩ := hs
  refine ⟨fun n job hn => ?_, fun n post hn => ?_⟩
  · rw [hjobs] at hn
    cases hn
  · rw [hposts] at hn
    cases hn

/-- The live runs, listed. -/
def liveRuns (s : System) : List Execution :=
  ((List.range s.sentJobs).filterMap fun n => match s.jobs n with
    | some ⟨run, none⟩ => some run
    | _ => none) ++ s.worker.waiting ++ s.worker.thread.run?.toList ++
  (List.range s.sentPosts).filterMap fun n => match s.posts n with
    | some ⟨run, callback, none⟩ => if callback.isFinal then some run else none
    | _ => none

theorem mem_liveRuns (hx : Sent s) (h : Live s run) : run ∈ liveRuns s := by
  unfold liveRuns
  simp only [List.mem_append, List.mem_filterMap, List.mem_range, Option.mem_toList]
  cases h with
  | job hjob => exact .inl (.inl (.inl ⟨_, hx.jobs _ _ hjob, by rw [hjob]⟩))
  | waiting hmem => exact .inl (.inl (.inr hmem))
  | thread hrun => exact .inl (.inr hrun)
  | post hpost hfinal => exact .inr ⟨_, hx.posts _ _ hpost, by rw [hpost]; simp [hfinal]⟩

/-- `Settled`, decided. -/
def settled (s : System) : Event → Bool
  | .answer c =>
      match s.service.coroutines c with
      | .dispatching i _ => (s.service.tasks i).all fun task => (liveRuns s).all fun run =>
          decide (run.tripId ≠ task.tripId) || decide (run.attempt = i)
      | _ => true
  | _ => true

theorem settled_sound (hreached : SystemReached cfg s) (h : settled s e = true) : Settled s e := by
  rintro c i after task job rfl - hdispatching htask run hlive htrip
  simp only [settled, hdispatching, htask, Option.all_some, List.all_eq_true, Bool.or_eq_true,
    decide_eq_true_iff] at h
  exact (h run (mem_liveRuns (reached_sent hreached) hlive)).resolve_left (not_not.mpr htrip)

/-- A run that ends with a result, which the API takes and answers. -/
def completedRun (n c : Nat) : List Event :=
  [.start, .finish (.result emptyResult), .deliver n c, .api (.acquire c), .reply]

/-- Trip 7 is submitted again when its first run is over. -/
def secondAttempt : List Event :=
  [.loaded] ++ taken 0 0 ++ [.answer 0] ++ completedRun 0 1 ++ taken 2 1 ++ [.answer 2] ++
    completedRun 1 3

/-- Both attempts are decided, each by its own run. -/
theorem attributed_secondAttempt :
    ((played secondAttempt).decided 0).isSome = true ∧
      ((played secondAttempt).decided 1).isSome = true ∧ Attributed (played secondAttempt) := by
  have hpasses : passes (System.advance sampleSettings) settled .initial secondAttempt = true := by
    decide +kernel
  have hreached : Reachable SystemInitial (Guarded Settled (SystemStep sampleSettings))
      (played secondAttempt) :=
    reachable_passes (fun _ _ hs h => settled_sound hs h) System.initial_initial hpasses
  exact ⟨by decide +kernel, by decide +kernel, attributed_of_settled hreached⟩

end Yeodam.Jobs.Tasks
