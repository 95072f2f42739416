/-
How a claimed job ends (`execute` in `app/jobs/execution.py`, `supervise` in `app/jobs/runner.py`).

A child process runs the handler and stores what it made of the job. Where it cannot, because the
store refuses the result or the child is gone, the runner stores that the worker is dead. Between
any two of these steps other transactions may run, a cancellation among them.

`endings_exact`: if nobody else ends the job and neither its lease nor its time runs out, then its
record is terminal after the fallback, and its status is that of the handler's outcome.
-/

import Yeodam.Jobs.Recovery
import Yeodam.Jobs.Terminal

namespace Yeodam.Jobs

open Yeodam.Lib

/-! ### The child and its supervisor -/

/-- How a handler ends. -/
inductive HandlerOutcome where
  /-- It returns a value, or `None`. -/
  | returned (result : Option Value)
  /-- `PipelineCancelled` -/
  | canceled
  /-- Another `PipelineError`, whose fields make an error body or not. -/
  | failed (error : Option ErrorBody)
  /-- Any other `Exception`. -/
  | raised
  /-- The child ends without an answer. -/
  | exited

/-- The arguments of a `finish`. -/
structure FinishCall where
  status : TerminalStatus
  result : Option Value
  error : Option ErrorBody

def FinishCall.cancellation : FinishCall := ⟨.canceled, none, none⟩

def FinishCall.internalError : FinishCall :=
  ⟨.failed, none, some { code := .internalError, message := "작업 실행에 실패했습니다." }⟩

def workerDeadError : ErrorBody where
  code := .workerDead
  message := "실행 프로세스가 결과 저장 전에 종료되었습니다."

/-- What `execute` stores of an outcome, if the child lives to store it. -/
def HandlerOutcome.finishCall : HandlerOutcome → Option FinishCall
  | .returned result => some ⟨.completed, result, none⟩
  | .canceled => some .cancellation
  | .failed error => error.map fun error => ⟨.failed, none, some error⟩
  | .raised => some .internalError
  | .exited => none

/-- Where the child stands. -/
inductive ChildPhase where
  /-- Before it reads its job. -/
  | starting
  /-- Before `check_cancel`. -/
  | checking
  /-- In the handler. -/
  | running
  /-- At `store.finish`. -/
  | finishing (call : FinishCall)
  /-- The child has ended, and the supervisor has not yet stored that it did. -/
  | exited
  | done

structure ChildRun where
  world : World
  phase : ChildPhase
  /-- How the handler ended, once it did. -/
  outcome : Option HandlerOutcome

section

variable (env : Env) (i owner : String)

/-- After `execute` has read the job. An exception there ends the child. -/
def afterStart (now : Time) (s : Store) : ChildPhase :=
  match get env i s with
  | .ok (some r) => if owns env r owner now then .checking else .exited
  | _ => .exited

/-- After `reporter.check_cancel()`. -/
def afterCheck (now : Time) (s : Store) : ChildPhase :=
  match get env i s with
  | .error _ => .finishing .internalError
  | .ok none => .finishing .cancellation
  | .ok (some r) =>
      if r.cancelRequested || !owns env r owner now then .finishing .cancellation else .running

def afterHandler (outcome : HandlerOutcome) : ChildPhase :=
  match outcome.finishCall with
  | some call => .finishing call
  | none => .exited

/-- After `store.finish`. An exception that it raises for a result is handled like one of the
handler; one that it raises for an ending without a result ends the child. -/
def afterFinish (call : FinishCall) (now : Time) (s : Store) : ChildPhase :=
  match finish env i owner call.status call.result call.error now s with
  | .ok _ => .exited
  | .error _ => if call.status = .completed then .finishing .internalError else .exited

def FinishCall.op (call : FinishCall) : Op := .finish i owner call.status call.result call.error

/-- The fallback of `supervise`. -/
def fallbackCall : FinishCall := ⟨.failed, none, some workerDeadError⟩

inductive ChildMove where
  /-- A transaction of anyone. -/
  | other (e : Event)
  | start (now : Time)
  | check (now : Time)
  | answer (outcome : HandlerOutcome)
  /-- The child ends before it stored anything. -/
  | kill
  | finish (now : Time)
  | fallback (now : Time)

/-- One step of the job: of its child, of its supervisor or of anyone else. -/
inductive ChildStep : ChildRun → ChildMove → ChildRun → Prop where
  | other {x : ChildRun} {e : Event} {w : World} :
      Step env x.world e w → ChildStep x (.other e) { x with world := w }
  | start {x : ChildRun} {now : Time} :
      x.phase = .starting → x.world.clock ≤ now →
      ChildStep x (.start now) { x with phase := afterStart env i owner now x.world.store }
  | check {x : ChildRun} {now : Time} :
      x.phase = .checking → x.world.clock ≤ now →
      ChildStep x (.check now) { x with phase := afterCheck env i owner now x.world.store }
  | answer {x : ChildRun} {outcome : HandlerOutcome} :
      x.phase = .running →
      ChildStep x (.answer outcome)
        { x with phase := afterHandler outcome, outcome := some outcome }
  | kill {x : ChildRun} :
      x.phase ≠ .exited → x.phase ≠ .done →
      ChildStep x .kill { x with phase := .exited, outcome := some .exited }
  | finish {x : ChildRun} {call : FinishCall} {now : Time} :
      x.phase = .finishing call → x.world.clock ≤ now →
      ChildStep x (.finish now)
        { x with
          world := x.world.next env ⟨now, call.op i owner⟩
          phase := afterFinish env i owner call now x.world.store }
  | fallback {x : ChildRun} {now : Time} :
      x.phase = .exited → x.world.clock ≤ now →
      ChildStep x (.fallback now)
        { x with world := x.world.next env ⟨now, fallbackCall.op i owner⟩, phase := .done }

/-- The job is held by its owner, and neither its lease nor its time has run out. -/
def Held (w : World) (now : Time) : Prop :=
  ∃ raw r, w.store.jobs i = some raw ∧ raw.load env = .ok r ∧ owns env r owner now = true

/-- Neither the lease nor the time of a job that is held runs out, and nobody else ends it. -/
def Undisturbed (x : ChildRun) : ChildMove → Prop
  | .other e => Held env i owner x.world x.world.clock →
      Held env i owner (x.world.next env e) e.time
  | .start now | .check now | .finish now | .fallback now =>
      Held env i owner x.world x.world.clock → Held env i owner x.world now
  | .answer _ | .kill => True

end

/-! ### What an ending is to be -/

/-- The value is a result of the job's kind, and its event is within the limit. -/
def JobRecord.Accepts (env : Env) (r : JobRecord) (v : Value) : Prop :=
  ∃ rendered, renderResult env.libraries r.kind.eventType v = some rendered ∧
    rendered.finite = true ∧ rendered.encodable = true ∧
    (r.completed rendered).byteSize ≤ resultMaxBytes

/-- The record of a job that ended with this outcome. -/
structure JobRecord.EndedWith (env : Env) (outcome : Option HandlerOutcome) (r : JobRecord) :
    Prop where
  terminal : r.status.terminal = true
  completed : r.status = .completed → r.cancelRequested = false ∧
    ∃ v, outcome = some (.returned (some v)) ∧ r.Accepts env v
  canceled : r.status = .canceled ↔ r.cancelRequested = true ∨ outcome = some .canceled

variable {env : Env} {i owner : String} {now : Time} {op : Op} {raw r r' record stored : JobRecord}
  {x y : ChildRun} {s : Store}

/-! ### The record under other transactions -/

theorem terminate_cancelRequested {status : TerminalStatus} {result : Option Value}
    {error : Option ErrorBody} (h : terminate env r status result error = .ok r') :
    r'.cancelRequested = r.cancelRequested := by
  obtain ⟨_, e, -, -, rfl⟩ := terminate_cases h
  rfl

theorem Edit.cancelRequested {queueScore : Option Time} (h : Edit env now op r r' queueScore)
    (hflag : r.cancelRequested = true) : r'.cancelRequested = true := by
  cases h with
  | renew | report | giveBack | leaseResult => exact hflag
  | flag => rfl
  | finish _ _ hterm => rw [terminate_cancelRequested hterm, hflag]
  | stop _ _ _ hterm => rw [terminate_cancelRequested hterm, hflag]
  | cancelQueued _ hterm => rw [terminate_cancelRequested hterm]
  | recover _ _ hterm => rw [terminate_cancelRequested hterm, hflag]

/-- A cancellation is never taken back. -/
theorem RecordStep.cancelRequested (h : RecordStep env now i op (some raw) (some stored))
    (hflag : raw.cancelRequested = true) : stored.cancelRequested = true := by
  cases h with
  | keep => exact hflag
  | started hload _ hdump =>
      rw [JobRecord.cancelRequested_eq_of_core (JobRecord.dump_core hdump)]
      rw [← JobRecord.cancelRequested_eq_of_core (JobRecord.load_core hload)] at hflag
      exact hflag
  | edited _ hload hedit hdump =>
      rw [JobRecord.cancelRequested_eq_of_core (JobRecord.dump_core hdump)]
      rw [← JobRecord.cancelRequested_eq_of_core (JobRecord.load_core hload)] at hflag
      exact hedit.cancelRequested hflag
  | acknowledged hload _ hdump =>
      rw [JobRecord.cancelRequested_eq_of_core (JobRecord.dump_core hdump)]
      rw [← JobRecord.cancelRequested_eq_of_core (JobRecord.load_core hload)] at hflag
      exact hflag

/-- The end of a job and its cancellation stay as they are. -/
theorem RecordStep.end_eq (h : RecordStep env now i op (some raw) (some stored))
    (hterm : raw.status.terminal = true) :
    stored.status = raw.status ∧ stored.cancelRequested = raw.cancelRequested := by
  have key : ∀ {record leased : JobRecord}, raw.load env = .ok record →
      leased.dump env = .ok stored →
      leased.status = record.status → leased.cancelRequested = record.cancelRequested →
      stored.status = raw.status ∧ stored.cancelRequested = raw.cancelRequested := by
    intro record leased hload hdump hstatus hflag
    have hl := JobRecord.load_core hload
    have hd := JobRecord.dump_core hdump
    exact ⟨((JobRecord.status_eq_of_core hd).trans hstatus).trans (JobRecord.status_eq_of_core hl),
      ((JobRecord.cancelRequested_eq_of_core hd).trans hflag).trans
        (JobRecord.cancelRequested_eq_of_core hl)⟩
  rcases h.of_terminal hterm with rfl | ⟨p, until_, record, -, hload, -, hdump⟩ |
    ⟨p, record, -, hload, -, hdump⟩
  · exact ⟨rfl, rfl⟩
  · exact key hload hdump rfl rfl
  · exact key hload hdump rfl rfl

theorem JobRecord.SameExecution.completed_eq (h : r.SameExecution r') (v : Value) :
    r'.completed v = r.completed v := by
  unfold JobRecord.completed
  rw [h.kind, h.tripId, h.executionId]

theorem JobRecord.EndedWith.step {outcome : Option HandlerOutcome} (h : raw.EndedWith env outcome)
    (hstep : RecordStep env now i op (some raw) (some stored)) : stored.EndedWith env outcome := by
  obtain ⟨hstatus, hflag⟩ := hstep.end_eq h.terminal
  obtain ⟨_, ⟨⟩, hsame⟩ := hstep.sameExecution
  refine ⟨hstatus ▸ h.terminal, fun hs => ?_, ?_⟩
  · obtain ⟨hno, v, hv, rendered, hrender, hfinite, hencodable, hsize⟩ := h.completed (hstatus ▸ hs)
    refine ⟨hflag ▸ hno, v, hv, rendered, hsame.kind ▸ hrender, hfinite, hencodable, ?_⟩
    rw [hsame.completed_eq]
    exact hsize
  · rw [hstatus, hflag]
    exact h.canceled

theorem JobRecord.EndedWith.of_core {outcome : Option HandlerOutcome} (h : r.EndedWith env outcome)
    (hcore : r'.core = r.core) : r'.EndedWith env outcome := by
  have hstatus := JobRecord.status_eq_of_core hcore
  have hflag := JobRecord.cancelRequested_eq_of_core hcore
  have hsame := JobRecord.SameExecution.of_core hcore
  refine ⟨hstatus ▸ h.terminal, fun hs => ?_, by rw [hstatus, hflag]; exact h.canceled⟩
  obtain ⟨hno, v, hv, rendered, hrender, hfinite, hencodable, hsize⟩ := h.completed (hstatus ▸ hs)
  refine ⟨hflag.trans hno, v, hv, rendered, hsame.kind ▸ hrender, hfinite, hencodable, ?_⟩
  rw [hsame.completed_eq]
  exact hsize

/-! ### What `finish` stores -/

section

variable {w : World} {call : FinishCall} {outcome : Option HandlerOutcome} {error : JobError}
  {reply : Option JobRecord}

/-- How `finish` ends a record of its owner. -/
def FinishCall.ending (env : Env) (call : FinishCall) (r : JobRecord) : Except JobError JobRecord :=
  if r.cancelRequested then terminate env r .canceled none none
  else terminate env r call.status call.result call.error

theorem Held.get (hreached : Reached env w) (h : Held env i owner w now) :
    ∃ r, w.store.jobs i = some r ∧ r.load env = .ok r ∧ owns env r owner now = true ∧
      r.nesting ≤ env.readNesting := by
  obtain ⟨raw, r, hraw, hload, howns⟩ := h
  have hlive : raw.status.terminal = false := by
    rw [← JobRecord.status_eq_of_core (JobRecord.load_core hload), (owns_iff.mp howns).1]
    rfl
  obtain ⟨rfl, hnesting⟩ := JobRecord.load_of_live (reached_outcome hreached hraw) hlive hload
  exact ⟨r, hraw, hload, howns, hnesting⟩

theorem finish_eq_of_owns (hraw : s.jobs i = some r) (hload : r.load env = .ok r)
    (howns : owns env r owner now = true) :
    finish env i owner call.status call.result call.error now s = (do
      let changed ← call.ending env r
      let s' ← writeChange env i r.status.terminal changed none now s
      .ok (some changed, s')) := by
  have hupdate : finishUpdate env owner call.status call.result call.error r now =
      (call.ending env r).map some := by
    unfold finishUpdate FinishCall.ending
    rw [if_pos howns]
    split <;> rfl
  simp only [finish, change, hraw, hload, except_ok_bind, hupdate]
  cases call.ending env r <;> rfl

theorem ending_terminal (h : call.ending env r = .ok r') : r'.status.terminal = true := by
  unfold FinishCall.ending at h
  split at h
  all_goals
    obtain ⟨_, e, -, -, rfl⟩ := terminate_cases h
    exact e.status.terminal_toTaskStatus

/-- A `finish` of the owner that succeeds stores the ended record. -/
theorem ended_of_finish (hraw : s.jobs i = some r) (hload : r.load env = .ok r)
    (howns : owns env r owner now = true) {s' : Store}
    (h : finish env i owner call.status call.result call.error now s = .ok (reply, s')) :
    ∃ ended stored, call.ending env r = .ok ended ∧ ended.dump env = .ok stored ∧
      s'.jobs i = some stored := by
  rw [finish_eq_of_owns hraw hload howns] at h
  obtain ⟨ended, hended, h⟩ := except_bind_eq_ok.mp h
  obtain ⟨_, hwrite, h⟩ := except_bind_eq_ok.mp h
  cases h
  obtain ⟨stored, hdump, hjobs⟩ := jobs_writeChange hwrite
  refine ⟨ended, stored, hended, hdump, ?_⟩
  rw [hjobs]
  exact jobs_setJob_self

/-- One fails only for the record it would store. -/
theorem finish_ne_error {ended stored : JobRecord} (hraw : s.jobs i = some r)
    (hload : r.load env = .ok r) (howns : owns env r owner now = true)
    (hended : call.ending env r = .ok ended) (hdump : ended.dump env = .ok stored) :
    finish env i owner call.status call.result call.error now s ≠ .error error := by
  intro h
  have hterm := ending_terminal hended
  obtain ⟨s', hwrite⟩ : ∃ s', writeChange env i r.status.terminal ended none now s = .ok s' := by
    unfold writeChange
    rw [hdump, except_ok_bind]
    cases hs : ended.status with
    | completed | failed | canceled => exact ⟨_, rfl⟩
    | queued | processing =>
        rw [hs] at hterm
        cases hterm
  rw [finish_eq_of_owns hraw hload howns, hended, except_ok_bind, hwrite] at h
  cases h

/-- An ending without a result is stored. -/
theorem finish_notice (call : FinishCall) (hreached : Reached env w) (h : Held env i owner w now)
    (hresult : call.result = none) (hcompleted : call.status ≠ .completed)
    (hfailed : call.status = .failed ↔ call.error.isSome = true)
    (herror : ∀ b ∈ call.error, b.Small) :
    finish env i owner call.status call.result call.error now w.store ≠ .error error := by
  obtain ⟨r, hraw, hload, howns, hnesting⟩ := h.get hreached
  have hbounded := reached_bounded hreached hraw
  have hrequest : r.request.nesting + 1 ≤ env.writeNesting := by
    have hwrite := env.nesting_lt
    unfold JobRecord.nesting at hnesting
    omega
  have henc : r.request.encodable = true := by
    have htext := (reached_written hreached hraw).encodable
    rw [JobRecord.encodable, Bool.and_eq_true] at htext
    exact htext.1
  by_cases hflag : r.cancelRequested = true
  · have hended : call.ending env r = .ok (r.noticed .canceled none) := by
      rw [FinishCall.ending, if_pos hflag]
      exact terminate_notice hbounded (by decide) (by simp) (by simp)
    exact finish_ne_error hraw hload howns hended (dump_noticed _ hrequest henc (by simp))
  · have hended : call.ending env r = .ok (r.noticed call.status call.error) := by
      rw [FinishCall.ending, if_neg hflag, hresult]
      exact terminate_notice hbounded hcompleted hfailed herror
    exact finish_ne_error hraw hload howns hended (dump_noticed _ hrequest henc herror)

theorem small_workerDeadError : workerDeadError.Small := ⟨by decide, by decide, by decide⟩

theorem finish_cancellation (hreached : Reached env w) (h : Held env i owner w now) :
    finish env i owner .canceled none none now w.store ≠ .error error :=
  finish_notice .cancellation hreached h rfl (by decide) (by decide) (by
    simp [FinishCall.cancellation])

theorem finish_fallback (hreached : Reached env w) (h : Held env i owner w now) :
    finish env i owner .failed none (some workerDeadError) now w.store ≠ .error error := by
  apply finish_notice fallbackCall hreached h rfl (by decide) (by decide)
  rintro b ⟨⟩
  exact small_workerDeadError

/-- The call is one `execute` makes of the outcome, or the fallback. -/
structure FinishCall.Fits (call : FinishCall) (outcome : Option HandlerOutcome) (flag : Bool) :
    Prop where
  completed : call.status = .completed → outcome = some (.returned call.result)
  canceled : call.status = .canceled → outcome = some .canceled ∨ flag = true
  cancellation : outcome = some .canceled → call = .cancellation

/-- **The record a fitting `finish` stores has ended with the outcome.** -/
theorem endedWith_of_ending (hbounded : r.Bounded) (hfits : call.Fits outcome r.cancelRequested)
    (h : call.ending env r = .ok r') : r'.EndedWith env outcome := by
  have hterm := ending_terminal h
  unfold FinishCall.ending at h
  split at h
  · rename_i hflag
    obtain ⟨hstatus, hsame⟩ := terminate_canceled hbounded h
    refine ⟨hterm, fun hs => ?_, fun _ => .inl (hsame.trans hflag), fun _ => hstatus⟩
    rw [hstatus] at hs
    cases hs
  rename_i hflag
  have hsame := terminate_cancelRequested h
  by_cases hcanceled : outcome = some .canceled
  · rw [hfits.cancellation hcanceled] at h
    have hstatus := (terminate_canceled hbounded h).1
    refine ⟨hterm, fun hs => ?_, fun _ => .inr hcanceled, fun _ => hstatus⟩
    rw [hstatus] at hs
    cases hs
  have hno : ¬ call.status = .canceled := fun hs => (hfits.canceled hs).elim hcanceled hflag
  have hclear : r.cancelRequested = false := Bool.not_eq_true _ ▸ hflag
  have hiff : r'.status ≠ .canceled → (r'.status = .canceled ↔
      r'.cancelRequested = true ∨ outcome = some .canceled) := by
    intro hs
    rw [hsame, hclear]
    simp [hs, hcanceled]
  obtain ⟨built, e, hbuilt, he, rfl⟩ := terminate_cases h
  obtain ⟨hcompleted, hfailed, hresult⟩ := JobResultEvent.checkPayload_cases hbuilt
  rcases JobResultEvent.enforceSizeLimit_cases he with ⟨rfl, hsize⟩ | ⟨rfl, -, -⟩
  · have hstatus : e.status = call.status := by
      rcases hresult with ⟨-, rfl⟩ | ⟨_, _, -, -, -, -, rfl⟩ <;> rfl
    refine ⟨hterm, fun hs => ⟨hsame.trans hclear, ?_⟩, hiff fun hs => hno ?_⟩
    · have hdone : call.status = .completed := by
        rw [← hstatus]
        exact TerminalStatus.toTaskStatus_injective hs
      have hout := hfits.completed hdone
      rcases hresult with ⟨hnone, -⟩ | ⟨v, rendered, hv, hrender, hfinite, henc, rfl⟩
      · have hnone : call.result = none := hnone
        simp [hnone, hdone] at hcompleted
      · have hv : call.result = some v := hv
        have herror : call.error = none := by simpa [hdone] using hfailed
        refine ⟨v, hv ▸ hout, rendered, hrender, hfinite, henc, ?_⟩
        rw [herror, hdone] at hsize
        exact hsize
    · rw [← hstatus]
      exact TerminalStatus.toTaskStatus_injective hs
  · exact ⟨hterm, (fun hs => nomatch hs), hiff fun hs => nomatch hs⟩

/-! ### Runs -/

/-- Its record has ended with its outcome. -/
def Over (env : Env) (i : String) (x : ChildRun) : Prop :=
  ∃ r, x.world.store.jobs i = some r ∧ r.EndedWith env x.outcome

/-- What the record and the outcome are in each phase. -/
def PhaseSound (env : Env) (i owner : String) (x : ChildRun) : ChildPhase → Prop
  | .starting | .checking | .running =>
      Held env i owner x.world x.world.clock ∧ x.outcome = none
  | .finishing call => Held env i owner x.world x.world.clock ∧
      ∃ r, x.world.store.jobs i = some r ∧ call.Fits x.outcome r.cancelRequested
  | .exited => Held env i owner x.world x.world.clock ∧ x.outcome ≠ some .canceled ∨ Over env i x
  | .done => Over env i x

structure Sound (env : Env) (i owner : String) (x : ChildRun) : Prop where
  reached : Reached env x.world
  phase : PhaseSound env i owner x x.phase

theorem afterStart_of_held (hreached : Reached env w) (h : Held env i owner w now) :
    afterStart env i owner now w.store = .checking := by
  obtain ⟨r, hraw, hload, howns, -⟩ := h.get hreached
  have hget : get env i w.store = .ok (some r) := by
    unfold Jobs.get
    simp only [hraw, hload]
    rfl
  simp [afterStart, hget, howns]

/-- With the job held, only a cancellation of it ends the check early. -/
theorem afterCheck_of_held (hreached : Reached env w) (h : Held env i owner w now) :
    ∃ r, w.store.jobs i = some r ∧ afterCheck env i owner now w.store =
      if r.cancelRequested then .finishing .cancellation else .running := by
  obtain ⟨r, hraw, hload, howns, -⟩ := h.get hreached
  have hget : get env i w.store = .ok (some r) := by
    unfold Jobs.get
    simp only [hraw, hload]
    rfl
  exact ⟨r, hraw, by simp [afterCheck, hget, howns]⟩

/-- What the handler's answer is stored as fits it. -/
theorem finishCall_fits {answer : HandlerOutcome} {flag : Bool}
    (h : answer.finishCall = some call) :
    call.Fits (some answer) flag := by
  cases answer with
  | returned result =>
      cases h
      exact ⟨fun _ => rfl, (fun hs => nomatch hs), fun hs => nomatch hs⟩
  | canceled =>
      cases h
      exact ⟨(fun hs => nomatch hs), fun _ => .inl rfl, fun _ => rfl⟩
  | failed error =>
      obtain ⟨_, -, rfl⟩ := Option.map_eq_some_iff.mp h
      exact ⟨(fun hs => nomatch hs), (fun hs => nomatch hs), fun hs => nomatch hs⟩
  | raised =>
      cases h
      exact ⟨(fun hs => nomatch hs), (fun hs => nomatch hs), fun hs => nomatch hs⟩
  | exited => cases h

theorem fallback_fits {flag : Bool} (h : outcome ≠ some .canceled) :
    fallbackCall.Fits outcome flag :=
  ⟨(fun hs => nomatch hs), (fun hs => nomatch hs), fun hs => (h hs).elim⟩

/-- Another transaction takes no cancellation back. -/
theorem FinishCall.Fits.step (h : call.Fits outcome raw.cancelRequested)
    (hstep : RecordStep env now i op (some raw) (some stored)) :
    call.Fits outcome stored.cancelRequested :=
  ⟨h.completed, fun hs => (h.canceled hs).imp id hstep.cancelRequested, h.cancellation⟩

theorem after_finish {s' : Store}
    (h : finish env i owner call.status call.result call.error now s = .ok (reply, s')) :
    after env now (call.op i owner) s = s' := by
  simp only [after, perform, FinishCall.op, h]
  rfl

theorem after_finish_error
    (h : finish env i owner call.status call.result call.error now s = .error error) :
    after env now (call.op i owner) s = s := by
  simp only [after, perform, FinishCall.op, h]
  rfl

theorem Over.step {e : Event} (h : Over env i x) (hstep : Step env x.world e w) :
    Over env i { x with world := w } := by
  obtain ⟨r, hr, hended⟩ := h
  have hrec := recordStep_of_step hstep i
  rw [hr] at hrec
  obtain ⟨stored, hstored, -⟩ := hrec.sameExecution
  rw [hstored] at hrec
  exact ⟨stored, hstored, hended.step hrec⟩

/-- A `finish` that succeeds ends the job as its outcome asks. -/
theorem over_of_finish {phase : ChildPhase} {s' : Store} (hreached : Reached env x.world)
    (hheld : Held env i owner x.world now)
    (hfits : ∃ r, x.world.store.jobs i = some r ∧ call.Fits x.outcome r.cancelRequested)
    (h : finish env i owner call.status call.result call.error now x.world.store =
      .ok (reply, s')) :
    Over env i { x with world := x.world.next env ⟨now, call.op i owner⟩, phase := phase } := by
  obtain ⟨r, hraw, hload, howns, -⟩ := hheld.get hreached
  obtain ⟨r', hraw', hfits⟩ := hfits
  obtain rfl : r = r' := Option.some.inj (hraw.symm.trans hraw')
  obtain ⟨ended, stored, hended, hdump, hstored⟩ := ended_of_finish hraw hload howns h
  refine ⟨stored, ?_, ?_⟩
  · dsimp only [World.next]
    rw [after_finish h]
    exact hstored
  · exact (endedWith_of_ending (reached_bounded hreached hraw) hfits hended).of_core
      (JobRecord.dump_core hdump)

/-- Whatever others do leaves the phase as it is. -/
theorem PhaseSound.other {e : Event} {phase : ChildPhase} (h : PhaseSound env i owner x phase)
    (hcond : Undisturbed env i owner x (.other e)) (hstep : Step env x.world e w) :
    PhaseSound env i owner { x with world := w } phase := by
  have hheld : Held env i owner x.world x.world.clock → Held env i owner w w.clock := by
    intro hheld
    rw [hstep.2]
    exact hcond hheld
  cases phase with
  | starting | checking | running => exact ⟨hheld h.1, h.2⟩
  | finishing call =>
      obtain ⟨h, r, hr, hfits⟩ := h
      have hrec := recordStep_of_step hstep i
      rw [hr] at hrec
      obtain ⟨stored, hstored, -⟩ := hrec.sameExecution
      rw [hstored] at hrec
      exact ⟨hheld h, stored, hstored, hfits.step hrec⟩
  | exited =>
      rcases h with ⟨h, hout⟩ | h
      · exact .inl ⟨hheld h, hout⟩
      · exact .inr (h.step hstep)
  | done => exact h.step hstep

theorem PhaseSound.held {phase : ChildPhase} (h : PhaseSound env i owner x phase)
    (hexited : phase ≠ .exited) (hdone : phase ≠ .done) :
    Held env i owner x.world x.world.clock := by
  cases phase with
  | starting | checking | running | finishing => exact h.1
  | exited => cases hexited rfl
  | done => cases hdone rfl

/-- **Step lemma.** One case for each move. -/
theorem Sound.step {m : ChildMove} (h : Sound env i owner x) (hcond : Undisturbed env i owner x m)
    (hstep : ChildStep env i owner x m y) : Sound env i owner y := by
  obtain ⟨hreached, hphase⟩ := h
  cases hstep with
  | other hworld => exact ⟨hreached.next hworld, hphase.other hcond hworld⟩
  | start hat _ =>
      rw [hat] at hphase
      obtain ⟨hheld, hnone⟩ := hphase
      refine ⟨hreached, ?_⟩
      dsimp only
      rw [afterStart_of_held hreached (hcond hheld)]
      exact ⟨hheld, hnone⟩
  | check hat _ =>
      rw [hat] at hphase
      obtain ⟨hheld, hnone⟩ := hphase
      obtain ⟨r, hr, hafter⟩ := afterCheck_of_held hreached (hcond hheld)
      refine ⟨hreached, ?_⟩
      dsimp only
      rw [hafter]
      by_cases hflag : r.cancelRequested = true
      · rw [if_pos hflag]
        exact ⟨hheld, r, hr, (fun hs => nomatch hs), fun _ => .inr hflag,
          fun hout => nomatch hnone.symm.trans hout⟩
      · rw [if_neg hflag]
        exact ⟨hheld, hnone⟩
  | @answer outcome hat =>
      rw [hat] at hphase
      obtain ⟨hheld, -⟩ := hphase
      obtain ⟨r, hr, -⟩ := hheld.get hreached
      refine ⟨hreached, ?_⟩
      dsimp only [afterHandler]
      split
      · rename_i call hcall
        exact ⟨hheld, r, hr, finishCall_fits hcall⟩
      · rename_i hcall
        refine .inl ⟨hheld, ?_⟩
        rintro ⟨⟩
        cases hcall
  | kill hexited hdone =>
      exact ⟨hreached, .inl ⟨hphase.held hexited hdone, fun hs => nomatch hs⟩⟩
  | @finish call now hat hle =>
      rw [hat] at hphase
      obtain ⟨hheld, hfits⟩ := hphase
      refine ⟨hreached.next ⟨hle, rfl⟩, ?_⟩
      dsimp only [afterFinish]
      split
      · rename_i hfinish
        exact .inr (over_of_finish hreached (hcond hheld) hfits hfinish)
      · rename_i hfinish
        have hstore := after_finish_error hfinish
        obtain ⟨r, hr, hfits⟩ := hfits
        have hnow : Held env i owner (x.world.next env ⟨now, call.op i owner⟩) now := by
          dsimp only [Held, World.next]
          rw [hstore]
          exact hcond hheld
        split
        · rename_i hcompleted
          refine ⟨hnow, r, ?_, (fun hs => nomatch hs), (fun hs => nomatch hs), fun hout => ?_⟩
          · dsimp only [World.next]
            rw [hstore]
            exact hr
          · rw [hfits.cancellation hout] at hcompleted
            cases hcompleted
        · refine .inl ⟨hnow, fun hout => ?_⟩
          rw [hfits.cancellation hout] at hfinish
          exact finish_cancellation hreached (hcond hheld) hfinish
  | @fallback now hat hle =>
      rw [hat] at hphase
      refine ⟨hreached.next ⟨hle, rfl⟩, ?_⟩
      rcases hphase with ⟨hheld, hout⟩ | hover
      · obtain ⟨r, hr, -⟩ := hheld.get hreached
        cases hfinish : finish env i owner .failed none (some workerDeadError) now
          x.world.store with
        | error => exact (finish_fallback hreached (hcond hheld) hfinish).elim
        | ok =>
            exact over_of_finish hreached (hcond hheld)
              ⟨r, hr, fallback_fits hout⟩ hfinish
      · exact hover.step ⟨hle, rfl⟩

/-! ### The end is reached -/

/-- How many steps the child and its supervisor have left, at most. -/
def ChildPhase.rank : ChildPhase → Nat
  | .starting => 6
  | .checking => 5
  | .running => 4
  | .finishing call => if call.status = .completed then 3 else 2
  | .exited => 1
  | .done => 0

/-- A step of the child or of its supervisor. -/
def ChildMove.own : ChildMove → Bool
  | .other _ => false
  | _ => true

theorem rank_finishing :
    (ChildPhase.finishing call).rank = if call.status = .completed then 3 else 2 := rfl

theorem rank_finishing_le : (ChildPhase.finishing call).rank ≤ 3 := by
  rw [rank_finishing]
  split <;> omega

theorem lt_rank_finishing : 1 < (ChildPhase.finishing call).rank := by
  rw [rank_finishing]
  split <;> omega

theorem rank_afterCheck_le : (afterCheck env i owner now s).rank ≤ 4 := by
  unfold afterCheck
  split
  · exact rank_finishing_le.trans (by omega)
  · exact rank_finishing_le.trans (by omega)
  · split
    · exact rank_finishing_le.trans (by omega)
    · exact Nat.le_refl 4

theorem ChildStep.rank_lt {m : ChildMove} (h : ChildStep env i owner x m y) (hown : m.own = true) :
    y.phase.rank < x.phase.rank := by
  cases h with
  | other => cases hown
  | start hat =>
      rw [hat]
      dsimp only [afterStart]
      split
      · split <;> decide
      · decide
  | check hat =>
      rw [hat]
      exact Nat.lt_succ_of_le rank_afterCheck_le
  | answer hat =>
      rw [hat]
      dsimp only [afterHandler]
      split
      · exact Nat.lt_succ_of_le rank_finishing_le
      · decide
  | kill hexited hdone =>
      dsimp only
      generalize x.phase = phase at hexited hdone
      cases phase with
      | starting | checking | running => decide
      | finishing call => exact lt_rank_finishing
      | exited => cases hexited rfl
      | done => cases hdone rfl
  | @finish call now hat _ =>
      rw [hat]
      dsimp only [afterFinish]
      split
      · exact lt_rank_finishing
      · split
        · rename_i hcompleted
          rw [rank_finishing, rank_finishing, if_pos hcompleted]
          decide
        · exact lt_rank_finishing
  | fallback hat =>
      rw [hat]
      exact Nat.zero_lt_one

/-- Where the job is not over, its child or its supervisor can go on at once. -/
theorem exists_own_step (h : x.phase ≠ .done) :
    ∃ m y, m.own = true ∧
      Guarded (Undisturbed env i owner) (ChildStep env i owner) x m y := by
  cases hat : x.phase with
  | starting => exact ⟨_, _, rfl, id, .start hat le_rfl⟩
  | checking => exact ⟨_, _, rfl, id, .check hat le_rfl⟩
  | running => exact ⟨.answer .exited, _, rfl, trivial, .answer hat⟩
  | finishing call => exact ⟨_, _, rfl, id, .finish hat le_rfl⟩
  | exited => exact ⟨_, _, rfl, id, .fallback hat le_rfl⟩
  | done => exact (h hat).elim

theorem run_rank {ms : List ChildMove} (h : Run (ChildStep env i owner) x ms y) :
    (ms.filter ChildMove.own).length + y.phase.rank ≤ x.phase.rank := by
  induction h with
  | refl => simp
  | @cons _ _ _ m _ first _ ih =>
      by_cases hown : m.own = true
      · have hlt := first.rank_lt hown
        rw [List.filter_cons_of_pos hown, List.length_cons]
        omega
      · rw [List.filter_cons_of_neg hown]
        cases first with
        | other => exact ih
        | start | check | answer | kill | finish | fallback => exact (hown rfl).elim

/-- **Every claimed job is brought to its end.** Whatever its handler makes of it and whatever
runs in between: the child and its supervisor take at most six steps, they can always take the
next, and after the last the record has ended as the outcome asks. -/
theorem endings_exact {ms : List ChildMove} (hreached : Reached env x.world)
    (hstart : x.phase = .starting) (hnone : x.outcome = none)
    (hheld : Held env i owner x.world x.world.clock)
    (hrun : Run (Guarded (Undisturbed env i owner) (ChildStep env i owner)) x ms y) :
    (ms.filter ChildMove.own).length ≤ 6 ∧
    (y.phase ≠ .done → ∃ m z, m.own = true ∧
      Guarded (Undisturbed env i owner) (ChildStep env i owner) y m z) ∧
    (y.phase = .done → ∃ r, y.world.store.jobs i = some r ∧ r.EndedWith env y.outcome) := by
  refine ⟨?_, exists_own_step, fun hdone => ?_⟩
  · have hrank := run_rank hrun.of_guarded
    rw [hstart] at hrank
    exact (Nat.le_add_right _ _).trans hrank
  · have hx : Sound env i owner x := ⟨hreached, by rw [hstart]; exact ⟨hheld, hnone⟩⟩
    have hy := (hrun.preserves_of (fun _ _ _ h hcond hstep => h.step hcond hstep) hx).phase
    rw [hdone] at hy
    exact hy

end

/-! ### Two runs of a child -/

section

variable (env : Env) (i owner : String)

/-- `Held`, decided. -/
def holds (w : World) (now : Time) : Bool :=
  (w.store.jobs i).any fun raw =>
    match raw.load env with
    | .ok r => owns env r owner now
    | .error _ => false

/-- The step that a move makes, if it can be made. -/
def ChildRun.advance (x : ChildRun) (m : ChildMove) : Option ChildRun :=
  match m, x.phase with
  | .other e, _ =>
      if x.world.clock ≤ e.time then some { x with world := x.world.next env e } else none
  | .start now, .starting =>
      if x.world.clock ≤ now then
        some { x with phase := afterStart env i owner now x.world.store }
      else none
  | .check now, .checking =>
      if x.world.clock ≤ now then
        some { x with phase := afterCheck env i owner now x.world.store }
      else none
  | .answer outcome, .running =>
      some { x with phase := afterHandler outcome, outcome := some outcome }
  | .finish now, .finishing call =>
      if x.world.clock ≤ now then
        some { x with
          world := x.world.next env ⟨now, call.op i owner⟩
          phase := afterFinish env i owner call now x.world.store }
      else none
  | .fallback now, .exited =>
      if x.world.clock ≤ now then
        some { x with world := x.world.next env ⟨now, fallbackCall.op i owner⟩, phase := .done }
      else none
  | _, _ => none

/-- `Undisturbed`, decided. -/
def keepsHold (x : ChildRun) : ChildMove → Bool
  | .other e =>
      !holds env i owner x.world x.world.clock || holds env i owner (x.world.next env e) e.time
  | .start now | .check now | .finish now | .fallback now =>
      !holds env i owner x.world x.world.clock || holds env i owner x.world now
  | .answer _ | .kill => true

end

def ChildPhase.over : ChildPhase → Bool
  | .done => true
  | _ => false

theorem ChildPhase.over_iff {phase : ChildPhase} : phase.over = true ↔ phase = .done := by
  cases phase <;> simp [ChildPhase.over]

theorem holds_iff {w : World} : holds env i owner w now = true ↔ Held env i owner w now := by
  constructor
  · intro h
    obtain ⟨raw, hraw, howns⟩ := (Option.any_eq_true _ _).mp h
    cases hload : raw.load env with
    | ok r =>
        rw [hload] at howns
        exact ⟨raw, r, hraw, hload, howns⟩
    | error e =>
        rw [hload] at howns
        cases howns
  · rintro ⟨raw, r, hraw, hload, howns⟩
    rw [holds, hraw, Option.any_some, hload]
    exact howns

theorem undisturbed_of_keepsHold {m : ChildMove} (h : keepsHold env i owner x m = true) :
    Undisturbed env i owner x m := by
  have key : ∀ {w : World} {now : Time},
      (!holds env i owner x.world x.world.clock || holds env i owner w now) = true →
      Held env i owner x.world x.world.clock → Held env i owner w now := by
    intro w now hcheck hheld
    rw [holds_iff.mpr hheld, Bool.not_true, Bool.false_or] at hcheck
    exact holds_iff.mp hcheck
  cases m with
  | other | start | check | finish | fallback => exact key h
  | answer | kill => trivial

theorem childStep_of_advance {m : ChildMove} (h : x.advance env i owner m = some y) :
    ChildStep env i owner x m y := by
  unfold ChildRun.advance at h
  split at h
  · obtain ⟨htime, ⟨⟩⟩ := Option.ite_none_right_eq_some.mp h
    exact .other ⟨htime, rfl⟩
  · obtain ⟨htime, ⟨⟩⟩ := Option.ite_none_right_eq_some.mp h
    exact .start (by assumption) htime
  · obtain ⟨htime, ⟨⟩⟩ := Option.ite_none_right_eq_some.mp h
    exact .check (by assumption) htime
  · cases h
    exact .answer (by assumption)
  · obtain ⟨htime, ⟨⟩⟩ := Option.ite_none_right_eq_some.mp h
    exact .finish (by assumption) htime
  · obtain ⟨htime, ⟨⟩⟩ := Option.ite_none_right_eq_some.mp h
    exact .fallback (by assumption) htime
  · cases h

/-- The worker has claimed the process and starts a child for it. -/
def startedChild : ChildRun where
  world := replay sampleEnv ⟨0, .initial⟩
    [⟨1, .register sampleProcess⟩, ⟨2, .claim .process "worker:1" false⟩]
  phase := .starting
  outcome := none

/-- The handler of the child returns this. -/
def returnedResult : HandlerOutcome :=
  .returned (some (sampleResult "2024-05-01T10:00:00+09:00"))

/-- The handler returns a result while `between` happens, and the child stores it. -/
def returningMoves (between : List ChildMove) : List ChildMove :=
  [.start 2, .check 2, .answer returnedResult] ++ between ++ [.finish 4, .fallback 5]

/-- The child after it returned a result. -/
def returnedChild (between : List ChildMove) : ChildRun :=
  followed (ChildRun.advance sampleEnv processIdentity "worker:1") startedChild
    (returningMoves between)

theorem run_returnedChild (between : List ChildMove)
    (h : passes (ChildRun.advance sampleEnv processIdentity "worker:1")
      (keepsHold sampleEnv processIdentity "worker:1") startedChild
      (returningMoves between) = true) :
    ∃ ms, Run (Guarded (Undisturbed sampleEnv processIdentity "worker:1")
      (ChildStep sampleEnv processIdentity "worker:1")) startedChild ms
      (returnedChild between) := by
  have hreachable : Reachable (fun x => x = startedChild)
      (Guarded (Undisturbed sampleEnv processIdentity "worker:1")
        fun x move y => ChildRun.advance sampleEnv processIdentity "worker:1" x move = some y)
      (returnedChild between) :=
    reachable_passes (fun _ _ _ => undisturbed_of_keepsHold) rfl h
  obtain ⟨_, ms, rfl, hrun⟩ := hreachable
  exact ⟨ms, hrun.mono fun _ _ _ hstep => ⟨hstep.1, childStep_of_advance hstep.2⟩⟩

/-- The cancellation of the job, before its result is stored. -/
def cancelledMeanwhile : List ChildMove := [.other ⟨3, .cancel processIdentity⟩]

/-- A job whose result is returned is completed; one that is cancelled meanwhile is cancelled. -/
theorem endings_exact_returnedResult :
    (∃ r, (returnedChild []).world.store.jobs processIdentity = some r ∧ r.status = .completed ∧
      r.EndedWith sampleEnv (returnedChild []).outcome) ∧
    ∃ r, (returnedChild cancelledMeanwhile).world.store.jobs processIdentity = some r ∧
      r.status = .canceled ∧ r.EndedWith sampleEnv (returnedChild cancelledMeanwhile).outcome := by
  have hreached : Reached sampleEnv startedChild.world := reached_replay (by decide +kernel)
  have hheld :
      Held sampleEnv processIdentity "worker:1" startedChild.world startedChild.world.clock :=
    holds_iff.mp (by decide +kernel)
  obtain ⟨_, hreturned⟩ := run_returnedChild [] (by decide +kernel)
  obtain ⟨_, hcancelled⟩ := run_returnedChild cancelledMeanwhile (by decide +kernel)
  obtain ⟨r, hr, hended⟩ := (endings_exact hreached rfl rfl hheld hreturned).2.2
    (ChildPhase.over_iff.mp (by decide +kernel))
  obtain ⟨r', hr', hended'⟩ := (endings_exact hreached rfl rfl hheld hcancelled).2.2
    (ChildPhase.over_iff.mp (by decide +kernel))
  have hstatus : ((returnedChild []).world.store.jobs processIdentity).map JobRecord.status =
      some .completed := by decide +kernel
  have hstatus' : ((returnedChild cancelledMeanwhile).world.store.jobs processIdentity).map
      JobRecord.status = some .canceled := by decide +kernel
  rw [hr] at hstatus
  rw [hr'] at hstatus'
  exact ⟨⟨r, hr, Option.some.inj hstatus, hended⟩, r', hr', Option.some.inj hstatus', hended'⟩

end Yeodam.Jobs
