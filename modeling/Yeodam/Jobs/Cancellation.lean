/-
Cancellation: what a successful `cancel` decides.

A cancel of a running job only records the request; the owner's `finish` and
`return_unstarted` honour it later. `recover` does not: a cancelled job whose owner is
late ends as FAILED (`not_decided_of_overridden`). Every other step keeps the decision,
so a run without such a recovery ends the job as CANCELED and publishes nothing else.
-/

import Yeodam.Jobs.Publication

namespace Yeodam.Jobs

open Yeodam.Lib

section

variable {env : Env} {now : Time} {op : Op} {i : String} {r r' raw record stored : JobRecord}
  {s s' : Store} {x y z : Exchange} {a : Action} {as : List Action}

/-! ### The decision in the record -/

/-- The request is recorded, and no other end has come before it. -/
structure JobRecord.Cancelled (r : JobRecord) : Prop where
  requested : r.cancelRequested = true
  ended : r.status.terminal = true → r.status = .canceled

/-- The job's time or the owner's lease is over. -/
def late (env : Env) (r : JobRecord) (now : Time) : Bool := timedOut env r now || dead env r now

theorem JobRecord.cancelRequested_eq_of_core (h : r.core = r'.core) :
    r.cancelRequested = r'.cancelRequested :=
  (congrArg JobRecord.cancelRequested h : r.core.cancelRequested = r'.core.cancelRequested)

theorem JobRecord.Cancelled.of_core (h : r.Cancelled) (hcore : r'.core = r.core) :
    r'.Cancelled := by
  have hstatus := JobRecord.status_eq_of_core hcore
  exact ⟨(cancelRequested_eq_of_core hcore).trans h.requested, by rw [hstatus]; exact h.ended⟩

/-- The event of a cancellation is never too large. -/
theorem terminate_canceled (hr : r.Bounded) (h : terminate env r .canceled none none = .ok r') :
    r'.status = .canceled ∧ r'.cancelRequested = r.cancelRequested := by
  rw [terminate_notice hr (by decide) (by simp) (by simp)] at h
  cases h
  exact ⟨rfl, rfl⟩

theorem Edit.cancelled {queueScore : Option Time} (h : Edit env now op r r' queueScore)
    (hr : r.Cancelled) (hbounded : r.Bounded)
    (hhonoured : ∀ i, op = .recover i → late env r now = false) : r'.Cancelled := by
  have hno : ∀ {P : Prop}, r.cancelRequested = false → P := by
    intro P hfalse
    rw [hr.requested] at hfalse
    cases hfalse
  cases h with
  | renew => exact ⟨hr.requested, hr.ended⟩
  | report _ hfalse | finish _ hfalse | giveBack _ hfalse => exact hno hfalse
  | stop _ _ _ hterm =>
      obtain ⟨hs, hc⟩ := terminate_canceled hbounded hterm
      exact ⟨hc.trans hr.requested, fun _ => hs⟩
  | flag => exact ⟨rfl, hr.ended⟩
  | cancelQueued _ hterm =>
      obtain ⟨hs, hc⟩ := terminate_canceled hbounded.request hterm
      exact ⟨hc, fun _ => hs⟩
  | recover _ hlate =>
      rw [show late env r now = true from hlate] at hhonoured
      cases hhonoured _ rfl
  | leaseResult => exact ⟨hr.requested, hr.ended⟩

/-- **Step lemma.** Every step keeps the decision, but for a recovery that is due. -/
theorem RecordStep.cancelled (h : RecordStep env now i op (some raw) (some stored))
    (hraw : raw.Cancelled) (hbounded : raw.Bounded)
    (hhonoured : op = .recover i → ∀ record, raw.load env = .ok record →
      record.status = .processing → late env record now = false) : stored.Cancelled := by
  cases h with
  | keep => exact hraw
  | @started _ owner _ _ record _ hload hs hdump =>
      have hrecord := hraw.of_core (JobRecord.load_core hload)
      have hstart : (record.start owner now).Cancelled := ⟨hrecord.requested, fun h => nomatch h⟩
      exact hstart.of_core (JobRecord.dump_core hdump)
  | @edited _ _ record _ _ _ htarget hload hedit hdump =>
      have hrecord := hraw.of_core (JobRecord.load_core hload)
      have hb := hbounded.of_core (JobRecord.load_core hload)
      refine JobRecord.Cancelled.of_core (hedit.cancelled hrecord hb ?_) (JobRecord.dump_core hdump)
      rintro j rfl
      cases htarget
      cases hedit with
      | recover hs _ _ => exact hhonoured rfl record hload hs
      | stop hcaller => cases hcaller
  | @acknowledged _ _ record _ hload _ hdump =>
      have hrecord := hraw.of_core (JobRecord.load_core hload)
      have hpublished : JobRecord.Cancelled { record with published := true } :=
        ⟨hrecord.requested, hrecord.ended⟩
      exact hpublished.of_core (JobRecord.dump_core hdump)

/-! ### A recovery that is due -/

/-- The error of a recovery. -/
def recoveryError (code : ErrorCode) : ErrorBody :=
  { code := code, message := "실행이 중단되었습니다." }

theorem small_recoveryError (code : ErrorCode) : (recoveryError code).Small := by
  cases code <;> exact ⟨by decide, by decide, by decide⟩

/-- The code a recovery at `now` gives. -/
def recoveryCode (env : Env) (r : JobRecord) (now : Time) : ErrorCode :=
  if timedOut env r now then .timeout else .workerDead

/-- The record as a recovery leaves it. -/
def JobRecord.recovered (env : Env) (r : JobRecord) (now : Time) : JobRecord :=
  r.noticed .failed (some (recoveryError (recoveryCode env r now)))

/-- What `recover` does to a running job that is late, whether or not it was cancelled. -/
theorem recoverOne_late (hraw : s.jobs i = some raw) (hload : raw.load env = .ok raw)
    (hnesting : raw.nesting ≤ env.readNesting) (hwritten : raw.Written env) (hbounded : raw.Bounded)
    (hs : raw.status = .processing) (hlate : late env raw now = true) :
    recoverOne env i now s = .ok (some (raw.recovered env now),
      ((s.setJob i (raw.recovered env now).wire).observeTerminal
        (raw.recovered env now) now).close i (raw.recovered env now) now) := by
  have hrequest : raw.request.nesting + 1 ≤ env.writeNesting := by
    have hwrite := env.nesting_lt
    unfold JobRecord.nesting at hnesting
    omega
  have henc : raw.request.encodable = true := by
    have htext := hwritten.encodable
    rw [JobRecord.encodable, Bool.and_eq_true] at htext
    exact htext.1
  have hsmall : ∀ b ∈ some (recoveryError (recoveryCode env raw now)), b.Small := by
    rintro b ⟨⟩
    exact small_recoveryError _
  have hterm : terminate env raw .failed none (some (recoveryError (recoveryCode env raw now))) =
      .ok (raw.recovered env now) :=
    terminate_notice hbounded (by decide) (by simp) hsmall
  have hupd : recoverUpdate env raw now = .ok (some (raw.recovered env now)) := by
    have hdue : (!timedOut env raw now && !dead env raw now) = false := by
      rw [late, Bool.or_eq_true] at hlate
      rcases hlate with h | h <;> simp [h]
    simp only [recoverUpdate, hs, ne_eq, not_true_eq_false, if_false, hdue, Bool.false_eq_true]
    exact except_map_eq_ok.mpr ⟨_, hterm, rfl⟩
  have hdump := dump_noticed .failed hrequest henc hsmall
  have hlive : raw.status.terminal = false := by
    rw [hs]
    rfl
  have hw : writeChange env i raw.status.terminal (raw.recovered env now) none now s =
      .ok (((s.setJob i (raw.recovered env now).wire).observeTerminal (raw.recovered env now)
        now).close i (raw.recovered env now) now) := by
    rw [hlive]
    exact except_bind_eq_ok.mpr ⟨_, hdump, rfl⟩
  exact change_ok hraw hload hupd hw

theorem failed_of_recover (hraw : s.jobs i = some raw) (hload : raw.load env = .ok record)
    (hout : raw.Outcome) (hwritten : raw.Written env) (hbounded : raw.Bounded)
    (hs : record.status = .processing) (hlate : late env record now = true) :
    ∃ stored, (after env now (.recover i) s).jobs i = some stored ∧ stored.status = .failed := by
  have hlive : raw.status.terminal = false := by
    rw [← JobRecord.status_eq_of_core (JobRecord.load_core hload), hs]
    rfl
  obtain ⟨rfl, hnesting⟩ := JobRecord.load_of_live hout hlive hload
  refine ⟨(record.recovered env now).wire, ?_, rfl⟩
  rw [after, perform, recoverOne_late hraw hload hnesting hwritten hbounded hs hlate,
    except_ok_bind]
  dsimp only
  rw [jobs_close]
  exact jobs_setJob_self

/-! ### Runs -/

/-- A successful `cancel` of the execution. -/
def cancels (env : Env) (i : String) (now : Time) (s : Store) : Bool :=
  match cancel env i now s with
  | .ok (some _, _) => true
  | _ => false

/-- The action is not a recovery that is due for a running job with a recorded
cancellation. -/
def Honours (env : Env) (i : String) (x : Exchange) (a : Action) : Prop :=
  ∀ e, a.event x = some e → e.op = .recover i →
    ∀ raw record, x.world.store.jobs i = some raw → raw.load env = .ok record →
      record.status = .processing → record.cancelRequested = true → late env record e.time = false

def Action.recovers : Action → Bool
  | .store ⟨_, .recover _⟩ => true
  | _ => false

theorem honours_of_not_recovers (h : a.recovers = false) : Honours env i x a := by
  intro e he hop
  cases a with
  | store =>
      cases he
      rw [Action.recovers.eq_def] at h
      obtain ⟨time, op⟩ := e
      obtain rfl : op = .recover i := hop
      cases h
  | send =>
      cases he
      cases hop
  | acknowledge =>
      simp only [Action.event] at he
      split at he
      · cases he
        cases hop
      · cases he
  | append | confirm | giveUp => cases he

/-- The execution can end only as CANCELED, and only that is published for it. -/
structure CancelDecided (i : String) (x : Exchange) : Prop where
  ended : ∀ r, x.world.store.jobs i = some r → r.status.terminal = true → r.status = .canceled
  sent : ∀ m ∈ x.sent, m.identity = i → m.event.status = .canceled
  appended : ∀ m ∈ x.topic, m.identity = i → m.event.status = .canceled

/-- What a run carries along. -/
def CancelRecorded (i : String) (x : Exchange) : Prop :=
  ∃ r, x.world.store.jobs i = some r ∧ r.Cancelled

theorem cancelRecorded_of_step (hreached : ExchangeReached env x) (hx : CancelRecorded i x)
    (hhonours : Honours env i x a) (h : ExchangeStep env x a y) : CancelRecorded i y := by
  obtain ⟨r, hr, hcancelled⟩ := hx
  rcases recordStep_of_exchange h i with hsame | ⟨e, he, hstep⟩
  · exact ⟨r, hsame.trans hr, hcancelled⟩
  · rw [hr] at hstep
    obtain ⟨stored, hstored, -⟩ := hstep.sameExecution
    rw [hstored] at hstep
    refine ⟨stored, hstored, hstep.cancelled hcancelled
      (reached_bounded (reached_world hreached) hr) ?_⟩
    intro hop record hload hs
    apply hhonours e he hop r record hr hload hs
    rw [JobRecord.cancelRequested_eq_of_core (JobRecord.load_core hload)]
    exact hcancelled.requested

theorem decided_of_recorded (hreached : ExchangeReached env x) (hx : CancelRecorded i x) :
    CancelDecided i x := by
  obtain ⟨r, hr, hcancelled⟩ := hx
  have haligned := reached_aligned hreached
  have hsent : ∀ m ∈ x.sent, m.identity = i → m.event.status = .canceled := by
    rintro m hm rfl
    obtain ⟨r', e, hr', he, hcore⟩ := haligned.announced m hm
    obtain rfl : r' = r := Option.some.inj (hr'.symm.trans hr)
    have hout := reached_outcome (reached_world hreached) hr
    have hterm : r'.status.terminal = true := by
      rw [← (hout.agrees e he).status]
      exact e.status.terminal_toTaskStatus
    have hstatus : e.status = m.event.status :=
      (congrArg JobResultEvent.status hcore : e.core.status = m.event.core.status)
    rw [← hstatus]
    apply TerminalStatus.toTaskStatus_injective
    rw [(hout.agrees e he).status, hcancelled.ended hterm]
    rfl
  refine ⟨?_, hsent, fun m hm => hsent m (haligned.appended m hm)⟩
  intro r' hr' hterm
  obtain rfl : r' = r := Option.some.inj (hr'.symm.trans hr)
  exact hcancelled.ended hterm

/-- A successful cancel records its decision. -/
theorem recorded_of_cancels (hreached : ExchangeReached env x)
    (hc : cancels env i now x.world.store)
    (h : ExchangeStep env x (.store ⟨now, .cancel i⟩) y) : CancelRecorded i y := by
  unfold cancels at hc
  split at hc
  · rename_i reply s' hcancel
    have hperf : perform env now x.world.store (.cancel i) = .ok (.changed (some reply), s') := by
      simp only [perform, hcancel]
      rfl
    have hstore : y.world.store = s' := by
      cases exchanged_of_step h with
      | store => simp [Exchange.fire, World.next, after, hperf]
    obtain ⟨record, -, hchange⟩ := cancel_cases hcancel
    rcases change_cases hchange with ⟨hnone, -⟩ |
      ⟨raw, record, changed, -, hraw, hload, hupd, hw⟩
    · cases hnone
    obtain ⟨stored, hdump, hjobs⟩ := jobs_writeChange hw
    have hbounded := (reached_bounded (reached_world hreached) hraw).of_core
      (JobRecord.load_core hload)
    have hcancelled : changed.Cancelled := by
      have hedit : Edit env now (.cancel i) record changed none := cancel_edit hupd
      cases hedit with
      | flag hs => exact ⟨rfl, fun hterm => by simp [hs, TaskStatus.terminal] at hterm⟩
      | cancelQueued _ hterm =>
          obtain ⟨hs, hrequested⟩ := terminate_canceled hbounded.request hterm
          exact ⟨hrequested, fun _ => hs⟩
      | stop hcaller => cases hcaller
    refine ⟨stored, ?_, hcancelled.of_core (JobRecord.dump_core hdump)⟩
    rw [hstore, hjobs]
    exact jobs_setJob_self
  · cases hc

/-- A due recovery undoes the decision. -/
theorem not_decided_of_overridden (hreached : ExchangeReached env x)
    (h : ExchangeStep env x a y) (hover : ¬ Honours env i x a) : ¬ CancelDecided i y := by
  simp only [Honours, not_forall] at hover
  obtain ⟨e, he, hop, raw, record, hraw, hload, hs, -, hlate⟩ := hover
  rw [Bool.not_eq_false] at hlate
  have hworld := reached_world hreached
  obtain ⟨stored, hstored, hfailed⟩ := failed_of_recover hraw hload (reached_outcome hworld hraw)
    (reached_written hworld hraw) (reached_bounded hworld hraw) hs hlate
  have hy : y.world.store.jobs i = some stored := by
    rcases world_of_step h with ⟨hnone, -⟩ | ⟨e', he', ⟨-, hnext⟩, -⟩
    · cases he.symm.trans hnone
    · obtain rfl : e = e' := Option.some.inj (he.symm.trans he')
      rw [hnext, World.next, hop]
      exact hstored
  intro hdecided
  have hcanceled := hdecided.ended stored hy (by rw [hfailed]; rfl)
  rw [hfailed] at hcanceled
  cases hcanceled

/-- **Cancellation is decisive while no recovery overrides it.** After a successful
`cancel`, a run without a due recovery of the execution ends it as CANCELED or not yet,
and publishes nothing but CANCELED. The next action keeps this exactly if it is no such
recovery either. -/
theorem run_cancelDecided (hreached : ExchangeReached env x)
    (hc : cancels env i now x.world.store = true)
    (hcancel : ExchangeStep env x (.store ⟨now, .cancel i⟩) y)
    (hrun : Run (Guarded (Honours env i) (ExchangeStep env)) y as z) :
    CancelDecided i z ∧
      ∀ a z', ExchangeStep env z a z' → (CancelDecided i z' ↔ Honours env i z a) := by
  have hkept : ExchangeReached env z ∧ CancelRecorded i z := by
    refine hrun.preserves_of (P := fun x => ExchangeReached env x ∧ CancelRecorded i x) ?_
      ⟨hreached.next hcancel, recorded_of_cancels hreached hc hcancel⟩
    rintro x a y ⟨hx, hrecorded⟩ hhonours hst
    exact ⟨hx.next hst, cancelRecorded_of_step hx hrecorded hhonours hst⟩
  obtain ⟨hz, hrecorded⟩ := hkept
  refine ⟨decided_of_recorded hz hrecorded, fun a z' hst => ⟨?_, ?_⟩⟩
  · intro hdecided
    by_contra hover
    exact not_decided_of_overridden hz hst hover hdecided
  · intro hhonours
    exact decided_of_recorded (hz.next hst) (cancelRecorded_of_step hz hrecorded hhonours hst)

end

/-! ### A cancelled job that fails -/

/-- A worker takes the story of `sampleWorld`. -/
def takenStory : Exchange := enacted sampleEnv .initial (sampleSchedule.map .store)

/-- The story is cancelled a second after it was taken. -/
def cancelledStory : Exchange :=
  enacted sampleEnv takenStory [.store ⟨3, .cancel sampleIdentity⟩]

/-- The owner dies, and 120 seconds after its last sign of life the job is recovered. -/
def recoveredStory : Exchange :=
  enacted sampleEnv cancelledStory [.store ⟨122, .recover sampleIdentity⟩]

theorem reached_takenStory : ExchangeReached sampleEnv takenStory :=
  ⟨.initial, _, Exchange.initial_initial, run_enacted _ _ _ (by decide +kernel)⟩

theorem cancel_takenStory :
    ExchangeStep sampleEnv takenStory (.store ⟨3, .cancel sampleIdentity⟩) cancelledStory := by
  cases run_enacted sampleEnv takenStory [.store ⟨3, .cancel sampleIdentity⟩]
    (by decide +kernel) with
  | cons first rest =>
      cases rest
      exact first

/-- The owner of the story dies after the cancel was answered: the job ends as FAILED. -/
theorem recovered_overrides_cancel : ¬ ∀ (env : Env) (i : String) (now : Time)
    (x y z : Exchange) (as : List Action), ExchangeReached env x →
    cancels env i now x.world.store = true → ExchangeStep env x (.store ⟨now, .cancel i⟩) y →
    Run (ExchangeStep env) y as z → CancelDecided i z := by
  intro h
  have hdecided := h sampleEnv sampleIdentity 3 takenStory cancelledStory recoveredStory _
    reached_takenStory (by decide +kernel) cancel_takenStory (run_enacted _ _ _ (by decide +kernel))
  have hfailed : (recoveredStory.world.store.jobs sampleIdentity).any
      (fun r => r.status = .failed) = true := by decide +kernel
  obtain ⟨r, hr, hs⟩ := (Option.any_eq_true _ _).mp hfailed
  have hs' : r.status = .failed := of_decide_eq_true hs
  have hcanceled := hdecided.ended r hr (by rw [hs']; rfl)
  rw [hs'] at hcanceled
  cases hcanceled

/-- The owner reacts to the cancel, and a publisher sends the result. -/
def stoppedSchedule : List Action :=
  [.store ⟨4, .finish sampleIdentity "worker:1" .completed none none⟩,
   .send 5 sampleIdentity "api", .append 0, .confirm "api", .acknowledge 6 "api"]

/-- The story of `cancelledStory` ends as CANCELED, which is what the topic shows. -/
theorem cancelDecided_stoppedSchedule :
    CancelDecided sampleIdentity (enacted sampleEnv cancelledStory stoppedSchedule) ∧
      ((enacted sampleEnv cancelledStory stoppedSchedule).topic.map fun m =>
        (m.key, m.event.status)) = [("7", .canceled)] := by
  have hrun : Run (Guarded (Honours sampleEnv sampleIdentity) (ExchangeStep sampleEnv))
      cancelledStory stoppedSchedule (enacted sampleEnv cancelledStory stoppedSchedule) := by
    have hquiet : ∀ a ∈ stoppedSchedule, a.recovers = false := by decide
    exact Run.guarded (fun a ha x => honours_of_not_recovers (hquiet a ha))
      (run_enacted _ _ _ (by decide +kernel))
  exact ⟨(run_cancelDecided reached_takenStory (by decide +kernel) cancel_takenStory hrun).1,
    by decide +kernel⟩

end Yeodam.Jobs
