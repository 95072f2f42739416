/-
The outcome of an execution: the event a record ends with.

A record has an event once it has ended, and the event says what the record says
(`JobRecord.Outcome`, kept by every step). From then on an operation touches the
publication fields and nothing else (`RecordStep.of_terminal`).
-/

import Yeodam.Jobs.Notices
import Yeodam.Jobs.Records

namespace Yeodam.Jobs

open Yeodam.Lib

variable {env : Env} {now : Time} {op : Op} {i : String} {r r' raw record stored : JobRecord}
  {e e' : JobResultEvent}

/-! ### Events that pass their checks -/

theorem JobResultEvent.checkPayload_cases (h : e.checkPayload env = .ok e') :
    decide (e.status = .completed) = e.result.isSome ∧
    decide (e.status = .failed) = e.error.isSome ∧
    (e.result = none ∧ e' = e ∨
      ∃ result result', e.result = some result ∧
        renderResult env.libraries e.type result = some result' ∧
        result'.finite = true ∧ result'.encodable = true ∧
        e' = { e with result := some result' }) := by
  unfold checkPayload at h
  split at h
  · cases h
  rename_i hcompleted
  split at h
  · cases h
  rename_i hfailed
  refine ⟨by simpa using hcompleted, by simpa using hfailed, ?_⟩
  split at h
  · rename_i hnone
    cases h
    exact .inl ⟨hnone, rfl⟩
  · rename_i result hresult
    split at h
    · cases h
    rename_i result' hrender
    split at h
    · rename_i hok
      cases h
      rw [Bool.and_eq_true] at hok
      exact .inr ⟨result, result', hresult, hrender, hok.1, hok.2, rfl⟩
    · cases h

theorem JobResultEvent.enforceSizeLimit_cases (h : e.enforceSizeLimit env = .ok e') :
    (e' = e ∧ e.byteSize ≤ resultMaxBytes) ∨
    (e' = e.tooLarge e.byteSize ∧ e.byteSize ≤ maxTextBytes ∧ resultMaxBytes < e.byteSize) := by
  unfold enforceSizeLimit at h
  split at h
  · split at h
    · rename_i hle
      cases h
      exact .inl ⟨rfl, hle⟩
    rename_i hgt
    split at h
    · rename_i hle
      cases h
      exact .inr ⟨rfl, hle, not_le.mp hgt⟩
    · cases h
  · cases h

/-- The event says what its record says, and carries what its status asks for. -/
structure JobRecord.Says (r : JobRecord) (e : JobResultEvent) : Prop where
  status : e.status.toTaskStatus = r.status
  type : e.type = r.kind.eventType
  tripId : e.tripId = r.tripId
  executionId : e.executionId = r.executionId
  result : e.result.isSome = true ↔ e.status = .completed
  error : e.error.isSome = true ↔ e.status = .failed

/-- The record has an event exactly if it has ended, and the right one. -/
structure JobRecord.Outcome (r : JobRecord) : Prop where
  event : r.event = none ↔ r.status.terminal = false
  agrees : ∀ e, r.event = some e → r.Says e

theorem terminate_outcome {status : TerminalStatus} {result : Option Value}
    {error : Option ErrorBody} (h : terminate env r status result error = .ok r') :
    r'.Outcome := by
  obtain ⟨built, e, hbuilt, he, rfl⟩ := terminate_cases h
  refine ⟨by simp, ?_⟩
  rintro _ ⟨⟩
  obtain ⟨hcompleted, hfailed, hresult⟩ := JobResultEvent.checkPayload_cases hbuilt
  rw [Bool.eq_iff_iff, decide_eq_true_iff] at hcompleted hfailed
  rcases JobResultEvent.enforceSizeLimit_cases he with ⟨rfl, -⟩ | ⟨rfl, -, -⟩
  · rcases hresult with ⟨hnone, rfl⟩ | ⟨_, _, hsome, -, -, -, rfl⟩
    · exact ⟨rfl, rfl, rfl, rfl, hcompleted.symm, hfailed.symm⟩
    · rw [hsome] at hcompleted
      exact ⟨rfl, rfl, rfl, rfl, hcompleted.symm, hfailed.symm⟩
  · rcases hresult with ⟨-, rfl⟩ | ⟨_, _, -, -, -, -, rfl⟩
    · exact ⟨rfl, rfl, rfl, rfl, by simp [JobResultEvent.tooLarge],
        by simp [JobResultEvent.tooLarge]⟩
    · exact ⟨rfl, rfl, rfl, rfl, by simp [JobResultEvent.tooLarge],
        by simp [JobResultEvent.tooLarge]⟩

/-! ### Every record has its outcome -/

/-- Two events of one core. -/
theorem JobRecord.event_of_core (h : r'.core = r.core) (he : r'.event = some e') :
    ∃ e, r.event = some e ∧ e'.core = e.core := by
  have hevent : r'.event.map JobResultEvent.core = r.event.map JobResultEvent.core :=
    (congrArg JobRecord.event h : r'.core.event = r.core.event)
  rw [he, Option.map_some] at hevent
  obtain ⟨e, he', hcore⟩ := Option.map_eq_some_iff.mp hevent.symm
  exact ⟨e, he', hcore.symm⟩

theorem JobRecord.Outcome.of_core (h : r.Outcome) (hcore : r'.core = r.core) : r'.Outcome := by
  have hstatus := JobRecord.status_eq_of_core hcore
  have hsame := JobRecord.SameExecution.of_core hcore
  have hsome := JobRecord.event_isSome_eq_of_core hcore
  refine ⟨?_, ?_⟩
  · rw [hstatus, ← h.event, ← Option.isNone_iff_eq_none, ← Option.isNone_iff_eq_none,
      ← Option.isSome_eq_false_iff, ← Option.isSome_eq_false_iff, hsome]
  · intro e' he'
    obtain ⟨e, he, hc⟩ := JobRecord.event_of_core hcore he'
    have hs := h.agrees e he
    have hstatus' : e'.status = e.status :=
      (congrArg JobResultEvent.status hc : e'.core.status = e.core.status)
    have htype : e'.type = e.type := (congrArg JobResultEvent.type hc : e'.core.type = e.core.type)
    have htrip : e'.tripId = e.tripId :=
      (congrArg JobResultEvent.tripId hc : e'.core.tripId = e.core.tripId)
    have hexec : e'.executionId = e.executionId :=
      (congrArg JobResultEvent.executionId hc : e'.core.executionId = e.core.executionId)
    have hresult : e'.result.isSome = e.result.isSome := by
      simpa [JobResultEvent.core] using congrArg (fun e => e.result.isSome) hc
    have herror : e'.error.isSome = e.error.isSome := by
      simpa [JobResultEvent.core] using congrArg (fun e => e.error.isSome) hc
    exact ⟨by rw [hstatus', hs.status, hstatus], by rw [htype, hs.type, hsame.kind],
      by rw [htrip, hs.tripId, hsame.tripId], by rw [hexec, hs.executionId, hsame.executionId],
      by rw [hresult, hstatus', hs.result], by rw [herror, hstatus', hs.error]⟩

/-- The outcome reads nothing but the ids, the kind, the status and the event. -/
theorem JobRecord.Outcome.of_fields (h : r.Outcome) (hsame : r.SameExecution r')
    (hstatus : r'.status = r.status) (hevent : r'.event = r.event) : r'.Outcome := by
  refine ⟨by rw [hevent, hstatus, h.event], ?_⟩
  intro e he
  rw [hevent] at he
  have hs := h.agrees e he
  exact ⟨by rw [hs.status, hstatus], by rw [hs.type, hsame.kind], by rw [hs.tripId, hsame.tripId],
    by rw [hs.executionId, hsame.executionId], hs.result, hs.error⟩

/-- A change that keeps ids, kind and event, from one status to another of its sort. -/
theorem JobRecord.Outcome.of_live (h : r.Outcome) (hlive : r.status.terminal = false)
    (hevent : r'.event = r.event) (hlive' : r'.status.terminal = false) : r'.Outcome := by
  have hnone := h.event.mpr hlive
  rw [← hevent] at hnone
  exact ⟨by simp [hnone, hlive'], by simp [hnone]⟩

theorem Edit.outcome {queueScore : Option Time} (h : Edit env now op r r' queueScore)
    (hr : r.Outcome) : r'.Outcome := by
  cases h with
  | renew howns | report howns | giveBack howns =>
      exact hr.of_live (by rw [(owns_iff.mp howns).1]; rfl) rfl
        (by first | rfl | (simp only [(owns_iff.mp howns).1]; rfl))
  | flag hs => exact hr.of_live (by rw [hs]; rfl) rfl (by simp only [hs]; rfl)
  | finish _ _ hterm => exact terminate_outcome hterm
  | stop _ _ _ hterm => exact terminate_outcome hterm
  | cancelQueued _ hterm => exact terminate_outcome hterm
  | recover _ _ hterm => exact terminate_outcome hterm
  | leaseResult => exact hr.of_fields ⟨rfl, rfl, rfl, rfl⟩ rfl rfl

theorem Intake.outcome {q : Intake} (h : q.record env = .ok record) : record.Outcome := by
  unfold Intake.record at h
  split at h
  · exact terminate_outcome h
  · cases h
    exact ⟨by simp [blank, TaskStatus.terminal], by simp [blank]⟩

theorem RecordStep.outcome {before : Option JobRecord}
    (hbefore : ∀ raw, before = some raw → raw.Outcome)
    (h : RecordStep env now i op before (some stored)) : stored.Outcome := by
  cases h with
  | keep => exact hbefore stored rfl
  | @registered _ record _ hrec _ hdump =>
      have hr := Intake.outcome hrec
      have hcreated : JobRecord.Outcome { record with createdAt := now } :=
        hr.of_fields ⟨rfl, rfl, rfl, rfl⟩ rfl rfl
      exact hcreated.of_core (JobRecord.dump_core hdump)
  | @started _ owner _ raw record _ hload hs hdump =>
      have hr := (hbefore raw rfl).of_core (JobRecord.load_core hload)
      have hstart : (record.start owner now).Outcome := hr.of_live (by rw [hs]; rfl) rfl rfl
      exact hstart.of_core (JobRecord.dump_core hdump)
  | @edited _ raw record changed _ _ _ hload hedit hdump =>
      have hr := (hbefore raw rfl).of_core (JobRecord.load_core hload)
      exact (hedit.outcome hr).of_core (JobRecord.dump_core hdump)
  | @acknowledged _ raw record _ hload _ hdump =>
      have hr := (hbefore raw rfl).of_core (JobRecord.load_core hload)
      have hpublished : JobRecord.Outcome { record with published := true } :=
        hr.of_fields ⟨rfl, rfl, rfl, rfl⟩ rfl rfl
      exact hpublished.of_core (JobRecord.dump_core hdump)

theorem reached_outcome {w : World} (h : Reached env w) (hr : w.store.jobs i = some r) :
    r.Outcome :=
  reached_record (P := fun _ r => r.Outcome) RecordStep.outcome h hr

theorem JobRecord.Bounded.of_core {r r' : JobRecord} (h : r.Bounded) (hcore : r'.core = r.core) :
    r'.Bounded := by
  have hsame := JobRecord.SameExecution.of_core hcore
  exact ⟨hsame.tripId ▸ h.trip_digits, hsame.executionId ▸ h.execution_length⟩

/-- The bounds of the intake hold of every record. -/
theorem reached_bounded {w : World} (h : Reached env w) (hr : w.store.jobs i = some r) :
    r.Bounded := by
  refine reached_record (P := fun _ r => r.Bounded) ?_ h hr
  intro now op i before stored hbefore hstep
  cases before with
  | some raw =>
      obtain ⟨_, ⟨⟩, hsame⟩ := hstep.sameExecution
      have hraw := hbefore raw rfl
      exact ⟨hsame.tripId ▸ hraw.trip_digits, hsame.executionId ▸ hraw.execution_length⟩
  | none =>
      cases hstep with
      | @registered q record _ hrec _ hdump =>
          have hsame := JobRecord.SameExecution.of_core (JobRecord.dump_core hdump)
          obtain ⟨htrip, -, hexec, -⟩ := Intake.record_cases hrec
          refine ⟨?_, ?_⟩
          · rw [hsame.tripId, htrip]
            exact q.trip_digits
          · rw [hsame.executionId, hexec]
            exact q.execution_length.2

/-! ### Every record was written -/

/-- A record read from the store: some record's JSON text. -/
def JobRecord.Written (env : Env) (r : JobRecord) : Prop := ∃ r₀, JobRecord.dump env r₀ = .ok r

theorem JobRecord.dump_cases (h : r.dump env = .ok stored) :
    stored = r.wire ∧ r.nesting ≤ env.writeNesting ∧ r.encodable = true := by
  unfold dump at h
  split at h
  · rename_i hok
    cases h
    rw [Bool.and_eq_true, decide_eq_true_iff] at hok
    exact ⟨rfl, hok⟩
  · cases h

theorem JobRecord.dump_ok (hnesting : r.nesting ≤ env.writeNesting) (henc : r.encodable = true) :
    r.dump env = .ok r.wire := by
  simp [dump, hnesting, henc]

theorem JobRecord.Written.nesting_le (h : r.Written env) : r.nesting ≤ env.writeNesting := by
  obtain ⟨r₀, hdump⟩ := h
  obtain ⟨rfl, hnesting, -⟩ := dump_cases hdump
  rwa [nesting_wire]

theorem JobRecord.Written.encodable (h : r.Written env) : r.encodable = true := by
  obtain ⟨r₀, hdump⟩ := h
  obtain ⟨rfl, -, henc⟩ := dump_cases hdump
  rwa [encodable_wire]

theorem reached_written {w : World} (h : Reached env w) (hr : w.store.jobs i = some r) :
    r.Written env := by
  refine reached_record (P := fun _ r => r.Written env) ?_ h hr
  intro now op i before stored hbefore hstep
  cases hstep with
  | keep => exact hbefore stored rfl
  | registered _ _ hdump => exact ⟨_, hdump⟩
  | started _ _ hdump => exact ⟨_, hdump⟩
  | edited _ _ _ hdump => exact ⟨_, hdump⟩
  | acknowledged _ _ hdump => exact ⟨_, hdump⟩

/-- A live record is read back as it is, if its text is not nested too deep. -/
theorem JobRecord.load_of_live (hout : raw.Outcome) (hlive : raw.status.terminal = false)
    (hload : raw.load env = .ok record) : record = raw ∧ raw.nesting ≤ env.readNesting := by
  have hnone := hout.event.mpr hlive
  unfold load at hload
  split at hload
  · rename_i hnesting
    rw [hnone] at hload
    cases hload
    exact ⟨rfl, hnesting⟩
  · cases hload

/-! ### Nothing but publication after the end -/

theorem Edit.of_terminal {queueScore : Option Time} (h : Edit env now op r r' queueScore)
    (hterm : r.status.terminal = true) :
    ∃ j p until_, op = .claimResult j p ∧ r.published = false ∧
      r' = { r with publishOwner := some p, publishUntil := until_ } := by
  have hne : ∀ {status : TaskStatus}, r.status = status → status.terminal = false → False := by
    rintro _ rfl hlive
    rw [hterm] at hlive
    cases hlive
  cases h with
  | renew howns | report howns | giveBack howns =>
      exact (hne (owns_iff.mp howns).1 rfl).elim
  | finish howns _ _ => exact (hne (owns_iff.mp howns).1 rfl).elim
  | stop _ howns _ _ => exact (hne (owns_iff.mp howns).1 rfl).elim
  | flag hs => exact (hne hs rfl).elim
  | cancelQueued hs _ => exact (hne hs rfl).elim
  | recover hs _ _ => exact (hne hs rfl).elim
  | leaseResult _ hpub => exact ⟨_, _, _, rfl, hpub, rfl⟩

/-- **An ended record is only published.** It stays as it is, a publisher leases it, or
the publisher that leased it last marks it published. -/
theorem RecordStep.of_terminal (h : RecordStep env now i op (some raw) (some stored))
    (hterm : raw.status.terminal = true) :
    stored = raw ∨
    (∃ p until_ record, op = .claimResult i p ∧ raw.load env = .ok record ∧
      record.published = false ∧
      JobRecord.dump env { record with publishOwner := some p, publishUntil := until_ } =
        .ok stored) ∨
    (∃ p record, op = .acknowledgeResult i p ∧ raw.load env = .ok record ∧
      record.publishOwner = some p ∧
      JobRecord.dump env { record with published := true } = .ok stored) := by
  cases h with
  | keep => exact .inl rfl
  | started hload hs _ =>
      rw [← JobRecord.status_eq_of_core (JobRecord.load_core hload), hs] at hterm
      cases hterm
  | @edited _ _ record _ _ _ htarget hload hedit hdump =>
      rw [← JobRecord.status_eq_of_core (JobRecord.load_core hload)] at hterm
      obtain ⟨j, p, until_, rfl, hpub, rfl⟩ := hedit.of_terminal hterm
      cases htarget
      exact .inr (.inl ⟨p, until_, record, rfl, hload, hpub, hdump⟩)
  | @acknowledged p _ record _ hload howner hdump =>
      exact .inr (.inr ⟨p, record, rfl, hload, howner, hdump⟩)

/-- An ended record keeps its event, but for what the result in it is. -/
theorem RecordStep.event_core (h : RecordStep env now i op (some raw) (some stored))
    (hterm : raw.status.terminal = true) (he : raw.event = some e) :
    ∃ e', stored.event = some e' ∧ e'.core = e.core := by
  have hmap : stored.event.map JobResultEvent.core = raw.event.map JobResultEvent.core := by
    rcases h.of_terminal hterm with rfl | ⟨p, until_, record, -, hload, -, hdump⟩ |
      ⟨p, record, -, hload, -, hdump⟩
    · rfl
    · have hd : stored.event.map JobResultEvent.core = record.event.map JobResultEvent.core :=
        congrArg JobRecord.event (JobRecord.dump_core hdump)
      have hl : record.event.map JobResultEvent.core = raw.event.map JobResultEvent.core :=
        congrArg JobRecord.event (JobRecord.load_core hload)
      rw [hd, hl]
    · have hd : stored.event.map JobResultEvent.core = record.event.map JobResultEvent.core :=
        congrArg JobRecord.event (JobRecord.dump_core hdump)
      have hl : record.event.map JobResultEvent.core = raw.event.map JobResultEvent.core :=
        congrArg JobRecord.event (JobRecord.load_core hload)
      rw [hd, hl]
  rw [he, Option.map_some] at hmap
  exact Option.map_eq_some_iff.mp hmap

/-! ### Who publishes -/

theorem terminate_publishOwner {status : TerminalStatus} {result : Option Value}
    {error : Option ErrorBody} (h : terminate env r status result error = .ok r') :
    r'.publishOwner = r.publishOwner := by
  obtain ⟨_, _, -, -, rfl⟩ := terminate_cases h
  rfl

theorem Intake.publishOwner {q : Intake} (h : q.record env = .ok record) :
    record.publishOwner = none := by
  unfold Intake.record at h
  split at h
  · exact terminate_publishOwner h
  · cases h
    rfl

theorem Edit.publishOwner {queueScore : Option Time} (h : Edit env now op r r' queueScore)
    (hop : ∀ j p, op ≠ .claimResult j p) : r'.publishOwner = r.publishOwner := by
  cases h with
  | renew | report | giveBack | flag => rfl
  | finish _ _ hterm => exact terminate_publishOwner hterm
  | stop _ _ _ hterm => exact terminate_publishOwner hterm
  | cancelQueued _ hterm => exact (terminate_publishOwner hterm).trans rfl
  | recover _ _ hterm => exact terminate_publishOwner hterm
  | leaseResult => exact (hop _ _ rfl).elim

/-- Only `claim_result` changes the publisher of a record. -/
theorem RecordStep.publishOwner (h : RecordStep env now i op (some raw) (some stored))
    (hop : ∀ j p, op ≠ .claimResult j p) : stored.publishOwner = raw.publishOwner := by
  cases h with
  | keep => rfl
  | started hload _ hdump =>
      have hrecord := JobRecord.publishOwner_eq_of_core (JobRecord.load_core hload)
      exact (JobRecord.publishOwner_eq_of_core (JobRecord.dump_core hdump)).trans hrecord
  | edited _ hload hedit hdump =>
      have hrecord := JobRecord.publishOwner_eq_of_core (JobRecord.load_core hload)
      have hstored := JobRecord.publishOwner_eq_of_core (JobRecord.dump_core hdump)
      exact (hstored.trans (hedit.publishOwner hop)).trans hrecord
  | acknowledged hload _ hdump =>
      have hrecord := JobRecord.publishOwner_eq_of_core (JobRecord.load_core hload)
      exact (JobRecord.publishOwner_eq_of_core (JobRecord.dump_core hdump)).trans hrecord

/-- Only the publisher that leased a result last marks it published. -/
theorem RecordStep.published (h : RecordStep env now i op (some raw) (some stored))
    (hbefore : raw.published = false) (hafter : stored.published = true) :
    ∃ p, op = .acknowledgeResult i p ∧ raw.publishOwner = some p := by
  cases h with
  | keep =>
      rw [hbefore] at hafter
      cases hafter
  | started hload _ hdump =>
      have hstored := JobRecord.published_eq_of_core (JobRecord.dump_core hdump)
      have hrecord := JobRecord.published_eq_of_core (JobRecord.load_core hload)
      rw [hstored, JobRecord.start, hrecord, hbefore] at hafter
      cases hafter
  | edited _ hload hedit hdump =>
      have hstored := JobRecord.published_eq_of_core (JobRecord.dump_core hdump)
      have hrecord := JobRecord.published_eq_of_core (JobRecord.load_core hload)
      rw [hstored, hedit.stages.2.1, hrecord, hbefore] at hafter
      cases hafter
  | @acknowledged p _ record _ hload howner _ =>
      refine ⟨p, rfl, ?_⟩
      rw [← JobRecord.publishOwner_eq_of_core (JobRecord.load_core hload)]
      exact howner

end Yeodam.Jobs
