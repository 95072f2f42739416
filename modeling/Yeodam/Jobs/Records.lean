/-
The life of one record.

`RecordStep` is what an operation can do to the record kept under one identity:
register it, start it, edit it, mark it published, or leave it alone. It is the
projection of `Transaction` to one key (`recordStep_of_transaction`), so a property
of single records needs one case per constructor and no other part of the store.
-/

import Yeodam.Jobs.Placement

namespace Yeodam.Jobs

open Yeodam.Lib

section

variable (env : Env) (now : Time) (i : String)

/-- One operation at time `now`, seen from the record kept under `i`. -/
inductive RecordStep : Op → Option JobRecord → Option JobRecord → Prop where
  | keep {op : Op} (record : Option JobRecord) : RecordStep op record record
  | registered {q : Intake} {record stored : JobRecord} :
      q.record env = .ok record → record.identity env.sha256 = i →
      JobRecord.dump env { record with createdAt := now } = .ok stored →
      RecordStep (.register q) none (some stored)
  | started {kind : JobKind} {owner : String} {stop : Bool} {raw record stored : JobRecord} :
      raw.load env = .ok record → record.status = .queued →
      (record.start owner now).dump env = .ok stored →
      RecordStep (.claim kind owner stop) (some raw) (some stored)
  | edited {op : Op} {raw record changed stored : JobRecord} {queueScore : Option Time} :
      op.target = some i → raw.load env = .ok record →
      Edit env now op record changed queueScore → changed.dump env = .ok stored →
      RecordStep op (some raw) (some stored)
  | acknowledged {publisher : String} {raw record stored : JobRecord} :
      raw.load env = .ok record → record.publishOwner = some publisher →
      JobRecord.dump env { record with published := true } = .ok stored →
      RecordStep (.acknowledgeResult i publisher) (some raw) (some stored)

end

section

variable {env : Env} {now : Time} {s s' : Store} {op : Op} {i j : String}

/-! ### The record table after each write -/

@[simp] theorem jobs_setJob_self {r : JobRecord} : (s.setJob i r).jobs i = some r := by
  simp [Store.setJob]

theorem jobs_setJob_ne {r : JobRecord} (h : j ≠ i) : (s.setJob i r).jobs j = s.jobs j := by
  simp [Store.setJob, h]

@[simp] theorem jobs_close {r : JobRecord} : (s.close i r now).jobs = s.jobs := by
  unfold Store.close
  dsimp only
  split <;> rfl

@[simp] theorem jobs_requeue {kind : JobKind} {score : Time} :
    (s.requeue i kind score).jobs = s.jobs := rfl

@[simp] theorem jobs_occupy {slot : String} {r : JobRecord} :
    (s.occupy env slot i r now).jobs = (s.setJob i r).jobs := rfl

@[simp] theorem jobs_accept {r : JobRecord} {staged : List String} :
    (s.accept i r staged now).jobs = (s.setJob i r).jobs := by
  unfold Store.accept
  dsimp only
  split <;> rfl

/-- `change` writes the changed record and no other. -/
theorem jobs_writeChange {wasTerminal : Bool} {r : JobRecord} {queueScore : Option Time}
    (h : writeChange env i wasTerminal r queueScore now s = .ok s') :
    ∃ stored, r.dump env = .ok stored ∧ s'.jobs = (s.setJob i stored).jobs := by
  obtain ⟨stored, hdump, ⟨-, rfl⟩ | ⟨-, d, -, rfl⟩ | ⟨-, -, rfl⟩ | ⟨-, score, -, rfl⟩⟩ :=
    writeChange_cases h
  · refine ⟨stored, hdump, ?_⟩
    rw [jobs_close]
    split <;> rfl
  · exact ⟨stored, hdump, rfl⟩
  · exact ⟨stored, hdump, rfl⟩
  · exact ⟨stored, hdump, rfl⟩

theorem recordStep_of_transaction (h : Transaction env now s op s') (i : String) :
    RecordStep env now i op (s.jobs i) (s'.jobs i) := by
  cases h with
  | unchanged | ignored | swept | unqueued | staged | popped => exact .keep _
  | @accepted q record stored staged hrec hopen _ hdump =>
      rw [jobs_accept]
      by_cases hi : i = record.identity env.sha256
      · subst hi
        rw [jobs_setJob_self, Store.jobs_eq_none_of_closed hopen]
        exact .registered hrec rfl hdump
      · rw [jobs_setJob_ne hi]
        exact .keep _
  | @claimed _ _ _ _ identity _ raw record stored _ _ _ _ hraw hload hs hdump =>
      rw [jobs_occupy]
      by_cases hi : i = identity
      · subst hi
        rw [jobs_setJob_self, hraw]
        exact .started hload hs hdump
      · rw [jobs_setJob_ne hi]
        exact .keep _
  | @changed _ identity raw record changed _ _ htarget hraw hload hedit hw =>
      obtain ⟨stored, hdump, hjobs⟩ := jobs_writeChange hw
      rw [hjobs]
      by_cases hi : i = identity
      · subst hi
        rw [jobs_setJob_self, hraw]
        exact .edited htarget hload hedit hdump
      · rw [jobs_setJob_ne hi]
        exact .keep _
  | @acknowledged identity publisher raw record stored hraw hload howner hdump =>
      by_cases hi : i = identity
      · subst hi
        rw [show ((s.setJob i stored).removePending i).jobs i = some stored from jobs_setJob_self,
          hraw]
        exact .acknowledged hload howner hdump
      · rw [show ((s.setJob identity stored).removePending identity).jobs i = s.jobs i from
          jobs_setJob_ne hi]
        exact .keep _

/-- The step of every execution's record in one step of the world. -/
theorem recordStep_of_step {w w' : World} {e : Event} (h : Step env w e w') (i : String) :
    RecordStep env e.time i e.op (w.store.jobs i) (w'.store.jobs i) := by
  obtain ⟨-, rfl⟩ := h
  exact recordStep_of_transaction (transaction_after ..) i

/-! ### A record never changes its execution -/

/-- The two records are of one execution. -/
structure JobRecord.SameExecution (r r' : JobRecord) : Prop where
  tripId : r'.tripId = r.tripId
  kind : r'.kind = r.kind
  executionId : r'.executionId = r.executionId
  resultTopic : r'.resultTopic = r.resultTopic

variable {r r' r'' raw record stored : JobRecord}

theorem JobRecord.SameExecution.refl (r : JobRecord) : r.SameExecution r := ⟨rfl, rfl, rfl, rfl⟩

theorem JobRecord.SameExecution.trans (h : r.SameExecution r') (h' : r'.SameExecution r'') :
    r.SameExecution r'' :=
  ⟨h'.1.trans h.1, h'.2.trans h.2, h'.3.trans h.3, h'.4.trans h.4⟩

theorem JobRecord.SameExecution.of_core (h : r'.core = r.core) : r.SameExecution r' where
  tripId := (congrArg JobRecord.tripId h : r'.core.tripId = r.core.tripId)
  kind := kind_eq_of_core h
  executionId := (congrArg JobRecord.executionId h : r'.core.executionId = r.core.executionId)
  resultTopic := (congrArg JobRecord.resultTopic h : r'.core.resultTopic = r.core.resultTopic)

theorem JobRecord.SameExecution.identity_eq (h : r.SameExecution r') (sha256 : String → String) :
    r'.identity sha256 = r.identity sha256 := by
  simp [identity, h.tripId, h.kind, h.executionId]

theorem terminate_sameExecution {status : TerminalStatus} {result : Option Value}
    {error : Option ErrorBody} (h : terminate env r status result error = .ok r') :
    r.SameExecution r' := by
  obtain ⟨_, e, -, -, rfl⟩ := terminate_cases h
  exact ⟨rfl, rfl, rfl, rfl⟩

theorem Edit.sameExecution {queueScore : Option Time} (h : Edit env now op r r' queueScore) :
    r.SameExecution r' := by
  cases h with
  | renew | report | giveBack | flag | leaseResult => exact ⟨rfl, rfl, rfl, rfl⟩
  | finish _ _ hterm => exact terminate_sameExecution hterm
  | stop _ _ _ hterm => exact terminate_sameExecution hterm
  | cancelQueued _ hterm => exact ⟨(terminate_sameExecution hterm).1,
      (terminate_sameExecution hterm).2, (terminate_sameExecution hterm).3,
      (terminate_sameExecution hterm).4⟩
  | recover _ _ hterm => exact terminate_sameExecution hterm

/-- A step keeps a record that is there, and it stays a record of its execution. -/
theorem RecordStep.sameExecution {after : Option JobRecord}
    (h : RecordStep env now i op (some raw) after) :
    ∃ stored, after = some stored ∧ raw.SameExecution stored := by
  cases h with
  | keep => exact ⟨raw, rfl, .refl raw⟩
  | @started _ _ _ _ record stored hload _ hdump =>
      have hload := JobRecord.SameExecution.of_core (JobRecord.load_core hload)
      have hdump := JobRecord.SameExecution.of_core (JobRecord.dump_core hdump)
      exact ⟨stored, rfl, hload.trans ⟨hdump.1, hdump.2, hdump.3, hdump.4⟩⟩
  | @edited _ _ record changed stored _ _ hload hedit hdump =>
      have hload := JobRecord.SameExecution.of_core (JobRecord.load_core hload)
      have hdump := JobRecord.SameExecution.of_core (JobRecord.dump_core hdump)
      exact ⟨stored, rfl, (hload.trans hedit.sameExecution).trans hdump⟩
  | @acknowledged _ _ record stored hload _ hdump =>
      have hload := JobRecord.SameExecution.of_core (JobRecord.load_core hload)
      have hdump := JobRecord.SameExecution.of_core (JobRecord.dump_core hdump)
      exact ⟨stored, rfl, hload.trans ⟨hdump.1, hdump.2, hdump.3, hdump.4⟩⟩

/-! ### Invariants of single records -/

/-- **Invariant rule for records.** A property every step gives the record it stores
holds of every record in every world reached. -/
theorem reached_record {P : String → JobRecord → Prop}
    (hstep : ∀ {now op i before stored}, (∀ raw, before = some raw → P i raw) →
      RecordStep env now i op before (some stored) → P i stored)
    {w : World} (h : Reached env w) (hr : w.store.jobs i = some r) : P i r := by
  have hall : ∀ i r, w.store.jobs i = some r → P i r := by
    refine h.invariant (P := fun w => ∀ i r, w.store.jobs i = some r → P i r) ?_ ?_
    · rintro ⟨clock, s⟩ rfl i r hr
      cases hr
    · intro w e w' hall hst i r hr
      have hrec := recordStep_of_step hst i
      rw [hr] at hrec
      exact hstep (hall i) hrec
  exact hall i r hr

/-- A record is kept under its own identity. -/
def Keyed (env : Env) (s : Store) : Prop :=
  ∀ i r, s.jobs i = some r → r.identity env.sha256 = i

theorem RecordStep.keyed {before : Option JobRecord}
    (hbefore : ∀ r, before = some r → r.identity env.sha256 = i)
    (h : RecordStep env now i op before (some stored)) : stored.identity env.sha256 = i := by
  cases before with
  | some raw =>
      obtain ⟨_, ⟨⟩, hsame⟩ := h.sameExecution
      exact (hsame.identity_eq _).trans (hbefore raw rfl)
  | none =>
      cases h with
      | @registered q record _ hrec hi hdump =>
          have hsame := JobRecord.SameExecution.of_core (JobRecord.dump_core hdump)
          exact (hsame.identity_eq env.sha256).trans hi

theorem reached_keyed {w : World} (h : Reached env w) : Keyed env w.store :=
  fun _ _ => reached_record RecordStep.keyed h

end

end Yeodam.Jobs
