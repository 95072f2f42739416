/-
Registration: one live execution for each trip and kind, one registration for each
execution, and no way back for an execution that was ignored.

`Current` is the invariant behind the first: a live record is the one the latest
pointer of its trip names. An execution is closed from its first registration on,
and a closed execution is never registered again.
-/

import Yeodam.Jobs.Notices
import Yeodam.Jobs.Records

namespace Yeodam.Jobs

open Yeodam.Lib

variable {env : Env}

/-! ### Terminal records stay terminal -/

section

variable {now : Time} {s s' : Store} {op : Op} {i : String} {r raw stored : JobRecord}

/-- No step takes a record out of a terminal status. -/
theorem RecordStep.status_of_terminal (h : RecordStep env now i op (some raw) (some stored))
    (hterm : raw.status.terminal = true) : stored.status = raw.status := by
  cases h with
  | keep => rfl
  | started hload hs hdump =>
      rw [← JobRecord.status_eq_of_core (JobRecord.load_core hload), hs] at hterm
      cases hterm
  | @edited _ _ record changed _ _ _ hload hedit hdump =>
      have hraw := JobRecord.status_eq_of_core (JobRecord.load_core hload)
      have hstored := JobRecord.status_eq_of_core (JobRecord.dump_core hdump)
      rw [← hraw] at hterm
      obtain ⟨-, -, ⟨hs, -⟩ | ⟨hs, -⟩ | ⟨hs, -⟩ | ⟨hs, -⟩⟩ := hedit.stages
      · rw [hs] at hterm
        cases hterm
      · rw [hs] at hterm
        cases hterm
      · rw [hs] at hterm
        cases hterm
      · rw [hstored, hs, hraw]
  | acknowledged hload _ hdump =>
      have hraw := JobRecord.status_eq_of_core (JobRecord.load_core hload)
      exact (JobRecord.status_eq_of_core (JobRecord.dump_core hdump)).trans hraw

theorem RecordStep.live_of_live (h : RecordStep env now i op (some raw) (some stored))
    (hlive : stored.status.terminal = false) : raw.status.terminal = false := by
  cases hterm : raw.status.terminal with
  | false => rfl
  | true => rw [h.status_of_terminal hterm, hterm] at hlive; cases hlive

/-! ### The latest pointer -/

/-- A live record is the latest of its trip and kind. -/
def Current (s : Store) : Prop :=
  ∀ i r, s.jobs i = some r → r.status.terminal = false → s.latest r.kind r.tripId = some i

theorem latest_accept {staged : List String} :
    (s.accept i r staged now).latest = (s.setLatest r.kind r.tripId i).latest := by
  unfold Store.accept
  dsimp only
  split <;> rfl

theorem latest_writeChange {wasTerminal : Bool} {queueScore : Option Time}
    (h : writeChange env i wasTerminal r queueScore now s = .ok s') : s'.latest = s.latest := by
  obtain ⟨stored, -, ⟨-, rfl⟩ | ⟨-, d, -, rfl⟩ | ⟨-, -, rfl⟩ | ⟨-, score, -, rfl⟩⟩ :=
    writeChange_cases h
  · unfold Store.close
    dsimp only
    split <;> split <;> rfl
  all_goals rfl

/-- A step that leaves the pointers alone keeps live records current. -/
theorem current_of_recordStep (hcur : Current s) (hlatest : s'.latest = s.latest)
    (hsteps : ∀ i, RecordStep env now i op (s.jobs i) (s'.jobs i))
    (hold : ∀ i r, s'.jobs i = some r → (s.jobs i).isSome = true) : Current s' := by
  intro i r hr hlive
  obtain ⟨raw, hraw⟩ := Option.isSome_iff_exists.mp (hold i r hr)
  have hstep := hsteps i
  rw [hraw, hr] at hstep
  obtain ⟨_, ⟨⟩, hsame⟩ := hstep.sameExecution
  rw [hlatest, hsame.kind, hsame.tripId]
  exact hcur i raw hraw (hstep.live_of_live hlive)

theorem current_of_transaction (hcur : Current s) (h : Transaction env now s op s') :
    Current s' := by
  have hsteps := recordStep_of_transaction h
  -- Only a registration adds a record.
  have hadded : ∀ {j : String} {stored : JobRecord}, (s.jobs j).isSome = true →
      ∀ i r, (s.setJob j stored).jobs i = some r → (s.jobs i).isSome = true := by
    intro j stored hj i r hr
    by_cases hi : i = j
    · exact hi ▸ hj
    · rw [jobs_setJob_ne hi] at hr
      rw [hr]
      rfl
  cases h with
  | unchanged | ignored | swept | unqueued | staged | popped => exact hcur
  | @accepted q record stored staged hrec hopen hidle hdump =>
      have hsame := JobRecord.SameExecution.of_core (JobRecord.dump_core hdump)
      intro i r hr hlive
      rw [jobs_accept] at hr
      rw [latest_accept]
      simp only [Store.setLatest]
      by_cases hi : i = record.identity env.sha256
      · subst hi
        rw [jobs_setJob_self] at hr
        cases hr
        simp
      · rw [jobs_setJob_ne hi] at hr
        have hlat := hcur i r hr hlive
        by_cases hk : r.kind = stored.kind
        · by_cases ht : r.tripId = stored.tripId
          · -- The trip was busy with `r`, so the registration was not accepted.
            rw [hk.trans hsame.kind, ht.trans hsame.tripId] at hlat
            rw [hidle i r hlat hr] at hlive
            cases hlive
          · rw [hk, Function.update_self, Function.update_of_ne ht, ← hk]
            exact hlat
        · rw [Function.update_of_ne hk]
          exact hlat
  | claimed _ _ _ _ hraw =>
      exact current_of_recordStep hcur rfl hsteps (hadded (by rw [hraw]; rfl))
  | changed _ hraw _ _ hw =>
      obtain ⟨stored, -, hjobs⟩ := jobs_writeChange hw
      apply current_of_recordStep hcur (latest_writeChange hw) hsteps
      rw [hjobs]
      exact hadded (by rw [hraw]; rfl)
  | acknowledged hraw =>
      exact current_of_recordStep hcur rfl hsteps (hadded (by rw [hraw]; rfl))

theorem reached_current {w : World} (h : Reached env w) : Current w.store := by
  refine h.invariant (P := fun w => Current w.store) ?_ ?_
  · rintro ⟨clock, s⟩ rfl i r hr
    cases hr
  · rintro w e w' hcur ⟨-, rfl⟩
    exact current_of_transaction hcur (transaction_after ..)

/-! ### Closed executions -/

theorem ignored_accept {staged : List String} : (s.accept i r staged now).ignored = s.ignored := by
  unfold Store.accept
  dsimp only
  split <;> rfl

theorem ignored_writeChange {wasTerminal : Bool} {queueScore : Option Time}
    (h : writeChange env i wasTerminal r queueScore now s = .ok s') : s'.ignored = s.ignored := by
  obtain ⟨stored, -, ⟨-, rfl⟩ | ⟨-, d, -, rfl⟩ | ⟨-, -, rfl⟩ | ⟨-, score, -, rfl⟩⟩ :=
    writeChange_cases h
  · unfold Store.close
    dsimp only
    split <;> split <;> rfl
  all_goals rfl

/-- What a transaction does to the marker of one execution: nothing, or it marks an
execution that was open. -/
theorem ignored_of_transaction (h : Transaction env now s op s') (i : String) :
    s'.ignored i = s.ignored i ∨ (s.closed i = false ∧ s'.ignored i = true ∧ s'.jobs = s.jobs) := by
  cases h with
  | unchanged | swept | unqueued | claimed | acknowledged | staged | popped => exact .inl rfl
  | accepted => exact .inl (by rw [ignored_accept])
  | changed _ _ _ _ hw => exact .inl (by rw [ignored_writeChange hw])
  | @ignored q record staged _ hopen =>
      by_cases hi : i = record.identity env.sha256
      · subst hi
        exact .inr ⟨hopen, by simp [Store.ignore, Store.setIgnored], rfl⟩
      · exact .inl (by simp [Store.ignore, Store.setIgnored, Store.dropBatches, hi])

/-- A record appears only under an execution that was open. -/
theorem closed_eq_false_of_new (h : Transaction env now s op s') (hnone : s.jobs i = none)
    (hr : s'.jobs i = some r) : s.closed i = false := by
  have hstep := recordStep_of_transaction h i
  rw [hnone, hr] at hstep
  cases h with
  | unchanged | ignored | swept | unqueued | staged | popped => cases hnone.symm.trans hr
  | @accepted q record stored staged _ hopen _ _ =>
      by_cases hi : i = record.identity env.sha256
      · exact hi ▸ hopen
      · rw [jobs_accept, jobs_setJob_ne hi, hnone] at hr
        cases hr
  | claimed | acknowledged => cases hstep
  | changed htarget =>
      cases hstep with
      | registered => cases htarget

/-- An ignored execution has no record. -/
def IgnoredEmpty (s : Store) : Prop := ∀ i, s.ignored i = true → s.jobs i = none

theorem reached_ignoredEmpty {w : World} (h : Reached env w) : IgnoredEmpty w.store := by
  refine h.invariant (P := fun w => IgnoredEmpty w.store) ?_ ?_
  · rintro ⟨clock, s⟩ rfl i hi
    cases hi
  · rintro w e w' hempty ⟨-, rfl⟩ i hi
    have htrans := transaction_after env e.time w.store e.op
    rcases ignored_of_transaction htrans i with hsame | ⟨hopen, -, hjobs⟩
    · have hnone := hempty i (hsame ▸ hi)
      cases hr : (w.next env e).store.jobs i with
      | none => rfl
      | some r =>
          have hopen := closed_eq_false_of_new htrans hnone hr
          simp only [Store.closed, Bool.or_eq_false_iff] at hopen
          have hi' : w.store.ignored i = true := hsame ▸ hi
          rw [hopen.2] at hi'
          cases hi'
    · exact (congrFun hjobs i).trans (Store.jobs_eq_none_of_closed hopen)

/-- Closing is for good. -/
theorem closed_of_transaction (h : Transaction env now s op s') (hclosed : s.closed i = true) :
    s'.closed i = true := by
  simp only [Store.closed, Bool.or_eq_true] at hclosed ⊢
  rcases hclosed with hjob | hign
  · obtain ⟨raw, hraw⟩ := Option.isSome_iff_exists.mp hjob
    have hstep := recordStep_of_transaction h i
    rw [hraw] at hstep
    obtain ⟨stored, hstored, -⟩ := hstep.sameExecution
    exact .inl (by rw [hstored]; rfl)
  · rcases ignored_of_transaction h i with hsame | ⟨-, hmarked, -⟩
    · exact .inr (hsame.trans hign)
    · exact .inr hmarked

theorem ignored_of_run {w w' : World} {es : List Event} (h : Run (Step env) w es w')
    (hi : w.store.ignored i = true) : w'.store.ignored i = true := by
  refine h.preserves (P := fun w => w.store.ignored i = true) ?_ hi
  rintro w e w' hi ⟨-, rfl⟩
  rcases ignored_of_transaction (transaction_after ..) i with hsame | ⟨-, hmarked, -⟩
  · exact hsame.trans hi
  · exact hmarked

end

/-! ### Registering -/

def Intake.identity (env : Env) (q : Intake) : String :=
  Jobs.identity env.sha256 q.tripId q.kind q.executionId

/-- The event accepts a registration of the execution `i`. -/
def accepts (env : Env) (i : String) (w : World) (e : Event) : Bool :=
  match e.op, perform env e.time w.store e.op with
  | .register q, .ok (.register .accepted, _) => decide (q.identity env = i)
  | _, _ => false

section

variable {now : Time} {s s' : Store} {i : String} {q : Intake} {record : JobRecord}

theorem Intake.record_identity (h : q.record env = .ok record) :
    record.identity env.sha256 = q.identity env := by
  obtain ⟨ht, hk, he, -⟩ := Intake.record_cases h
  simp [JobRecord.identity, Intake.identity, ht, hk, he]

/-- The receiver can always build the record it registers. -/
theorem Intake.record_ok (env : Env) (q : Intake) : ∃ record, q.record env = .ok record := by
  unfold Intake.record
  split
  · refine ⟨_, terminate_notice q.bounded_blank (by decide) (by simp) ?_⟩
    rintro b ⟨⟩
    exact small_invalidRequest
  · exact ⟨_, rfl⟩

/-- A registration by the reply it gets. -/
theorem perform_register_cases {reply : Reply}
    (h : perform env now s (.register q) = .ok (reply, s')) :
    (reply = .register .duplicate ∧ s.closed (q.identity env) = true ∧ s' = s) ∨
    (reply = .register .busy ∧ s.closed (q.identity env) = false ∧
      ∃ staged, s' = s.ignore (q.identity env) staged) ∨
    (reply = .register .accepted ∧ s.closed (q.identity env) = false ∧
      ∃ staged stored, s' = s.accept (q.identity env) stored staged now) := by
  obtain ⟨record, hrec, h⟩ := except_bind_eq_ok.mp h
  obtain ⟨⟨reply', s''⟩, hreg, h⟩ := except_bind_eq_ok.mp h
  cases h
  rw [← Intake.record_identity hrec]
  rcases register_cases hreg with ⟨rfl, hclosed, rfl⟩ | ⟨rfl, hopen, -, staged, -, rfl⟩ |
    ⟨rfl, hopen, -, staged, stored, -, -, rfl⟩
  · exact .inl ⟨rfl, hclosed, rfl⟩
  · exact .inr (.inl ⟨rfl, hopen, staged, rfl⟩)
  · exact .inr (.inr ⟨rfl, hopen, staged, stored, rfl⟩)

/-- A registration of a closed execution is a duplicate and changes nothing. -/
theorem perform_register_closed (hclosed : s.closed (q.identity env) = true) :
    perform env now s (.register q) = .ok (.register .duplicate, s) := by
  obtain ⟨record, hrec⟩ := Intake.record_ok env q
  have hreg : register env record now s = .ok (.duplicate, s) := by
    simp [register, Intake.record_identity hrec, hclosed]
  exact except_bind_eq_ok.mpr ⟨record, hrec, except_bind_eq_ok.mpr ⟨_, hreg, rfl⟩⟩

/-- Registrations still to be accepted for an execution: one while it is open. -/
def openings (i : String) (w : World) : Nat := if w.store.closed i then 0 else 1

theorem accepts_openings (w : World) (e : Event) (i : String) :
    (if accepts env i w e then 1 else 0) + openings i (w.next env e) ≤ openings i w := by
  unfold openings
  cases hclosed : w.store.closed i with
  | true =>
      have hafter : (w.next env e).store.closed i = true :=
        closed_of_transaction (transaction_after ..) hclosed
      have hno : accepts env i w e = false := by
        unfold accepts
        split
        · rename_i q s' hop hperf
          rw [hop] at hperf
          apply decide_eq_false
          rintro rfl
          rw [perform_register_closed hclosed] at hperf
          cases hperf
        · rfl
      simp [hafter, hno]
  | false =>
      cases hacc : accepts env i w e with
      | false => simp; split <;> omega
      | true =>
          have hafter : (w.next env e).store.closed i = true := by
            unfold accepts at hacc
            split at hacc
            · rename_i q s' hop hperf
              obtain rfl := of_decide_eq_true hacc
              have hstore : (w.next env e).store = s' := by
                simp [World.next, after, hperf]
              rw [hop] at hperf
              rcases perform_register_cases hperf with ⟨h, -⟩ | ⟨h, -⟩ | ⟨-, -, staged, stored, rfl⟩
              · cases h
              · cases h
              · rw [hstore]
                simp [Store.closed]
            · cases hacc
          simp [hafter]

/-- A claim returns the record of an execution that has one. -/
theorem claimed_isSome {kind : JobKind} {owner : String} {stop : Bool} {score : Time}
    (hkeyed : Keyed env s)
    (h : perform env now s (.claim kind owner stop) = .ok (.claim (.claimed record score), s')) :
    (s.jobs (record.identity env.sha256)).isSome = true := by
  obtain ⟨⟨reply, s''⟩, hclaim, h⟩ := except_bind_eq_ok.mp h
  cases h
  obtain ⟨slot, identity, raw, found, stored, -, -, -, -, hraw, hload, -, rfl, -, -⟩ :=
    (claim_cases hclaim).2 record score rfl
  have hsame := JobRecord.SameExecution.of_core (JobRecord.load_core hload)
  have hid : (found.start owner now).identity env.sha256 = identity :=
    (hsame.identity_eq env.sha256).trans (hkeyed identity raw hraw)
  rw [hid, hraw]
  rfl

end

/-- What registration guarantees in a world and in every run that continues it. -/
structure RegistrationSound (env : Env) (w : World) : Prop where
  /-- The latest pointer of a trip names its live record. -/
  current : ∀ i r, w.store.jobs i = some r → r.status.terminal = false →
    w.store.latest r.kind r.tripId = some i
  single : ∀ i j r r', w.store.jobs i = some r → w.store.jobs j = some r' →
    r.status.terminal = false → r'.status.terminal = false →
    r.tripId = r'.tripId → r.kind = r'.kind → i = j
  /-- An execution is registered at most once, and not at all once it has a record. -/
  once : ∀ es w' i, Run (Step env) w es w' →
    tally (World.next env) (accepts env i) w es ≤ if (w.store.jobs i).isSome then 0 else 1
  /-- An execution answered `busy` never gets a record and is never claimed. -/
  busy : ∀ q now s', w.clock ≤ now →
    perform env now w.store (.register q) = .ok (.register .busy, s') →
    ∀ es w', Run (Step env) ⟨now, s'⟩ es w' →
      w'.store.jobs (q.identity env) = none ∧
      ∀ now' kind owner stop record score s'',
        perform env now' w'.store (.claim kind owner stop) =
          .ok (.claim (.claimed record score), s'') →
        record.identity env.sha256 ≠ q.identity env
  /-- A redelivery is answered `duplicate` and changes nothing. -/
  duplicate : ∀ q now,
    (w.store.jobs (q.identity env)).isSome = true ∨ w.store.ignored (q.identity env) = true →
    perform env now w.store (.register q) = .ok (.register .duplicate, w.store)

/-- **Single live execution.** In every world reached, whatever was registered,
redelivered, claimed and ended in whatever order. -/
theorem reached_registrationSound {w : World} (h : Reached env w) : RegistrationSound env w where
  current := reached_current h
  single i j r r' hr hr' hlive hlive' htrip hkind := by
    have hi := reached_current h i r hr hlive
    have hj := reached_current h j r' hr' hlive'
    rw [htrip, hkind, hj] at hi
    exact (Option.some.inj hi).symm
  once es w' i _ := by
    refine (tally_le (I := fun _ => True) (openings i) (fun _ _ _ => trivial)
      (fun w e _ => accepts_openings w e i) trivial es).trans ?_
    unfold openings Store.closed
    cases (w.store.jobs i).isSome <;> simp
    split <;> omega
  busy q now s' hnow hbusy es w' hrun := by
    have hstep : Step env w ⟨now, .register q⟩ ⟨now, s'⟩ :=
      ⟨hnow, by simp [World.next, after, hbusy]⟩
    have hreached := (h.next hstep).run hrun
    have hmarked : s'.ignored (q.identity env) = true := by
      rcases perform_register_cases hbusy with ⟨h, -⟩ | ⟨-, -, staged, rfl⟩ | ⟨h, -⟩
      · cases h
      · simp [Store.ignore, Store.setIgnored]
      · cases h
    have hnone := reached_ignoredEmpty hreached _ (ignored_of_run hrun hmarked)
    refine ⟨hnone, ?_⟩
    intro now' kind owner stop record score s'' hclaim heq
    have hsome := claimed_isSome (reached_keyed hreached) hclaim
    rw [heq, hnone] at hsome
    cases hsome
  duplicate q now hclosed :=
    perform_register_closed (by simpa [Store.closed] using hclosed)

/-- While the story of `sampleWorld` runs, another one for its trip is busy. -/
theorem registrationSound_sampleWorld :
    RegistrationSound sampleEnv sampleWorld ∧
      (perform sampleEnv 3 sampleWorld.store (.register (sampleIntake "e2"))).map
        (fun p => match p.1 with
          | .register reply => some reply
          | _ => none) = .ok (some .busy) :=
  ⟨reached_registrationSound reached_sampleWorld, by rfl⟩

end Yeodam.Jobs
