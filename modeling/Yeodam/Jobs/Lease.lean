/-
Leases: who may write a running record, and until when.

`owns` and the two tests of `recover` are written separately in the source;
`owns_iff_deadline` and `recover_iff_deadline` put both on the one deadline the
`running` index also holds, so they are exact complements. An owner that no longer
owns a record never owns it again (`notOwned_of_step`), because only a claim with its
token could give it back.
-/

import Yeodam.Jobs.Indexes
import Yeodam.Jobs.Registration

namespace Yeodam.Jobs

open Yeodam.Lib

variable {env : Env}

/-! ### The two sides of the deadline -/

section

variable {now : Time} {s s' : Store} {op : Op} {i j owner : String} {r r' : JobRecord}

theorem JobRecord.deadline_eq_some {deadline : Time} :
    r.deadline env = some deadline ↔ ∃ heartbeat started, r.heartbeatAt = some heartbeat ∧
      r.startedAt = some started ∧
      min (heartbeat + env.cfg.jobsLeaseSec) (started + env.cfg.jobTimeout r.kind) = deadline := by
  unfold JobRecord.deadline
  cases r.heartbeatAt <;> cases r.startedAt <;> simp

/-- The owner's side: strictly before the deadline. -/
theorem owns_iff_deadline : owns env r owner now = true ↔
    r.status = .processing ∧ r.owner = some owner ∧
      ∃ deadline, r.deadline env = some deadline ∧ now < deadline := by
  rw [owns_iff]
  refine and_congr_right fun _ => and_congr_right fun _ => ?_
  constructor
  · rintro ⟨heartbeat, started, hh, ht, hlt, hlt'⟩
    exact ⟨_, JobRecord.deadline_eq_some.mpr ⟨heartbeat, started, hh, ht, rfl⟩, lt_min hlt hlt'⟩
  · rintro ⟨deadline, hd, hlt⟩
    obtain ⟨heartbeat, started, hh, ht, rfl⟩ := JobRecord.deadline_eq_some.mp hd
    exact ⟨heartbeat, started, hh, ht, (lt_min_iff.mp hlt).1, (lt_min_iff.mp hlt).2⟩

/-- The recoverer's side: from the deadline on. -/
theorem recover_iff_deadline {deadline : Time} (hd : r.deadline env = some deadline) :
    (timedOut env r now || dead env r now) = true ↔ deadline ≤ now := by
  obtain ⟨heartbeat, started, hh, ht, rfl⟩ := JobRecord.deadline_eq_some.mp hd
  simp only [timedOut, dead, hh, ht, Option.any_some, Bool.or_eq_true, decide_eq_true_eq,
    min_le_iff]
  exact or_comm

/-- `finish` acts on a record, rather than declining, exactly for its owner. -/
theorem finishUpdate_ne_none {status : TerminalStatus} {result : Option Value}
    {error : Option ErrorBody} :
    finishUpdate env owner status result error r now ≠ .ok none ↔ owns env r owner now = true := by
  unfold finishUpdate
  constructor
  · intro h
    by_contra hno
    simp [hno] at h
  · intro howns h
    rw [if_pos howns] at h
    split at h
    all_goals
      obtain ⟨_, -, hnone⟩ := except_map_eq_ok.mp h
      cases hnone

/-- `recover` acts on a running record exactly when it is late. -/
theorem recoverUpdate_ne_none (hs : r.status = .processing) :
    recoverUpdate env r now ≠ .ok none ↔ (timedOut env r now || dead env r now) = true := by
  unfold recoverUpdate
  rw [if_neg (not_not.mpr hs)]
  constructor
  · intro h
    by_contra hno
    simp only [Bool.or_eq_true, not_or, Bool.not_eq_true] at hno
    simp [hno.1, hno.2] at h
  · intro hlate h
    rw [if_neg (by cases ht : timedOut env r now <;> simp_all)] at h
    obtain ⟨_, -, hnone⟩ := except_map_eq_ok.mp h
    cases hnone

/-! ### What the owner of a claim can do -/

theorem owns_eq_of_core (h : r.core = r'.core) : owns env r owner now = owns env r' owner now :=
  (congrArg (fun r => owns env r owner now) h :
    owns env r.core owner now = owns env r'.core owner now)

/-- An edit made for a claim is made by the owner, in time. -/
theorem Edit.owned {queueScore : Option Time} (h : Edit env now op r r' queueScore)
    (hcaller : op.caller = some owner) : owns env r owner now = true := by
  cases h with
  | renew howns | report howns | finish howns | giveBack howns =>
      cases hcaller
      exact howns
  | stop hcaller' howns =>
      rw [hcaller] at hcaller'
      cases hcaller'
      exact howns
  | flag | cancelQueued | recover | leaseResult => cases hcaller

/-- An operation of a claim leaves the store alone, or its owner owns the record it
goes for. -/
theorem after_eq_or_owns (hcaller : op.caller = some owner) (htarget : op.target = some i) :
    after env now op s = s ∨ ∃ raw, s.jobs i = some raw ∧ owns env raw owner now = true := by
  have h := transaction_after env now s op
  generalize after env now op s = s' at h
  cases h with
  | unchanged => exact .inl rfl
  | changed htarget' hraw hload hedit =>
      rw [htarget] at htarget'
      cases htarget'
      refine .inr ⟨_, hraw, ?_⟩
      rw [← owns_eq_of_core (JobRecord.load_core hload)]
      exact hedit.owned hcaller
  | _ => cases hcaller

/-- An operation that names an execution touches no other one. -/
theorem after_frame (htarget : op.target = some i) (hne : j ≠ i) :
    (after env now op s).jobs j = s.jobs j ∧
      (after env now op s).placement j = s.placement j := by
  have h := transaction_after env now s op
  generalize after env now op s = s' at h
  cases h with
  | unchanged => exact ⟨rfl, rfl⟩
  | changed htarget' _ _ _ hw =>
      rw [htarget] at htarget'
      cases htarget'
      obtain ⟨stored, -, hjobs⟩ := jobs_writeChange hw
      exact ⟨by rw [hjobs, jobs_setJob_ne hne], placement_writeChange_ne hne hw⟩
  | acknowledged =>
      cases htarget
      exact ⟨jobs_setJob_ne hne, by rw [placement_removePending_ne hne, placement_setJob_ne hne]⟩
  | _ => cases htarget

/-! ### A running record has an owner and a deadline -/

/-- A running record names the claim it runs for. -/
def JobRecord.Owned (r : JobRecord) : Prop := r.status = .processing → r.owner.isSome = true

theorem JobRecord.Owned.of_core (h : r.Owned) (hcore : r'.core = r.core) : r'.Owned := by
  intro hs
  have howner : r'.owner = r.owner :=
    (congrArg JobRecord.owner hcore : r'.core.owner = r.core.owner)
  rw [howner]
  exact h ((JobRecord.status_eq_of_core hcore).symm.trans hs)

theorem RecordStep.owned {before : Option JobRecord} {stored : JobRecord}
    (hbefore : ∀ raw, before = some raw → raw.Owned)
    (h : RecordStep env now i op before (some stored)) : stored.Owned := by
  -- A record an edit ended, or gave back, is not running.
  have ended : ∀ {r : JobRecord}, r.status.terminal = true → r.Owned := by
    intro r hterm hs
    rw [hs] at hterm
    cases hterm
  cases h with
  | keep => exact hbefore stored rfl
  | registered hrec _ hdump =>
      refine JobRecord.Owned.of_core ?_ (JobRecord.dump_core hdump)
      intro hs
      obtain ⟨-, -, -, -, ⟨hs', -⟩ | ⟨hterm, -⟩⟩ := Intake.record_cases hrec
      · cases hs'.symm.trans hs
      · exact ended hterm hs
  | started _ _ hdump => exact JobRecord.Owned.of_core (fun _ => rfl) (JobRecord.dump_core hdump)
  | @acknowledged _ _ record _ hload _ hdump =>
      have hraw := (hbefore _ rfl).of_core (JobRecord.load_core hload)
      have hdone : JobRecord.Owned { record with published := true } := hraw
      exact hdone.of_core (JobRecord.dump_core hdump)
  | edited _ hload hedit hdump =>
      have hraw := (hbefore _ rfl).of_core (JobRecord.load_core hload)
      refine JobRecord.Owned.of_core ?_ (JobRecord.dump_core hdump)
      cases hedit with
      | renew | report | flag | leaseResult => exact hraw
      | giveBack => intro hs; cases hs
      | finish _ _ hterm => exact ended (terminate_ends hterm).2.2.1
      | stop _ _ _ hterm => exact ended (terminate_ends hterm).2.2.1
      | cancelQueued _ hterm => exact ended (terminate_ends hterm).2.2.1
      | recover _ _ hterm => exact ended (terminate_ends hterm).2.2.1

/-! ### A claim that is over -/

/-- The claim with this token does not hold the record of `i`. -/
def NotOwned (env : Env) (owner i : String) (w : World) : Prop :=
  ∀ r, w.store.jobs i = some r → owns env r owner w.clock = false

/-- What is not owned now is not owned later. -/
theorem owns_eq_false_of_le {now' : Time} (h : owns env r owner now = false) (hle : now ≤ now') :
    owns env r owner now' = false := by
  rw [Bool.eq_false_iff] at h ⊢
  intro hown
  obtain ⟨hs, ho, deadline, hd, hlt⟩ := owns_iff_deadline.mp hown
  exact h (owns_iff_deadline.mpr ⟨hs, ho, deadline, hd, hle.trans_lt hlt⟩)

theorem owns_eq_false_of_status (h : r.status ≠ .processing) : owns env r owner now = false := by
  simp [owns, h]

theorem owns_eq_false_of_owner (h : r.owner ≠ some owner) : owns env r owner now = false := by
  simp [owns, h]

/-- **Step lemma.** No operation but a claim with its token gives a record back to an
owner that lost it. -/
theorem RecordStep.notOwned {before : Option JobRecord} {stored : JobRecord}
    (hbefore : ∀ raw, before = some raw → owns env raw owner now = false)
    (hno : ∀ kind stop, op ≠ .claim kind owner stop)
    (h : RecordStep env now i op before (some stored)) : owns env stored owner now = false := by
  have ended : ∀ {r : JobRecord}, r.status.terminal = true → owns env r owner now = false := by
    intro r hterm
    apply owns_eq_false_of_status
    intro hs
    rw [hs] at hterm
    cases hterm
  cases h with
  | keep => exact hbefore stored rfl
  | registered hrec _ hdump =>
      rw [owns_eq_of_core (JobRecord.dump_core hdump)]
      apply owns_eq_false_of_status
      intro hs
      obtain ⟨-, -, -, -, ⟨hs', -⟩ | ⟨hterm, -⟩⟩ := Intake.record_cases hrec
      · cases hs'.symm.trans hs
      · rw [hs] at hterm
        cases hterm
  | @started kind owner' stop _ _ _ _ _ hdump =>
      rw [owns_eq_of_core (JobRecord.dump_core hdump)]
      refine owns_eq_false_of_owner fun ho => hno kind stop ?_
      cases ho
      rfl
  | acknowledged hload _ hdump =>
      rw [owns_eq_of_core (JobRecord.dump_core hdump)]
      have hraw := hbefore _ rfl
      rw [← owns_eq_of_core (JobRecord.load_core hload)] at hraw
      exact hraw
  | @edited _ _ record changed _ _ _ hload hedit hdump =>
      rw [owns_eq_of_core (JobRecord.dump_core hdump)]
      have hraw := hbefore _ rfl
      rw [← owns_eq_of_core (JobRecord.load_core hload)] at hraw
      -- The owner that renews or reports owns the record, so it is another one.
      have other : ∀ {owner' : String} {changed : JobRecord}, owns env record owner' now = true →
          changed.owner = record.owner → owns env changed owner now = false := by
        intro owner' changed howns hsame
        apply owns_eq_false_of_owner
        intro ho
        have howner := (owns_iff.mp howns).2.1
        rw [← hsame, ho] at howner
        cases howner
        rw [howns] at hraw
        cases hraw
      cases hedit with
      | renew howns => exact other howns rfl
      | report howns => exact other howns rfl
      | flag | leaseResult => exact hraw
      | giveBack => exact owns_eq_false_of_status (fun hs => nomatch hs)
      | finish _ _ hterm => exact ended (terminate_ends hterm).2.2.1
      | stop _ _ _ hterm => exact ended (terminate_ends hterm).2.2.1
      | cancelQueued _ hterm => exact ended (terminate_ends hterm).2.2.1
      | recover _ _ hterm => exact ended (terminate_ends hterm).2.2.1

theorem notOwned_of_step {w w' : World} {e : Event} (h : NotOwned env owner i w)
    (hno : ∀ kind stop, e.op ≠ .claim kind owner stop) (hstep : Step env w e w') :
    NotOwned env owner i w' := by
  intro r hr
  have hrec := recordStep_of_step hstep i
  rw [hr] at hrec
  obtain ⟨hle, rfl⟩ := hstep
  exact hrec.notOwned (fun raw hraw => owns_eq_false_of_le (h raw hraw) hle) hno

/-! ### Tokens -/

/-- The tokens the claims of a schedule draw. -/
def tokens (es : List Event) : List String :=
  es.filterMap fun e => match e.op with
    | .claim _ owner _ => some owner
    | _ => none

/-- **Run lemma.** A claim that is over stays over while its token is not drawn again. -/
theorem notOwned_of_run {w w' : World} {es : List Event} (h : Run (Step env) w es w')
    (hno : owner ∉ tokens es) (hw : NotOwned env owner i w) : NotOwned env owner i w' := by
  induction h with
  | refl => exact hw
  | @cons s t u e es first _ ih =>
      refine ih (fun hmem => hno ?_) (notOwned_of_step hw ?_ first)
      · obtain ⟨e', he', htoken⟩ := List.mem_filterMap.mp hmem
        exact List.mem_filterMap.mpr ⟨e', List.mem_cons_of_mem _ he', htoken⟩
      · intro kind stop hop
        exact hno (List.mem_filterMap.mpr ⟨e, List.mem_cons_self, by rw [hop]⟩)

/-! ### Terminal transitions -/

def Store.terminal (s : Store) (i : String) : Bool :=
  (s.jobs i).any fun r => r.status.terminal

/-- The event ends the execution `i`. -/
def terminates (env : Env) (i : String) (w : World) (e : Event) : Bool :=
  !w.store.terminal i && (w.next env e).store.terminal i

theorem terminal_of_transaction (h : Transaction env now s op s') (hterm : s.terminal i = true) :
    s'.terminal i = true := by
  obtain ⟨raw, hraw, hterm⟩ := (Option.any_eq_true _ _).mp hterm
  have hstep := recordStep_of_transaction h i
  rw [hraw] at hstep
  obtain ⟨stored, hstored, -⟩ := hstep.sameExecution
  rw [hstored] at hstep
  refine (Option.any_eq_true _ _).mpr ⟨stored, hstored, ?_⟩
  rw [hstep.status_of_terminal hterm]
  exact hterm

/-- Terminal transitions an execution may still make. -/
def endings (i : String) (w : World) : Nat := if w.store.terminal i then 0 else 1

theorem terminates_endings (w : World) (e : Event) (i : String) :
    (if terminates env i w e then 1 else 0) + endings i (w.next env e) ≤ endings i w := by
  unfold endings terminates
  cases hterm : w.store.terminal i with
  | true =>
      have hafter : (w.next env e).store.terminal i = true :=
        terminal_of_transaction (transaction_after ..) hterm
      simp [hafter]
  | false => cases (w.next env e).store.terminal i <;> simp

end

/-! ### Fencing -/

/-- What leases guarantee in the world a schedule led to. -/
structure LeaseFenced (env : Env) (es : List Event) (w : World) : Prop where
  /-- A call made for a claim changes something only if it is made by the current owner
  of a running record, strictly before the deadline. -/
  guarded : ∀ now op owner i, op.caller = some owner → op.target = some i →
    after env now op w.store ≠ w.store →
    ∃ r heartbeat started, w.store.jobs i = some r ∧ r.status = .processing ∧
      r.owner = some owner ∧ r.heartbeatAt = some heartbeat ∧ r.startedAt = some started ∧
      now < min (heartbeat + env.cfg.jobsLeaseSec) (started + env.cfg.jobTimeout r.kind)
  /-- At every time either the owner may finish a running record or `recover` may fail it. -/
  exclusive : ∀ i r now, w.store.jobs i = some r → r.status = .processing →
    ∃ owner, r.owner = some owner ∧ ∀ status result error,
      Xor (finishUpdate env owner status result error r now ≠ .ok none)
        (recoverUpdate env r now ≠ .ok none)
  /-- The index shows `recover` the running records it may fail, and only these. -/
  scanned : ∀ i r now, w.store.jobs i = some r → r.status = .processing →
    ((∃ score, w.store.running.score? i = some score ∧ score ≤ now) ↔
      recoverUpdate env r now ≠ .ok none)
  /-- An execution ends at most once, and not again once it has ended. -/
  once : ∀ es' w' i, Run (Step env) w es' w' →
    tally (World.next env) (terminates env i) w es' ≤ if w.store.terminal i then 0 else 1
  /-- An owner that lost its record never changes it again, nor anything else through it. -/
  fenced : ∀ owner i, owner ∈ tokens es → NotOwned env owner i w →
    ∀ es' w', Run (Step env) w es' w' → (tokens (es ++ es')).Nodup →
    ∀ now op, w'.clock ≤ now → op.caller = some owner → op.target = some i →
      after env now op w'.store = w'.store
  /-- A call for one execution leaves every other one alone: record, indexes and slots. -/
  frame : ∀ now op owner i j, op.caller = some owner → op.target = some i → j ≠ i →
    (after env now op w.store).jobs j = w.store.jobs j ∧
      (after env now op w.store).placement j = w.store.placement j

/-- **Lease fencing.** Along every run, with tokens drawn once. -/
theorem run_leaseFenced {w₀ w : World} {es : List Event} (h₀ : Initial w₀)
    (hrun : Run (Step env) w₀ es w) : LeaseFenced env es w := by
  have hreached : Reached env w := ⟨w₀, es, h₀, hrun⟩
  have hdeadline : ∀ i r, w.store.jobs i = some r → r.status = .processing →
      ∃ deadline, r.deadline env = some deadline ∧ w.store.running.score? i = some deadline := by
    intro i r hr hs
    obtain ⟨heartbeat, started, hh, ht, hscore⟩ := (reached_located hreached i).running_score hr hs
    exact ⟨_, JobRecord.deadline_eq_some.mpr ⟨heartbeat, started, hh, ht, rfl⟩, hscore⟩
  constructor
  case guarded =>
    intro now op owner i hcaller htarget hne
    rcases after_eq_or_owns hcaller htarget with hsame | ⟨r, hr, howns⟩
    · exact absurd hsame hne
    · obtain ⟨hs, ho, heartbeat, started, hh, ht, hlt, hlt'⟩ := owns_iff.mp howns
      exact ⟨r, heartbeat, started, hr, hs, ho, hh, ht, lt_min hlt hlt'⟩
  case exclusive =>
    intro i r now hr hs
    have howned : r.Owned := reached_record (P := fun _ r => r.Owned) RecordStep.owned hreached hr
    obtain ⟨owner, howner⟩ := Option.isSome_iff_exists.mp (howned hs)
    obtain ⟨deadline, hd, -⟩ := hdeadline i r hr hs
    refine ⟨owner, howner, fun status result error => ?_⟩
    rw [finishUpdate_ne_none, recoverUpdate_ne_none hs, recover_iff_deadline hd,
      owns_iff_deadline]
    rcases lt_or_ge now deadline with hlt | hge
    · exact .inl ⟨⟨hs, howner, deadline, hd, hlt⟩, not_le.mpr hlt⟩
    · refine .inr ⟨hge, ?_⟩
      rintro ⟨-, -, deadline', hd', hlt⟩
      rw [hd] at hd'
      cases hd'
      exact absurd hge (not_le.mpr hlt)
  case scanned =>
    intro i r now hr hs
    obtain ⟨deadline, hd, hscore⟩ := hdeadline i r hr hs
    rw [recoverUpdate_ne_none hs, recover_iff_deadline hd, hscore]
    simp
  case once =>
    intro es' w' i _
    exact tally_le (I := fun _ => True) (endings i) (fun _ _ _ => trivial)
      (fun w e _ => terminates_endings w e i) trivial es'
  case fenced =>
    intro owner i howner hlost es' w' hrun' hnodup now op hle hcaller htarget
    have hno : owner ∉ tokens es' := by
      have happend : tokens (es ++ es') = tokens es ++ tokens es' := List.filterMap_append
      rw [happend] at hnodup
      exact fun hmem => List.disjoint_of_nodup_append hnodup howner hmem
    have hlost' := notOwned_of_run hrun' hno hlost
    rcases after_eq_or_owns hcaller htarget with hsame | ⟨r, hr, howns⟩
    · exact hsame
    · rw [owns_eq_false_of_le (hlost' r hr) hle] at howns
      cases howns
  case frame =>
    intro now op owner i j _ htarget hne
    exact after_frame htarget hne

/-- In `sampleWorld` the owner may finish the story until 122, and `recover` may fail it
from then on. -/
theorem leaseFenced_sampleWorld :
    LeaseFenced sampleEnv sampleSchedule sampleWorld ∧
      (∃ r, sampleWorld.store.jobs sampleIdentity = some r ∧
        owns sampleEnv r "worker:1" 121 = true ∧ owns sampleEnv r "worker:1" 122 = false) :=
  ⟨run_leaseFenced (show Initial ⟨0, .initial⟩ from rfl) (run_replay (by decide +kernel)),
    _, rfl, by decide +kernel, by decide +kernel⟩

end Yeodam.Jobs
