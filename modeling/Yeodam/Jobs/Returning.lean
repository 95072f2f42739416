/-
Returning a job that was claimed and not started (`claim` and `return_unstarted` in
`app/jobs/redis_store.py`).

`returnUnstarted_undoes`: while its lease lasts, the return leads back to the very store the
claim found. A record that waits carries no owner, no times and no request to cancel
(`JobRecord.Fresh`, kept by every step), so that taking these back restores it; and the claim
changed no index but for the entries of this job (`requeue_occupy`). After a cancel of the job
the return ends it as canceled.
-/

import Yeodam.Jobs.Cancellation
import Yeodam.Jobs.Slots

namespace Yeodam.Jobs

open Yeodam.Lib

variable {env : Env} {now : Time} {s s' : Store} {op : Op} {i owner slot : String} {kind : JobKind}
  {score : Time} {r r' raw record stored : JobRecord}

/-! ### Records that wait -/

/-- No claim has left anything in the record, and nobody asked to cancel it. -/
structure JobRecord.Fresh (r : JobRecord) : Prop where
  owner : r.owner = none
  startedAt : r.startedAt = none
  heartbeatAt : r.heartbeatAt = none
  cancelRequested : r.cancelRequested = false

/-- Waiting records are fresh. -/
def JobRecord.Waits (r : JobRecord) : Prop := r.status = .queued → r.Fresh

theorem JobRecord.Waits.of_core (h : r.Waits) (hcore : r'.core = r.core) : r'.Waits := by
  intro hs
  obtain ⟨howner, hstarted, hheartbeat, hcancel⟩ :=
    h ((JobRecord.status_eq_of_core hcore).symm.trans hs)
  exact ⟨(congrArg JobRecord.owner hcore : r'.core.owner = _).trans howner,
    (congrArg JobRecord.startedAt hcore : r'.core.startedAt = _).trans hstarted,
    (congrArg JobRecord.heartbeatAt hcore : r'.core.heartbeatAt = _).trans hheartbeat,
    (JobRecord.cancelRequested_eq_of_core hcore).trans hcancel⟩

theorem JobRecord.waits_of_terminal (h : r.status.terminal = true) : r.Waits := by
  intro hs
  rw [hs] at h
  cases h

theorem JobRecord.waits_of_processing (h : r.status = .processing) : r.Waits := by
  intro hs
  rw [hs] at h
  cases h

theorem Edit.waits {queueScore : Option Time} (h : Edit env now op r r' queueScore)
    (hr : r.Waits) : r'.Waits := by
  cases h with
  | renew howns => exact JobRecord.waits_of_processing (owns_iff.mp howns).1
  | report howns => exact JobRecord.waits_of_processing (owns_iff.mp howns).1
  | flag hs => exact JobRecord.waits_of_processing hs
  | finish _ _ hterm => exact JobRecord.waits_of_terminal (terminate_ends hterm).2.2.1
  | stop _ _ _ hterm => exact JobRecord.waits_of_terminal (terminate_ends hterm).2.2.1
  | cancelQueued _ hterm => exact JobRecord.waits_of_terminal (terminate_ends hterm).2.2.1
  | recover _ _ hterm => exact JobRecord.waits_of_terminal (terminate_ends hterm).2.2.1
  | giveBack _ hcancel => exact fun _ => ⟨rfl, rfl, rfl, hcancel⟩
  | leaseResult => exact fun hs => ⟨(hr hs).1, (hr hs).2, (hr hs).3, (hr hs).4⟩

theorem RecordStep.waits {before : Option JobRecord}
    (hbefore : ∀ raw, before = some raw → raw.Waits)
    (h : RecordStep env now i op before (some stored)) : stored.Waits := by
  cases h with
  | keep => exact hbefore stored rfl
  | @registered q record _ hrec _ hdump =>
      have hrecord : JobRecord.Waits { record with createdAt := now } := by
        unfold Intake.record at hrec
        split at hrec
        · exact JobRecord.waits_of_terminal (terminate_ends hrec).2.2.1
        · cases hrec
          exact fun _ => ⟨rfl, rfl, rfl, rfl⟩
      exact hrecord.of_core (JobRecord.dump_core hdump)
  | @started _ owner _ raw record _ _ _ hdump =>
      have hrecord : (record.start owner now).Waits := JobRecord.waits_of_processing rfl
      exact hrecord.of_core (JobRecord.dump_core hdump)
  | edited _ hload hedit hdump =>
      have hrecord := (hbefore _ rfl).of_core (JobRecord.load_core hload)
      exact (hedit.waits hrecord).of_core (JobRecord.dump_core hdump)
  | @acknowledged _ raw record _ hload _ hdump =>
      have hrecord := (hbefore _ rfl).of_core (JobRecord.load_core hload)
      have hpublished : JobRecord.Waits { record with published := true } :=
        fun hs => ⟨(hrecord hs).1, (hrecord hs).2, (hrecord hs).3, (hrecord hs).4⟩
      exact hpublished.of_core (JobRecord.dump_core hdump)

theorem reached_waits {w : World} (h : Reached env w) (hr : w.store.jobs i = some r) : r.Waits :=
  reached_record (P := fun _ r => r.Waits) RecordStep.waits h hr

/-! ### The indexes a claim changes -/

/-- **Giving back what was taken** restores the store: the job was in its queue, ran nowhere and
held no slot. -/
theorem requeue_occupy (hraw : s.jobs i = some raw) (hkind : stored.kind = kind)
    (hslot : slot ∈ slotKeys kind) (hfree : s.slots slot = none)
    (hqueue : (s.queue kind).score? i = some score) (hrunning : s.running.score? i = none)
    (hheld : ∀ key, s.slots key ≠ some i) :
    ((s.occupy env slot i stored now).setJob i raw).requeue i kind score = s := by
  subst hkind
  have hjobs : Function.update (Function.update s.jobs i (some stored)) i (some raw) = s.jobs := by
    rw [Function.update_idem, ← hraw, Function.update_eq_self]
  have hqueues : Function.update (Function.update s.queue stored.kind
      ((s.queue stored.kind).remove i)) stored.kind
        (((Function.update s.queue stored.kind ((s.queue stored.kind).remove i)) stored.kind).add i
          score) = s.queue := by
    rw [Function.update_self, Function.update_idem, SortedSet.add_remove hqueue,
      Function.update_eq_self]
  have hslots : (fun key => if key ∈ slotKeys stored.kind ∧
      Function.update s.slots slot (some i) key = some i then none
        else Function.update s.slots slot (some i) key) = s.slots := by
    funext key
    by_cases hkey : key = slot
    · rw [hkey, Function.update_self, if_pos ⟨hslot, rfl⟩, hfree]
    · rw [Function.update_of_ne hkey, if_neg fun h => hheld key h.2]
  have hrun : (s.running.add i
      (now + min env.cfg.jobsLeaseSec (env.cfg.jobTimeout stored.kind))).remove i = s.running :=
    SortedSet.remove_add hrunning
  simp only [Store.requeue, Store.occupy, Store.enqueue, Store.releaseSlots, Store.removeRunning,
    Store.setJob, Store.addRunning, Store.setSlot, Store.dequeue, hjobs, hqueues, hslots, hrun]

/-! ### The job a claim takes -/

/-- A job first in its queue, and nowhere else. -/
structure Offered (env : Env) (s : Store) (kind : JobKind) (i : String) (raw : JobRecord)
    (score : Time) : Prop where
  job : s.jobs i = some raw
  placement : s.placement i =
    ⟨some raw.core, Function.update (fun _ => none) kind (some score), none, none, ∅⟩
  kind : raw.kind = kind
  status : raw.status = .queued
  fresh : raw.Fresh
  event : raw.event = none
  published : raw.published = false
  bounded : raw.Bounded
  identity : raw.identity env.sha256 = i
  written : raw.Written env
  readable : raw.nesting ≤ env.readNesting

theorem Offered.queued (h : Offered env s kind i raw score) :
    (s.queue kind).score? i = some score := by
  have hqueued := congrArg (fun p => p.queued kind) h.placement
  simpa [Store.placement] using hqueued

theorem Offered.running (h : Offered env s kind i raw score) : s.running.score? i = none :=
  congrArg Placement.running h.placement

theorem Offered.slots (h : Offered env s kind i raw score) (key : String) :
    s.slots key ≠ some i := by
  have hslots : {key | s.slots key = some i} = (∅ : Set String) :=
    congrArg Placement.slots h.placement
  intro hkey
  exact (Set.ext_iff.mp hslots key).mp hkey

/-- What a claim finds and leaves. -/
theorem claim_offered {w : World} (h : Reached env w)
    (hclaim : claim env kind owner false now w.store = .ok (.claimed record score, s')) :
    ∃ slot i raw, Offered env w.store kind i raw score ∧ slot ∈ slotKeys kind ∧
      w.store.slots slot = none ∧ record = raw.start owner now ∧
      ∃ stored, record.dump env = .ok stored ∧ s' = w.store.occupy env slot i stored now := by
  obtain ⟨-, hclaimed⟩ := claim_cases hclaim
  obtain ⟨slot, i, raw, found, stored, hslot, hfree, -, hfirst, hraw, hload, hs, rfl, hdump, rfl⟩ :=
    hclaimed record score rfl
  have hstatus : raw.status = .queued :=
    (JobRecord.status_eq_of_core (JobRecord.load_core hload)).symm.trans hs
  have houtcome := reached_outcome h hraw
  obtain ⟨rfl, hnesting⟩ := JobRecord.load_of_live houtcome (by rw [hstatus]; rfl) hload
  have hqueued : (w.store.queue kind).score? i = some score := SortedSet.first?_mem hfirst
  have hlocated := reached_located h i
  have hjob : (w.store.placement i).job = some found.core := by simp [Store.placement, hraw]
  have hindex : (w.store.placement i).queued kind = some score := hqueued
  have hplacement : w.store.placement i =
      ⟨some found.core, Function.update (fun _ => none) kind (some score), none, none, ∅⟩ ∧
      found.kind = kind ∧ found.Live := by
    generalize w.store.placement i = p at hlocated hjob hindex
    cases hlocated with
    | absent => cases hjob
    | @waiting r₀ score₀ _ hlive =>
        obtain rfl : r₀ = found.core := Option.some.inj hjob
        change Function.update (fun _ => none) found.kind (some score₀) kind = some score at hindex
        have hkind : found.kind = kind := by
          by_contra hne
          rw [Function.update_of_ne (fun heq => hne heq.symm)] at hindex
          cases hindex
        rw [hkind, Function.update_self] at hindex
        cases hindex
        exact ⟨by rw [JobRecord.core_kind, hkind], hkind, JobRecord.live_core.mp hlive⟩
    | running => cases hindex
    | ended => cases hindex
    | published => cases hindex
  obtain ⟨hplacement, hkind, hlive⟩ := hplacement
  exact ⟨slot, i, found,
    ⟨hraw, hplacement, hkind, hstatus, reached_waits h hraw hstatus,
      houtcome.event.mpr (by rw [hstatus]; rfl), hlive.published, reached_bounded h hraw,
      reached_keyed h i found hraw, reached_written h hraw, hnesting⟩,
    hslot, hfree, rfl, stored, hdump, rfl⟩

/-- Only the request of a record without an event is free-form, so that such a record is read
and written as it is. -/
theorem JobRecord.Written.same (h : raw.Written env) (hnesting : raw.nesting ≤ env.readNesting)
    (hevent : raw.event = none) (hrequest : r.request = raw.request) (hnone : r.event = none) :
    r.load env = .ok r ∧ r.dump env = .ok r := by
  have hsame : r.nesting = raw.nesting := by
    rw [JobRecord.nesting, JobRecord.nesting, hrequest, hevent, hnone]
  have hwire : r.wire = r := by
    obtain ⟨r₀, hdump⟩ := h
    obtain ⟨rfl, -, -⟩ := JobRecord.dump_cases hdump
    have hvalue : r.request.wire = r.request := by
      rw [hrequest]
      exact Value.wire_wire r₀.request
    cases r
    cases hnone
    simp only [JobRecord.wire, Option.map_none]
    rw [show (_ : Value).wire = _ from hvalue]
  have hencodable : r.encodable = true := by
    have henc := h.encodable
    rw [JobRecord.encodable, hevent] at henc
    rw [JobRecord.encodable, hnone, hrequest]
    exact henc
  constructor
  · rw [JobRecord.load, if_pos (hsame ▸ hnesting), hnone]
  · have hdump := JobRecord.dump_ok (hsame ▸ h.nesting_le) hencodable
    rwa [hwire] at hdump

/-- Whoever claims next, and whenever, takes the same job. -/
theorem claim_again (h : claim env kind owner false now s = .ok (.claimed record score, s'))
    (owner' : String) (now' : Time) :
    ∃ record' s'', claim env kind owner' false now' s = .ok (.claimed record' score, s'') ∧
      record'.identity env.sha256 = record.identity env.sha256 := by
  unfold claim at h ⊢
  dsimp only at h ⊢
  obtain ⟨stale, hstale, h⟩ := except_bind_eq_ok.mp h
  rw [hstale, except_ok_bind]
  split at h
  · cases h
  rename_i hfresh
  rw [if_neg hfresh]
  split at h
  · cases h
  rename_i hlimit
  rw [if_neg hlimit]
  split at h
  · cases h
  rename_i slot hslot
  split at h
  · cases h
  rename_i i score₀ hfirst
  obtain ⟨found, hget, h⟩ := except_bind_eq_ok.mp h
  rw [hget, except_ok_bind]
  split at h
  · cases h
  rename_i taken htaken
  rw [if_neg Bool.false_ne_true] at h
  obtain ⟨stored, hdump, h⟩ := except_bind_eq_ok.mp h
  cases h
  have hdump' : (taken.start owner' now').dump env = .ok (taken.start owner' now').wire := by
    obtain ⟨-, hnesting, hencodable⟩ := JobRecord.dump_cases hdump
    exact JobRecord.dump_ok hnesting hencodable
  refine ⟨taken.start owner' now',
    s.occupy env slot i (taken.start owner' now').wire now', ?_, rfl⟩
  rw [if_neg Bool.false_ne_true, hdump', except_ok_bind]

/-! ### Taking the claim back -/

section Back

theorem owns_start {t : Time} (hlease : t < now + env.cfg.jobsLeaseSec)
    (htimeout : t < now + env.cfg.jobTimeout raw.kind) :
    owns env (raw.start owner now) owner t = true :=
  owns_iff.mpr ⟨rfl, rfl, now, now, rfl, rfl, hlease, htimeout⟩

/-- The record as the return writes it is the one the claim read. -/
theorem JobRecord.start_back (hs : raw.status = .queued) (hfresh : raw.Fresh) :
    { raw.start owner now with
      status := .queued, owner := none, startedAt := none, heartbeatAt := none } = raw := by
  obtain ⟨howner, hstarted, hheartbeat, -⟩ := hfresh
  cases raw
  cases hs
  cases howner
  cases hstarted
  cases hheartbeat
  rfl

/-- The return of a claim that was just made. -/
theorem returnUnstarted_occupy (h : Offered env s kind i raw score) (hslot : slot ∈ slotKeys kind)
    (hfree : s.slots slot = none) {t : Time} (hlease : t < now + env.cfg.jobsLeaseSec)
    (htimeout : t < now + env.cfg.jobTimeout kind) :
    returnUnstarted env i owner score t (s.occupy env slot i (raw.start owner now) now) =
      .ok (some raw, s) := by
  have hjob : (s.occupy env slot i (raw.start owner now) now).jobs i =
      some (raw.start owner now) := jobs_setJob_self
  have hload : (raw.start owner now).load env = .ok (raw.start owner now) :=
    (h.written.same (r := raw.start owner now) h.readable h.event rfl h.event).1
  have hdump : raw.dump env = .ok raw := (h.written.same h.readable h.event rfl h.event).2
  have hupdate : returnUnstartedUpdate env owner (raw.start owner now) t = .ok (some raw) := by
    have howns : owns env (raw.start owner now) owner t = true :=
      owns_start hlease (h.kind.symm ▸ htimeout)
    have hcancel : (raw.start owner now).cancelRequested = false := h.fresh.cancelRequested
    rw [returnUnstartedUpdate, if_pos howns, if_neg (by rw [hcancel]; exact Bool.false_ne_true)]
    exact congrArg (fun r => (Except.ok (some r) : Except JobError (Option JobRecord)))
      (JobRecord.start_back h.status h.fresh)
  apply change_ok hjob hload hupdate
  refine except_bind_eq_ok.mpr ⟨raw, hdump, ?_⟩
  rw [h.status]
  dsimp only
  have hkind : (raw.start owner now).kind = kind := h.kind
  rw [h.kind, requeue_occupy h.job hkind hslot hfree h.queued h.running h.slots]

end Back

/-! ### A cancel in between -/

/-- Where an execution that was cancelled is: ended, to be published, and nowhere else. -/
structure CanceledOnly (s : Store) (i : String) : Prop where
  record : ∃ stored, s.jobs i = some stored ∧ stored.status = .canceled
  pending : (s.pending.score? i).isSome = true
  queues : ∀ kind, (s.queue kind).score? i = none
  running : s.running.score? i = none
  slots : ∀ key, s.slots key ≠ some i

/-- The record after a cancel that finds it running. -/
def JobRecord.flagged (r : JobRecord) : JobRecord := { r with cancelRequested := true }

/-- The store after a cancel that finds the job claimed. -/
theorem cancel_occupy (h : Offered env s kind i raw score) (t : Time) :
    cancel env i t (s.occupy env slot i (raw.start owner now) now) =
      .ok (some (raw.start owner now).flagged,
        ((s.occupy env slot i (raw.start owner now) now).setJob i
          (raw.start owner now).flagged).addRunning i
            (min (now + env.cfg.jobsLeaseSec) (now + env.cfg.jobTimeout raw.kind))) := by
  have hjob : (s.occupy env slot i (raw.start owner now) now).jobs i =
      some (raw.start owner now) := jobs_setJob_self
  have hload : (raw.start owner now).load env = .ok (raw.start owner now) :=
    (h.written.same (r := raw.start owner now) h.readable h.event rfl h.event).1
  have hdump : (raw.start owner now).flagged.dump env = .ok (raw.start owner now).flagged :=
    (h.written.same (r := (raw.start owner now).flagged) h.readable h.event rfl h.event).2
  refine except_bind_eq_ok.mpr ⟨_, change_ok hjob hload rfl ?_, rfl⟩
  exact except_bind_eq_ok.mpr ⟨_, hdump, rfl⟩

theorem canceledOnly_of_placement {x : Time} (hjob : s.jobs i = some stored)
    (hs : stored.status = .canceled)
    (h : s.placement i = ⟨some stored.core, fun _ => none, none, some x, ∅⟩) :
    CanceledOnly s i where
  record := ⟨stored, hjob, hs⟩
  pending := by
    have hpending : s.pending.score? i = some x := congrArg Placement.pending h
    rw [hpending]
    rfl
  queues := fun kind => congrArg (fun p => p.queued kind) h
  running := congrArg Placement.running h
  slots := by
    have hslots : {key | s.slots key = some i} = (∅ : Set String) := congrArg Placement.slots h
    intro key hkey
    exact (Set.ext_iff.mp hslots key).mp hkey

theorem returnUnstarted_canceled (h : Offered env s kind i raw score)
    (hslot : slot ∈ slotKeys kind) {t deadline : Time}
    (hlease : t < now + env.cfg.jobsLeaseSec) (htimeout : t < now + env.cfg.jobTimeout kind) :
    ∃ ended s'', returnUnstarted env i owner score t
        (((s.occupy env slot i (raw.start owner now) now).setJob i
          (raw.start owner now).flagged).addRunning i deadline) = .ok (some ended, s'') ∧
      CanceledOnly s'' i := by
  let flagged := (raw.start owner now).flagged
  let canceled := flagged.noticed .canceled none
  generalize hs₁ : ((s.occupy env slot i (raw.start owner now) now).setJob i flagged).addRunning i
    deadline = s₁
  have hjob : s₁.jobs i = some flagged := hs₁ ▸ jobs_setJob_self
  have hplacement : s₁.placement i =
      ⟨some flagged.core, fun _ => none, some deadline, none, {slot}⟩ := by
    have hkind : (raw.start owner now).kind = kind := h.kind
    rw [← hs₁, placement_addRunning_self, placement_setJob_self, placement_occupy_self, h.placement,
      hkind]
    simp
  have hload : flagged.load env = .ok flagged :=
    (h.written.same (r := flagged) h.readable h.event rfl h.event).1
  have hupdate : returnUnstartedUpdate env owner flagged t = .ok (some canceled) := by
    have howns : owns env flagged owner t = true :=
      owns_iff.mpr ⟨rfl, rfl, now, now, rfl, rfl, hlease, h.kind.symm ▸ htimeout⟩
    have hcancel : flagged.cancelRequested = true := rfl
    have hbounded : flagged.Bounded := ⟨h.bounded.trip_digits, h.bounded.execution_length⟩
    rw [returnUnstartedUpdate, if_pos howns, if_pos hcancel,
      terminate_notice hbounded (by decide) (by simp) (by simp)]
    rfl
  have hdump : canceled.dump env = .ok canceled.wire := by
    have hnesting : raw.request.nesting + 1 ≤ env.writeNesting := by
      have hread := h.readable
      have hlt := env.nesting_lt
      have hdef : raw.nesting = 1 + max 1 (max raw.request.nesting
        ((raw.event.map fun e => e.toValue.nesting).getD 0)) := rfl
      omega
    have hencodable : raw.request.encodable = true :=
      (Bool.and_eq_true_iff.mp h.written.encodable).1
    exact dump_noticed .canceled hnesting hencodable (by simp)
  have hwrite : writeChange env i flagged.status.terminal canceled (some score) t s₁ =
      .ok (((s₁.setJob i canceled.wire).observeTerminal canceled t).close i canceled t) :=
    except_bind_eq_ok.mpr ⟨_, hdump, rfl⟩
  refine ⟨canceled, _, change_ok hjob hload hupdate hwrite, ?_⟩
  refine @canceledOnly_of_placement _ _ canceled.wire (max t canceled.publishUntil) ?_ rfl ?_
  · rw [jobs_close]
    exact jobs_setJob_self
  · have hkind : canceled.kind = kind := h.kind
    have hpublished : canceled.published = false := h.published
    have hslots : {key ∈ ({slot} : Set String) | key ∉ slotKeys kind} = ∅ := by
      apply Set.eq_empty_iff_forall_notMem.mpr
      rintro key ⟨rfl, hnot⟩
      exact hnot hslot
    rw [placement_close_self, placement_observeTerminal, placement_setJob_self, hplacement, hkind,
      hpublished, hslots]
    simp

/-- **Returning an unstarted job undoes its claim.** In every world reached, for a claim that
took a job: as long as its lease and the time of the job last, returning the job leads back to
the store the claim found, so that the next claim takes the same job; and if the job is
cancelled in between, the return ends it as canceled, to be published and nowhere else. -/
theorem returnUnstarted_undoes {w : World} (h : Reached env w)
    (hclaim : claim env kind owner false now w.store = .ok (.claimed record score, s')) {t : Time}
    (hlease : t < now + env.cfg.jobsLeaseSec) (htimeout : t < now + env.cfg.jobTimeout kind) :
    (∃ returned, returnUnstarted env (record.identity env.sha256) owner score t s' =
        .ok (some returned, w.store)) ∧
      (∀ owner' now', ∃ record' s'',
        claim env kind owner' false now' w.store = .ok (.claimed record' score, s'') ∧
          record'.identity env.sha256 = record.identity env.sha256) ∧
      ∀ t₁, ∃ requested s₁, cancel env (record.identity env.sha256) t₁ s' = .ok (requested, s₁) ∧
        ∃ ended s₂, returnUnstarted env (record.identity env.sha256) owner score t s₁ =
            .ok (some ended, s₂) ∧
          CanceledOnly s₂ (record.identity env.sha256) := by
  obtain ⟨slot, i, raw, hoffered, hslot, hfree, rfl, stored, hdump, rfl⟩ := claim_offered h hclaim
  obtain rfl : raw.start owner now = stored := by
    have hsame := (hoffered.written.same (r := raw.start owner now) hoffered.readable hoffered.event
      rfl hoffered.event).2
    exact Except.ok.inj (hsame.symm.trans hdump)
  have hidentity : (raw.start owner now).identity env.sha256 = i := hoffered.identity
  have hagain := claim_again hclaim
  rw [hidentity] at hagain ⊢
  refine ⟨⟨raw, ?_⟩, hagain, fun t₁ => ?_⟩
  · exact returnUnstarted_occupy hoffered hslot hfree hlease htimeout
  · exact ⟨_, _, cancel_occupy hoffered t₁,
      returnUnstarted_canceled hoffered hslot hlease htimeout⟩

/-! ### A story that is returned -/

/-- A story waits. -/
def waitingWorld : World :=
  replay sampleEnv ⟨0, .initial⟩ [⟨1, .register (sampleIntake "e1" e1_length)⟩]

theorem reached_waitingWorld : Reached sampleEnv waitingWorld := reached_replay (by decide +kernel)

/-- A turn of `claim` hands an execution out. -/
def handsOut : Except JobError (ClaimReply × Store) → Bool
  | .ok (.claimed _ _, _) => true
  | _ => false

theorem returnUnstarted_undoes_waitingWorld : ∃ record score s',
    claim sampleEnv .story "worker:1" false 2 waitingWorld.store =
      .ok (.claimed record score, s') ∧
    ∃ returned, returnUnstarted sampleEnv (record.identity sampleEnv.sha256) "worker:1" score 3 s' =
      .ok (some returned, waitingWorld.store) := by
  have hclaims :
      handsOut (claim sampleEnv .story "worker:1" false 2 waitingWorld.store) = true := by
    decide +kernel
  unfold handsOut at hclaims
  split at hclaims
  · rename_i record score s' hclaim
    exact ⟨record, score, s', hclaim,
      (returnUnstarted_undoes reached_waitingWorld hclaim (by decide +kernel)
        (by decide +kernel)).1⟩
  · cases hclaims

end Yeodam.Jobs
