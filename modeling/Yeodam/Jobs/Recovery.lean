/-
Recovery (`recover` in `app/jobs/redis_store.py`).

`recover` reads the running set up to now, at most 100 entries of it, and fails what it finds
late. `recover_exact`: it fails every job that has expired and changes nothing else. Two facts
carry it: the score of a running job is its deadline (`Located`), so that the scan shows the
expired jobs and only these; and every running job holds a slot of its own, so that there are at
most five of them and the page is never full (`running_length_le`).
-/

import Yeodam.Jobs.Cancellation
import Yeodam.Jobs.Lease
import Yeodam.Jobs.Slots

namespace Yeodam.Jobs

open Yeodam.Lib

variable {env : Env} {now : Time} {s s' : Store} {op : Op} {i j : String}
  {r raw record stored : JobRecord}

/-- `recover`, with no other transaction between its own. -/
def recover (env : Env) (now : Time) (s : Store) : Except JobError Store :=
  (recoverScan now s).foldlM (fun s identity => (recoverOne env identity now s).map Prod.snd) s

/-! ### Running records can be read -/

/-- A running record was read by the claim that started it. -/
def JobRecord.Readable (env : Env) (r : JobRecord) : Prop :=
  r.status = .processing → r.request.nesting + 1 ≤ env.readNesting

theorem JobRecord.load_request (h : raw.load env = .ok r) :
    r.request.nesting + 1 ≤ env.readNesting := by
  unfold load at h
  split at h
  · rename_i hnesting
    have hrequest : raw.request.nesting + 1 ≤ env.readNesting := by
      unfold JobRecord.nesting at hnesting
      omega
    split at h
    · cases h
      exact hrequest
    · obtain ⟨_, -, rfl⟩ := except_map_eq_ok.mp h
      exact hrequest
  · cases h

theorem JobRecord.dump_request (h : r.dump env = .ok stored) :
    stored.request.nesting = r.request.nesting := by
  obtain ⟨rfl, -, -⟩ := JobRecord.dump_cases h
  exact Value.nesting_wire r.request

theorem Edit.request {r' : JobRecord} {queueScore : Option Time}
    (h : Edit env now op r r' queueScore) : r'.request = r.request := by
  have ends : ∀ {r₀ : JobRecord} {status : TerminalStatus} {result : Option Value}
      {error : Option ErrorBody}, terminate env r₀ status result error = .ok r' →
      r'.request = r₀.request := by
    intro r₀ status result error hterm
    obtain ⟨_, e, -, -, rfl⟩ := terminate_cases hterm
    rfl
  cases h with
  | renew | report | giveBack | flag | leaseResult => rfl
  | finish _ _ hterm => exact ends hterm
  | stop _ _ _ hterm => exact ends hterm
  | cancelQueued _ hterm => exact (ends hterm :)
  | recover _ _ hterm => exact ends hterm

theorem RecordStep.readable {before : Option JobRecord}
    (hbefore : ∀ raw, before = some raw → raw.Readable env)
    (h : RecordStep env now i op before (some stored)) : stored.Readable env := by
  cases h with
  | keep => exact hbefore stored rfl
  | registered hrec _ hdump =>
      intro hs
      rw [JobRecord.status_eq_of_core (JobRecord.dump_core hdump)] at hs
      obtain ⟨-, -, -, -, ⟨hqueued, -⟩ | ⟨hterm, -⟩⟩ := Intake.record_cases hrec
      · cases hqueued.symm.trans hs
      · rw [show _ = TaskStatus.processing from hs] at hterm
        cases hterm
  | started hload _ hdump =>
      intro _
      have hrequest := JobRecord.load_request hload
      rw [JobRecord.dump_request hdump]
      exact hrequest
  | edited _ hload hedit hdump =>
      intro _
      rw [JobRecord.dump_request hdump, hedit.request]
      exact JobRecord.load_request hload
  | acknowledged hload _ hdump =>
      intro _
      have hrequest := JobRecord.load_request hload
      rw [JobRecord.dump_request hdump]
      exact hrequest

theorem reached_readable {w : World} (h : Reached env w) (hr : w.store.jobs i = some r) :
    r.Readable env :=
  reached_record (P := fun _ r => r.Readable env) RecordStep.readable h hr

/-! ### The page of the scan -/

/-- Every entry of the running set is a running record, which holds a slot. -/
theorem Located.of_running_score {deadline : Time} (h : Located env (s.placement i))
    (hscore : s.running.score? i = some deadline) :
    ∃ r slot, s.jobs i = some r ∧ r.status = .processing ∧ r.Live ∧
      r.deadline env = some deadline ∧ slot ∈ slotKeys r.kind ∧
      s.placement i = ⟨some r.core, fun _ => none, some deadline, none, {slot}⟩ := by
  have hjob : (s.placement i).job = (s.jobs i).map JobRecord.core := rfl
  have hrunning : (s.placement i).running = some deadline := hscore
  generalize s.placement i = p at h hjob hrunning
  cases h with
  | absent => cases hrunning
  | waiting => cases hrunning
  | @running r₀ deadline₀ slot hs hlive hd hslot =>
      obtain ⟨r, hr, rfl⟩ := Option.map_eq_some_iff.mp hjob.symm
      cases hrunning
      exact ⟨r, slot, hr, hs, JobRecord.live_core.mp hlive, hd, hslot, rfl⟩
  | ended => cases hrunning
  | published => cases hrunning

/-- At most one process and four stories run at once. -/
theorem running_length_le (hall : ∀ i, Located env (s.placement i)) :
    s.running.entries.length ≤ 5 := by
  let keys := slotKeys .process ++ slotKeys .story
  let occupants := keys.map fun key => (s.slots key).getD ""
  have hsub : s.running.entries.map Prod.fst ⊆ occupants := by
    intro i hi
    obtain ⟨⟨i, deadline⟩, hentry, rfl⟩ := List.mem_map.mp hi
    obtain ⟨r, slot, -, -, -, -, hslot, hplacement⟩ :=
      (hall i).of_running_score (SortedSet.mem_entries_iff.mp hentry)
    have hslots : {key | s.slots key = some i} = ({slot} : Set String) :=
      congrArg Placement.slots hplacement
    have hheld : s.slots slot = some i := (Set.ext_iff.mp hslots slot).mpr rfl
    refine List.mem_map.mpr ⟨slot, ?_, by rw [hheld]; rfl⟩
    cases hkind : r.kind with
    | process => exact List.mem_append_left _ (hkind ▸ hslot)
    | story => exact List.mem_append_right _ (hkind ▸ hslot)
  have hle := (s.running.members_nodup.subperm hsub).length_le
  rw [List.length_map, List.length_map] at hle
  exact hle

/-! ### One recovery -/

/-- A running record past its deadline, as the store has it. -/
structure Late (env : Env) (now : Time) (s : Store) (i : String) (raw : JobRecord) : Prop where
  job : s.jobs i = some raw
  status : raw.status = .processing
  late : late env raw now = true
  live : raw.Live
  bounded : raw.Bounded
  written : raw.Written env
  readable : raw.nesting ≤ env.readNesting
  placement : ∃ deadline slot, slot ∈ slotKeys raw.kind ∧
    s.placement i = ⟨some raw.core, fun _ => none, some deadline, none, {slot}⟩

/-- What is kept besides records and placements. -/
structure Store.SameRest (s s' : Store) : Prop where
  ignored : s'.ignored = s.ignored
  latest : s'.latest = s.latest
  enqueueSequence : s'.enqueueSequence = s.enqueueSequence
  photoBatches : s'.photoBatches = s.photoBatches
  batchQueue : s'.batchQueue = s.batchQueue

theorem Store.SameRest.trans {s'' : Store} (h : s.SameRest s') (h' : s'.SameRest s'') :
    s.SameRest s'' :=
  ⟨h'.1.trans h.1, h'.2.trans h.2, h'.3.trans h.3, h'.4.trans h.4, h'.5.trans h.5⟩

theorem sameRest_close : s.SameRest (s.close i r now) := by
  unfold Store.close
  dsimp only
  split <;> exact ⟨rfl, rfl, rfl, rfl, rfl⟩

/-- Where a recovery at `now` leaves the job. -/
structure Failed (env : Env) (now : Time) (s : Store) (i : String) (raw : JobRecord) : Prop where
  job : s.jobs i = some (raw.recovered env now).wire
  placement : s.placement i =
    ⟨some (raw.recovered env now).wire.core, fun _ => none, none,
      some (max now raw.publishUntil), ∅⟩

/-- The step of the loop: the job fails, and nothing else changes. -/
theorem Late.recover (h : Late env now s i raw) :
    ∃ s', (recoverOne env i now s).map Prod.snd = .ok s' ∧ Failed env now s' i raw ∧
      (∀ j, j ≠ i → s'.jobs j = s.jobs j ∧ s'.placement j = s.placement j) ∧ s.SameRest s' := by
  have hload : raw.load env = .ok raw := by
    have hevent : raw.event = none := by
      have hnone := h.live.event
      rwa [Option.isSome_eq_false_iff, Option.isNone_iff_eq_none] at hnone
    rw [JobRecord.load, if_pos h.readable, hevent]
  have hone := recoverOne_late h.job hload h.readable h.written h.bounded h.status h.late
  obtain ⟨deadline, slot, hslot, hplacement⟩ := h.placement
  refine ⟨_, by rw [hone]; rfl, ⟨?_, ?_⟩, fun j hne => ⟨?_, ?_⟩, ?_⟩
  · rw [jobs_close]
    exact jobs_setJob_self
  · have hkind : (raw.recovered env now).kind = raw.kind := rfl
    have hpublished : (raw.recovered env now).published = false := h.live.published
    have huntil : (raw.recovered env now).publishUntil = raw.publishUntil := rfl
    have hslots : {key ∈ ({slot} : Set String) | key ∉ slotKeys raw.kind} = ∅ := by
      apply Set.eq_empty_iff_forall_notMem.mpr
      rintro key ⟨rfl, hnot⟩
      exact hnot hslot
    rw [placement_close_self, placement_observeTerminal, placement_setJob_self, hplacement, hkind,
      hpublished, huntil, hslots]
    simp
  · rw [jobs_close]
    exact jobs_setJob_ne hne
  · rw [placement_close_ne hne, placement_observeTerminal, placement_setJob_ne hne]
  · have hwrite : s.SameRest ((s.setJob i (raw.recovered env now).wire).observeTerminal
        (raw.recovered env now) now) := ⟨rfl, rfl, rfl, rfl, rfl⟩
    exact hwrite.trans sameRest_close

theorem Late.of_frame (h : Late env now s j raw) (hjob : s'.jobs j = s.jobs j)
    (hplacement : s'.placement j = s.placement j) : Late env now s' j raw :=
  { h with
    job := hjob.trans h.job
    placement := by
      rw [hplacement]
      exact h.placement }

/-- **Run lemma.** The loop fails every job of its list, and changes nothing else. -/
theorem recover_each (is : List String) (hnodup : is.Nodup)
    (hlate : ∀ i ∈ is, ∃ raw, Late env now s i raw) :
    ∃ s', is.foldlM (fun s i => (recoverOne env i now s).map Prod.snd) s = .ok s' ∧
      (∀ i ∈ is, ∀ raw, s.jobs i = some raw → Failed env now s' i raw) ∧
      (∀ j, j ∉ is → s'.jobs j = s.jobs j ∧ s'.placement j = s.placement j) ∧ s.SameRest s' := by
  induction is generalizing s with
  | nil => exact ⟨s, rfl, nofun, fun _ _ => ⟨rfl, rfl⟩, rfl, rfl, rfl, rfl, rfl⟩
  | cons i is ih =>
      obtain ⟨hi, hnodup⟩ := List.nodup_cons.mp hnodup
      obtain ⟨raw, hraw⟩ := hlate i List.mem_cons_self
      obtain ⟨s₁, hone, hfailed, hframe, hrest⟩ := hraw.recover
      have hlate₁ : ∀ j ∈ is, ∃ raw, Late env now s₁ j raw := by
        intro j hj
        obtain ⟨raw, hraw⟩ := hlate j (List.mem_cons_of_mem _ hj)
        obtain ⟨hjob, hplacement⟩ := hframe j fun heq => hi (heq ▸ hj)
        exact ⟨raw, hraw.of_frame hjob hplacement⟩
      obtain ⟨s₂, hloop, hall, hother, hrest₂⟩ := ih hnodup hlate₁
      refine ⟨s₂, ?_, ?_, ?_, hrest.trans hrest₂⟩
      · rw [List.foldlM_cons, hone]
        exact hloop
      · intro j hj raw' hraw'
        rcases List.mem_cons.mp hj with rfl | hj
        · obtain rfl : raw = raw' := Option.some.inj (hraw.job.symm.trans hraw')
          obtain ⟨hjob, hplacement⟩ := hother j hi
          exact ⟨hjob.trans hfailed.job, hplacement.trans hfailed.placement⟩
        · apply hall j hj raw'
          rw [(hframe j fun heq => hi (heq ▸ hj)).1, hraw']
      · intro j hj
        obtain ⟨hne, hj⟩ := List.ne_and_not_mem_of_not_mem_cons hj
        obtain ⟨hjob, hplacement⟩ := hother j hj
        obtain ⟨hjob₁, hplacement₁⟩ := hframe j hne
        exact ⟨hjob.trans hjob₁, hplacement.trans hplacement₁⟩

/-! ### What recovery guarantees -/

/-- The record of `i` runs, and its lease or its time is over. -/
def Expired (env : Env) (now : Time) (s : Store) (i : String) : Prop :=
  ∃ r heartbeat started, s.jobs i = some r ∧ r.status = .processing ∧
    r.heartbeatAt = some heartbeat ∧ r.startedAt = some started ∧
    min (heartbeat + env.cfg.jobsLeaseSec) (started + env.cfg.jobTimeout r.kind) ≤ now

/-- The error code of the event of a record. -/
def JobRecord.errorCode (r : JobRecord) : Option ErrorCode :=
  (r.event.bind JobResultEvent.error).map ErrorBody.code

structure Recovered (env : Env) (now : Time) (s s' : Store) : Prop where
  /-- A running record has both of its times. -/
  timed : ∀ i r, s.jobs i = some r → r.status = .processing →
    r.heartbeatAt.isSome = true ∧ r.startedAt.isSome = true
  /-- What had expired has failed, holds no slot and waits to be published. -/
  ended : ∀ i r started, Expired env now s i → s.jobs i = some r → r.startedAt = some started →
    ∃ r', s'.jobs i = some r' ∧ r'.status = .failed ∧
      r'.errorCode = some (if started + env.cfg.jobTimeout r.kind ≤ now then .timeout
        else .workerDead) ∧
      (∀ key, s'.slots key ≠ some i) ∧ s'.running.score? i = none ∧
      r'.published = false ∧ (s'.pending.score? i).isSome = true
  /-- Every other record keeps its text, its index entries and its slot. -/
  others : ∀ i, ¬ Expired env now s i →
    s'.jobs i = s.jobs i ∧ s'.placement i = s.placement i
  /-- A slot is as it was, or was that of an expired record. -/
  slots : ∀ key, s'.slots key = s.slots key ∨
    s'.slots key = none ∧ ∃ i, s.slots key = some i ∧ Expired env now s i
  rest : s.SameRest s'
  /-- The page leaves nobody out. -/
  scanned : ∀ i, i ∈ recoverScan now s ↔ Expired env now s i

theorem timedOut_of_started {started : Time} (h : r.startedAt = some started) :
    timedOut env r now = decide (started + env.cfg.jobTimeout r.kind ≤ now) := by
  rw [timedOut, h, Option.any_some]

theorem reached_scanned {w : World} (h : Reached env w) (now : Time) (i : String) :
    i ∈ recoverScan now w.store ↔ Expired env now w.store i := by
  have hpage := running_length_le (reached_located h)
  rw [recoverScan, SortedSet.mem_below_iff (by omega)]
  constructor
  · rintro ⟨deadline, hscore, hle⟩
    obtain ⟨r, -, hr, hs, -, hd, -, -⟩ := (reached_located h i).of_running_score hscore
    obtain ⟨heartbeat, started, hh, ht, rfl⟩ := JobRecord.deadline_eq_some.mp hd
    exact ⟨r, heartbeat, started, hr, hs, hh, ht, hle⟩
  · rintro ⟨r, heartbeat, started, hr, hs, hh, ht, hle⟩
    obtain ⟨heartbeat', started', hh', ht', hscore⟩ := (reached_located h i).running_score hr hs
    rw [hh] at hh'
    rw [ht] at ht'
    cases hh'
    cases ht'
    exact ⟨_, hscore, hle⟩

theorem late_of_expired {w : World} (h : Reached env w) (hexpired : Expired env now w.store i) :
    ∃ raw, Late env now w.store i raw := by
  obtain ⟨r, heartbeat, started, hr, hs, hh, ht, hle⟩ := hexpired
  obtain ⟨heartbeat', started', -, -, hscore⟩ := (reached_located h i).running_score hr hs
  obtain ⟨r', slot, hr', -, hlive, hd, hslot, hplacement⟩ :=
    (reached_located h i).of_running_score hscore
  obtain rfl : r = r' := Option.some.inj (hr.symm.trans hr')
  have hlate : late env r now = true :=
    (recover_iff_deadline
      (JobRecord.deadline_eq_some.mpr ⟨heartbeat, started, hh, ht, rfl⟩)).mpr hle
  have hreadable : r.nesting ≤ env.readNesting := by
    have hrequest := reached_readable h hr hs
    have hread := env.readNesting_ge
    have hevent : r.event = none := by
      have hnone := hlive.event
      rwa [Option.isSome_eq_false_iff, Option.isNone_iff_eq_none] at hnone
    rw [JobRecord.nesting, hevent, Option.map_none, Option.getD_none]
    omega
  exact ⟨r, hr, hs, hlate, hlive, reached_bounded h hr, reached_written h hr, hreadable, _, slot,
    hslot, hplacement⟩

/-- **Recovery is complete and precise.** In every world reached and at every time, `recover`
succeeds; it fails the records that have expired, all of them, and leaves everything else as it
was. -/
theorem recover_exact {w : World} (h : Reached env w) (now : Time) :
    ∃ s', recover env now w.store = .ok s' ∧ Recovered env now w.store s' := by
  have hscan := reached_scanned h now
  obtain ⟨s', hrun, hfailed, hother, hrest⟩ :=
    recover_each (recoverScan now w.store)
      SortedSet.below_nodup fun i hi => late_of_expired h ((hscan i).mp hi)
  have others : ∀ i, ¬ Expired env now w.store i →
      s'.jobs i = w.store.jobs i ∧ s'.placement i = w.store.placement i :=
    fun i hi => hother i fun hmem => hi ((hscan i).mp hmem)
  -- Nobody who has expired is left in a slot.
  have freed : ∀ i, Expired env now w.store i → ∀ key, s'.slots key ≠ some i := by
    intro i hexpired key hkey
    obtain ⟨r, -, -, hr, -⟩ := id hexpired
    have hplacement := (hfailed i ((hscan i).mpr hexpired) r hr).placement
    have hslots : {key | s'.slots key = some i} = (∅ : Set String) :=
      congrArg Placement.slots hplacement
    exact (Set.ext_iff.mp hslots key).mp hkey
  -- Whoever has not keeps the slots it had.
  have kept : ∀ i, ¬ Expired env now w.store i → ∀ key,
      s'.slots key = some i ↔ w.store.slots key = some i := by
    intro i hi key
    have hslots : {key | s'.slots key = some i} = {key | w.store.slots key = some i} :=
      congrArg Placement.slots (others i hi).2
    exact Set.ext_iff.mp hslots key
  refine ⟨s', hrun, ⟨?_, ?_, others, ?_, hrest, hscan⟩⟩
  · intro i r hr hs
    obtain ⟨heartbeat, started, hh, ht, -⟩ := (reached_located h i).running_score hr hs
    rw [hh, ht]
    exact ⟨rfl, rfl⟩
  · intro i r started hexpired hr ht
    have hfail := hfailed i ((hscan i).mpr hexpired) r hr
    obtain ⟨raw, hlate⟩ := late_of_expired h hexpired
    obtain rfl : r = raw := Option.some.inj (hr.symm.trans hlate.job)
    have hpending : s'.pending.score? i = some (max now r.publishUntil) :=
      congrArg Placement.pending hfail.placement
    refine ⟨_, hfail.job, rfl, ?_, freed i hexpired, congrArg Placement.running hfail.placement,
      hlate.live.published, by rw [hpending]; rfl⟩
    have hcode : recoveryCode env r now =
        if started + env.cfg.jobTimeout r.kind ≤ now then .timeout else .workerDead := by
      rw [recoveryCode, timedOut_of_started ht]
      simp
    rw [← hcode]
    rfl
  · intro key
    cases hbefore : w.store.slots key with
    | none =>
        left
        cases hafter : s'.slots key with
        | none => rfl
        | some i =>
            by_cases hi : Expired env now w.store i
            · exact absurd hafter (freed i hi key)
            · rw [(kept i hi key).mp hafter] at hbefore
              cases hbefore
    | some i =>
        by_cases hi : Expired env now w.store i
        · right
          refine ⟨?_, i, rfl, hi⟩
          cases hafter : s'.slots key with
          | none => rfl
          | some j =>
              by_cases hj : Expired env now w.store j
              · exact absurd hafter (freed j hj key)
              · rw [(kept j hj key).mp hafter] at hbefore
                cases hbefore
                exact absurd hi hj
        · exact .inl ((kept i hi key).mpr hbefore)

/-- At 130 the lease of the story in `sampleWorld` is over. -/
theorem recover_exact_sampleWorld : ∃ s', recover sampleEnv 130 sampleWorld.store = .ok s' ∧
    Recovered sampleEnv 130 sampleWorld.store s' ∧
    sampleIdentity ∈ recoverScan 130 sampleWorld.store := by
  obtain ⟨s', hrun, hrecovered⟩ := recover_exact reached_sampleWorld 130
  exact ⟨s', hrun, hrecovered, by decide +kernel⟩

end Yeodam.Jobs
