/-
Where an execution is: its record against the queues, the running set, the pending
set and the execution slots.

`Placement` is what the store says about one identity, and `Located` lists the
placements that make sense, one for each stage of an execution's life. This is the
purpose of the four indexes, stated for a single execution; `located_of_transaction`
is the step lemma and `reached_located` the run lemma:

* an operation rewrites the placement of at most one identity (`placement_*_ne`);
* whatever it does there leads from a located placement to a located one.

The consistency of the indexes and the accounting of slots are read off `Located`.
-/

import Yeodam.Jobs.Steps

namespace Yeodam.Jobs

open Yeodam.Lib

/-! ### Records up to their free-form values -/

section Core

variable {r r' : JobRecord}

@[simp] theorem JobRecord.core_status : r.core.status = r.status := rfl
@[simp] theorem JobRecord.core_kind : r.core.kind = r.kind := rfl
@[simp] theorem JobRecord.core_published : r.core.published = r.published := rfl
@[simp] theorem JobRecord.core_owner : r.core.owner = r.owner := rfl
@[simp] theorem JobRecord.core_cancelRequested : r.core.cancelRequested = r.cancelRequested := rfl
@[simp] theorem JobRecord.core_heartbeatAt : r.core.heartbeatAt = r.heartbeatAt := rfl
@[simp] theorem JobRecord.core_startedAt : r.core.startedAt = r.startedAt := rfl
@[simp] theorem JobRecord.core_tripId : r.core.tripId = r.tripId := rfl
@[simp] theorem JobRecord.core_deadline (env : Env) : r.core.deadline env = r.deadline env := rfl
@[simp] theorem JobRecord.core_event_isSome : r.core.event.isSome = r.event.isSome := by
  simp [core]

theorem JobRecord.kind_eq_of_core (h : r.core = r'.core) : r.kind = r'.kind :=
  (congrArg JobRecord.kind h : r.core.kind = r'.core.kind)

theorem JobRecord.published_eq_of_core (h : r.core = r'.core) : r.published = r'.published :=
  (congrArg JobRecord.published h : r.core.published = r'.core.published)

theorem JobRecord.publishOwner_eq_of_core (h : r.core = r'.core) :
    r.publishOwner = r'.publishOwner :=
  (congrArg JobRecord.publishOwner h : r.core.publishOwner = r'.core.publishOwner)

theorem JobRecord.deadline_eq_of_core {env : Env} (h : r.core = r'.core) :
    r.deadline env = r'.deadline env :=
  (congrArg (JobRecord.deadline env) h : r.core.deadline env = r'.core.deadline env)

theorem JobRecord.event_isSome_eq_of_core (h : r.core = r'.core) :
    r.event.isSome = r'.event.isSome := by
  rw [← core_event_isSome, h, core_event_isSome]

end Core

/-! ### Placements -/

/-- What the store says about one identity. -/
@[ext] structure Placement where
  job : Option JobRecord
  queued : JobKind → Option Time
  running : Option Time
  pending : Option Time
  slots : Set String

def Store.placement (s : Store) (identity : String) : Placement where
  job := (s.jobs identity).map JobRecord.core
  queued := fun kind => (s.queue kind).score? identity
  running := s.running.score? identity
  pending := s.pending.score? identity
  slots := {key | s.slots key = some identity}

/-- No outcome yet: no event, nothing published and no publisher. -/
structure JobRecord.Live (r : JobRecord) : Prop where
  event : r.event.isSome = false
  published : r.published = false
  publishOwner : r.publishOwner = none

theorem JobRecord.Live.of_core {r r' : JobRecord} (h : r.Live) (hcore : r'.core = r.core) :
    r'.Live where
  event := (event_isSome_eq_of_core hcore).trans h.event
  published := (published_eq_of_core hcore).trans h.published
  publishOwner := (publishOwner_eq_of_core hcore).trans h.publishOwner

theorem JobRecord.core_core (r : JobRecord) : r.core.core = r.core := by
  cases he : r.event with
  | none => simp [core, he]
  | some e => simp [core, he, JobResultEvent.core, Function.comp_def]

theorem JobRecord.live_core {r : JobRecord} : r.core.Live ↔ r.Live :=
  ⟨fun h => h.of_core r.core_core.symm, fun h => h.of_core r.core_core⟩

/-- The placements of an execution's life: unknown, waiting in its queue, running in
one slot of its kind until its deadline, ended and to be published, published. -/
inductive Located (env : Env) : Placement → Prop where
  | absent : Located env ⟨none, fun _ => none, none, none, ∅⟩
  | waiting {r : JobRecord} {score : Time} :
      r.status = .queued → r.Live →
      Located env ⟨some r, Function.update (fun _ => none) r.kind (some score), none, none, ∅⟩
  | running {r : JobRecord} {deadline : Time} {slot : String} :
      r.status = .processing → r.Live → r.deadline env = some deadline →
      slot ∈ slotKeys r.kind →
      Located env ⟨some r, fun _ => none, some deadline, none, {slot}⟩
  | ended {r : JobRecord} {score : Time} :
      r.status.terminal = true → r.event.isSome = true → r.published = false →
      Located env ⟨some r, fun _ => none, none, some score, ∅⟩
  | published {r : JobRecord} :
      r.status.terminal = true → r.event.isSome = true → r.published = true →
      Located env ⟨some r, fun _ => none, none, none, ∅⟩

/-! ### How the writes of an operation move a placement -/

section Moves

variable {env : Env} {s : Store} {i j slot : String} {r : JobRecord} {kind : JobKind}
  {now score deadline : Time} {staged stale : List String}

@[simp] theorem placement_setJob_self :
    (s.setJob i r).placement i = { s.placement i with job := some r.core } := by
  ext <;> simp [Store.placement, Store.setJob]

theorem placement_setJob_ne (h : j ≠ i) : (s.setJob i r).placement j = s.placement j := by
  ext <;> simp [Store.placement, Store.setJob, Function.update_of_ne h]

@[simp] theorem placement_enqueue_self :
    (s.enqueue kind i score).placement i =
      { s.placement i with
        queued := Function.update (s.placement i).queued kind (some score) } := by
  ext k x
  case queued =>
    by_cases hk : k = kind
    · subst hk
      simp [Store.placement, Store.enqueue]
    · simp [Store.placement, Store.enqueue, Function.update_of_ne hk]
  all_goals simp [Store.placement, Store.enqueue]

theorem placement_enqueue_ne (h : j ≠ i) :
    (s.enqueue kind i score).placement j = s.placement j := by
  ext k x
  case queued =>
    by_cases hk : k = kind
    · subst hk
      simp [Store.placement, Store.enqueue, SortedSet.score?_add_ne h]
    · simp [Store.placement, Store.enqueue, Function.update_of_ne hk]
  all_goals simp [Store.placement, Store.enqueue]

@[simp] theorem placement_dequeue_self :
    (s.dequeue kind i).placement i =
      { s.placement i with queued := Function.update (s.placement i).queued kind none } := by
  ext k x
  case queued =>
    by_cases hk : k = kind
    · subst hk
      simp [Store.placement, Store.dequeue]
    · simp [Store.placement, Store.dequeue, Function.update_of_ne hk]
  all_goals simp [Store.placement, Store.dequeue]

theorem placement_dequeue_ne (h : j ≠ i) : (s.dequeue kind i).placement j = s.placement j := by
  ext k x
  case queued =>
    by_cases hk : k = kind
    · subst hk
      simp [Store.placement, Store.dequeue, SortedSet.score?_remove_ne h]
    · simp [Store.placement, Store.dequeue, Function.update_of_ne hk]
  all_goals simp [Store.placement, Store.dequeue]

@[simp] theorem placement_addRunning_self :
    (s.addRunning i deadline).placement i = { s.placement i with running := some deadline } := by
  ext <;> simp [Store.placement, Store.addRunning]

theorem placement_addRunning_ne (h : j ≠ i) :
    (s.addRunning i deadline).placement j = s.placement j := by
  ext <;> simp [Store.placement, Store.addRunning, SortedSet.score?_add_ne h]

@[simp] theorem placement_removeRunning_self :
    (s.removeRunning i).placement i = { s.placement i with running := none } := by
  ext <;> simp [Store.placement, Store.removeRunning]

theorem placement_removeRunning_ne (h : j ≠ i) :
    (s.removeRunning i).placement j = s.placement j := by
  ext <;> simp [Store.placement, Store.removeRunning, SortedSet.score?_remove_ne h]

@[simp] theorem placement_addPending_self :
    (s.addPending i score).placement i = { s.placement i with pending := some score } := by
  ext <;> simp [Store.placement, Store.addPending]

theorem placement_addPending_ne (h : j ≠ i) :
    (s.addPending i score).placement j = s.placement j := by
  ext <;> simp [Store.placement, Store.addPending, SortedSet.score?_add_ne h]

@[simp] theorem placement_removePending_self :
    (s.removePending i).placement i = { s.placement i with pending := none } := by
  ext <;> simp [Store.placement, Store.removePending]

theorem placement_removePending_ne (h : j ≠ i) :
    (s.removePending i).placement j = s.placement j := by
  ext <;> simp [Store.placement, Store.removePending, SortedSet.score?_remove_ne h]

@[simp] theorem placement_releaseSlots_self :
    (s.releaseSlots kind i).placement i =
      { s.placement i with slots := {key ∈ (s.placement i).slots | key ∉ slotKeys kind} } := by
  ext key
  case slots =>
    by_cases hk : s.slots key = some i <;> simp [Store.placement, Store.releaseSlots, hk]
  all_goals rfl

theorem placement_releaseSlots_ne (h : j ≠ i) :
    (s.releaseSlots kind i).placement j = s.placement j := by
  ext key
  case slots =>
    by_cases hk : s.slots key = some i
    · have hne : ¬ i = j := fun hij => h hij.symm
      simp [Store.placement, Store.releaseSlots, hk, hne]
    · simp [Store.placement, Store.releaseSlots, hk]
  all_goals rfl

/-- Taking a free slot gives it to one identity and takes it from none. -/
theorem placement_setSlot_self :
    (s.setSlot slot i).placement i =
      { s.placement i with slots := insert slot (s.placement i).slots } := by
  ext key
  case slots =>
    by_cases hk : key = slot
    · subst hk
      simp [Store.placement, Store.setSlot]
    · simp [Store.placement, Store.setSlot, hk]
  all_goals rfl

theorem placement_setSlot_ne (hfree : s.slots slot = none) (h : j ≠ i) :
    (s.setSlot slot i).placement j = s.placement j := by
  ext key
  case slots =>
    by_cases hk : key = slot
    · subst hk
      have hne : ¬ i = j := fun hij => h hij.symm
      simp [Store.placement, Store.setSlot, hfree, hne]
    · simp [Store.placement, Store.setSlot, hk]
  all_goals rfl

/-- Deleting slots held by others leaves a placement alone. -/
theorem placement_deleteSlots (h : ∀ key ∈ stale, s.slots key ≠ some j) :
    (s.deleteSlots stale).placement j = s.placement j := by
  ext key
  case slots =>
    by_cases hk : key ∈ stale
    · simp [Store.placement, Store.deleteSlots, hk, h key hk]
    · simp [Store.placement, Store.deleteSlots, hk]
  all_goals rfl

/-! #### Writes no placement reads -/

@[simp] theorem placement_observeTerminal :
    (s.observeTerminal r now).placement j = s.placement j := rfl

@[simp] theorem placement_setLatest {tripId : Int} :
    (s.setLatest kind tripId i).placement j = s.placement j := rfl

@[simp] theorem placement_setSequence {order : Nat} :
    (s.setSequence order).placement j = s.placement j := rfl

@[simp] theorem placement_dropBatches : (s.dropBatches i staged).placement j = s.placement j := rfl

@[simp] theorem placement_ignore : (s.ignore i staged).placement j = s.placement j := rfl

@[simp] theorem placement_stage {no : String} {b : PhotoBatchBuffer} :
    (s.stage env i no b now).placement j = s.placement j := rfl

/-! #### Compound writes -/

theorem placement_accept_ne (h : j ≠ i) :
    (s.accept i r staged now).placement j = s.placement j := by
  unfold Store.accept
  dsimp only
  split
  · rw [placement_observeTerminal, placement_addPending_ne h, placement_setLatest,
      placement_setJob_ne h, placement_setSequence, placement_dropBatches]
  · rw [placement_enqueue_ne h, placement_setLatest, placement_setJob_ne h,
      placement_setSequence, placement_dropBatches]

/-- An accepted record is queued behind the ones registered before it. -/
theorem placement_accept_waiting (hevent : r.event.isSome = false) :
    (s.accept i r staged now).placement i =
      { s.placement i with
        job := some r.core
        queued := Function.update (s.placement i).queued r.kind
          (some ((s.enqueueSequence + 1 : Nat) : Time)) } := by
  simp [Store.accept, hevent]

/-- A record that failed at intake goes straight to publication. -/
theorem placement_accept_ended (hevent : r.event.isSome = true) :
    (s.accept i r staged now).placement i =
      { s.placement i with job := some r.core, pending := some now } := by
  simp [Store.accept, hevent]

theorem placement_occupy_ne (hfree : s.slots slot = none) (h : j ≠ i) :
    (s.occupy env slot i r now).placement j = s.placement j := by
  have hfree' : (s.dequeue r.kind i).slots slot = none := hfree
  unfold Store.occupy
  rw [placement_addRunning_ne h, placement_setJob_ne h, placement_setSlot_ne hfree' h,
    placement_dequeue_ne h]

theorem placement_occupy_self :
    (s.occupy env slot i r now).placement i =
      { job := some r.core
        queued := Function.update (s.placement i).queued r.kind none
        running := some (now + min env.cfg.jobsLeaseSec (env.cfg.jobTimeout r.kind))
        pending := (s.placement i).pending
        slots := insert slot (s.placement i).slots } := by
  simp [Store.occupy, placement_setSlot_self]

theorem placement_close_ne (h : j ≠ i) : (s.close i r now).placement j = s.placement j := by
  unfold Store.close
  dsimp only
  split
  · rw [placement_releaseSlots_ne h, placement_removeRunning_ne h, placement_dequeue_ne h]
  · rw [placement_addPending_ne h, placement_releaseSlots_ne h, placement_removeRunning_ne h,
      placement_dequeue_ne h]

theorem placement_close_self :
    (s.close i r now).placement i =
      { job := (s.placement i).job
        queued := Function.update (s.placement i).queued r.kind none
        running := none
        pending := if r.published then (s.placement i).pending else some (max now r.publishUntil)
        slots := {key ∈ (s.placement i).slots | key ∉ slotKeys r.kind} } := by
  unfold Store.close
  cases r.published <;> simp

theorem placement_requeue_ne (h : j ≠ i) :
    (s.requeue i kind score).placement j = s.placement j := by
  unfold Store.requeue
  rw [placement_enqueue_ne h, placement_releaseSlots_ne h, placement_removeRunning_ne h]

theorem placement_requeue_self :
    (s.requeue i kind score).placement i =
      { job := (s.placement i).job
        queued := Function.update (s.placement i).queued kind (some score)
        running := none
        pending := (s.placement i).pending
        slots := {key ∈ (s.placement i).slots | key ∉ slotKeys kind} } := by
  simp [Store.requeue]

end Moves

/-! ### What an edit and its write can do -/

section Edits

variable {env : Env} {s s' : Store} {i j : String} {op : Op} {r r' : JobRecord} {now : Time}
  {queueScore : Option Time}

/-- The event a termination stores, and the record around it. -/
theorem terminate_cases {status : TerminalStatus} {result : Option Value}
    {error : Option ErrorBody} (h : terminate env r status result error = .ok r') :
    ∃ built e, JobResultEvent.checkPayload env
        { type := r.kind.eventType, tripId := r.tripId, executionId := r.executionId,
          status := status, result := result, error := error } = .ok built ∧
      built.enforceSizeLimit env = .ok e ∧
      r' = { r with
        event := some e
        status := e.status.toTaskStatus
        currentStep := none
        progress := if e.status = .completed then { r.progress with done := r.progress.total }
          else r.progress } := by
  unfold terminate at h
  obtain ⟨built, hbuilt, h⟩ := except_bind_eq_ok.mp h
  obtain ⟨e, he, h⟩ := except_bind_eq_ok.mp h
  cases h
  exact ⟨built, e, hbuilt, he, rfl⟩

/-- What every termination keeps and sets. -/
theorem terminate_ends {status : TerminalStatus} {result : Option Value}
    {error : Option ErrorBody} (h : terminate env r status result error = .ok r') :
    r'.kind = r.kind ∧ r'.published = r.published ∧ r'.status.terminal = true ∧
      r'.event.isSome = true := by
  obtain ⟨_, e, -, -, rfl⟩ := terminate_cases h
  exact ⟨rfl, rfl, e.status.terminal_toTaskStatus, rfl⟩

/-- The two records agree on event and publication. -/
def JobRecord.SameOutcome (r r' : JobRecord) : Prop :=
  r'.event = r.event ∧ r'.published = r.published ∧ r'.publishOwner = r.publishOwner

theorem JobRecord.Live.of_sameOutcome (h : r.Live) (hsame : r.SameOutcome r') : r'.Live where
  event := by rw [hsame.1, h.event]
  published := by rw [hsame.2.1, h.published]
  publishOwner := by rw [hsame.2.2, h.publishOwner]

/-- How an edit moves a record through its stages: still running, ended, given back,
or an ended record leased to a publisher. -/
def Stages (r r' : JobRecord) (queueScore : Option Time) : Prop :=
  (r.status = .processing ∧ r'.status = .processing ∧ r.SameOutcome r') ∨
  (r.status.terminal = false ∧ r'.status.terminal = true ∧ r'.event.isSome = true) ∨
  (r.status = .processing ∧ r'.status = .queued ∧ r.SameOutcome r' ∧ queueScore.isSome = true) ∨
  (r'.status = r.status ∧ r'.event = r.event ∧ r.event.isSome = true)

/-- The stage an edit starts from and the one it leads to. -/
theorem Edit.stages (h : Edit env now op r r' queueScore) :
    r'.kind = r.kind ∧ r'.published = r.published ∧ Stages r r' queueScore := by
  have ends : ∀ {r₀ : JobRecord} {status : TerminalStatus} {result : Option Value}
      {error : Option ErrorBody}, terminate env r₀ status result error = .ok r' →
      r₀.kind = r.kind → r₀.published = r.published → r.status.terminal = false →
      r'.kind = r.kind ∧ r'.published = r.published ∧ Stages r r' queueScore := by
    intro r₀ status result error hterm hk hp hlive
    obtain ⟨hk', hp', hs, he⟩ := terminate_ends hterm
    exact ⟨hk'.trans hk, hp'.trans hp, .inr (.inl ⟨hlive, hs, he⟩)⟩
  cases h with
  | renew howns =>
      have hs := (owns_iff.mp howns).1
      exact ⟨rfl, rfl, .inl ⟨hs, hs, rfl, rfl, rfl⟩⟩
  | report howns =>
      have hs := (owns_iff.mp howns).1
      exact ⟨rfl, rfl, .inl ⟨hs, hs, rfl, rfl, rfl⟩⟩
  | flag hs => exact ⟨rfl, rfl, .inl ⟨hs, hs, rfl, rfl, rfl⟩⟩
  | finish howns _ hterm => exact ends hterm rfl rfl (by rw [(owns_iff.mp howns).1]; rfl)
  | stop _ howns _ hterm => exact ends hterm rfl rfl (by rw [(owns_iff.mp howns).1]; rfl)
  | cancelQueued hq hterm => exact ends hterm rfl rfl (by rw [hq]; rfl)
  | recover hs _ hterm => exact ends hterm rfl rfl (by rw [hs]; rfl)
  | giveBack howns =>
      exact ⟨rfl, rfl, .inr (.inr (.inl ⟨(owns_iff.mp howns).1, rfl, ⟨rfl, rfl, rfl⟩, rfl⟩))⟩
  | leaseResult he => exact ⟨rfl, rfl, .inr (.inr (.inr ⟨rfl, rfl, he⟩))⟩

/-- The store after `change` wrote a record, by the record's status. -/
theorem writeChange_cases {wasTerminal : Bool}
    (h : writeChange env i wasTerminal r queueScore now s = .ok s') :
    ∃ stored, r.dump env = .ok stored ∧
      ((r.status.terminal = true ∧
          s' = (if wasTerminal then s.setJob i stored
            else (s.setJob i stored).observeTerminal r now).close i r now) ∨
        (r.status = .processing ∧ ∃ deadline, r.deadline env = some deadline ∧
          s' = (s.setJob i stored).addRunning i deadline) ∨
        (r.status = .queued ∧ queueScore = none ∧ s' = s.setJob i stored) ∨
        (r.status = .queued ∧ ∃ score, queueScore = some score ∧
          s' = (s.setJob i stored).requeue i r.kind score)) := by
  unfold writeChange at h
  obtain ⟨stored, hdump, h⟩ := except_bind_eq_ok.mp h
  refine ⟨stored, hdump, ?_⟩
  dsimp only at h
  split at h
  · rename_i hs
    cases h
    exact .inl ⟨by rw [hs]; rfl, rfl⟩
  · rename_i hs
    cases h
    exact .inl ⟨by rw [hs]; rfl, rfl⟩
  · rename_i hs
    cases h
    exact .inl ⟨by rw [hs]; rfl, rfl⟩
  · rename_i hs
    split at h
    · cases h
    · rename_i deadline hd
      cases h
      exact .inr (.inl ⟨hs, deadline, hd, rfl⟩)
  · rename_i hs
    cases queueScore with
    | none =>
        cases h
        exact .inr (.inr (.inl ⟨hs, rfl, rfl⟩))
    | some score =>
        cases h
        exact .inr (.inr (.inr ⟨hs, score, rfl, rfl⟩))

theorem placement_writeChange_ne {wasTerminal : Bool} (hne : j ≠ i)
    (h : writeChange env i wasTerminal r queueScore now s = .ok s') :
    s'.placement j = s.placement j := by
  obtain ⟨stored, -, ⟨-, rfl⟩ | ⟨-, d, -, rfl⟩ | ⟨-, -, rfl⟩ | ⟨-, score, -, rfl⟩⟩ :=
    writeChange_cases h
  · rw [placement_close_ne hne]
    split
    · exact placement_setJob_ne hne
    · rw [placement_observeTerminal, placement_setJob_ne hne]
  · rw [placement_addRunning_ne hne, placement_setJob_ne hne]
  · exact placement_setJob_ne hne
  · rw [placement_requeue_ne hne, placement_setJob_ne hne]

/-- The placement of the record `change` wrote. -/
theorem placement_writeChange_terminal {stored : JobRecord} {wasTerminal : Bool} :
    ((if wasTerminal then s.setJob i stored
      else (s.setJob i stored).observeTerminal r now).close i r now).placement i =
      { job := some stored.core
        queued := Function.update (s.placement i).queued r.kind none
        running := none
        pending := if r.published then (s.placement i).pending else some (max now r.publishUntil)
        slots := {key ∈ (s.placement i).slots | key ∉ slotKeys r.kind} } := by
  rw [placement_close_self]
  cases wasTerminal <;> simp

/-- **Step lemma of an edit.** An edit of a located record leaves it located. -/
theorem located_writeChange {raw record : JobRecord} (hraw : s.jobs i = some raw)
    (hload : raw.load env = .ok record) (hedit : Edit env now op record r queueScore)
    (h : writeChange env i record.status.terminal r queueScore now s = .ok s')
    (hloc : Located env (s.placement i)) : Located env (s'.placement i) := by
  have hjob : (s.placement i).job = some record.core := by
    simp [Store.placement, hraw, JobRecord.load_core hload]
  obtain ⟨hkind, hpub, hstages⟩ := hedit.stages
  obtain ⟨stored, hdump, hw⟩ := writeChange_cases h
  have hstored := JobRecord.dump_core hdump
  have hstatus : stored.core.status = r.status :=
    JobRecord.core_status.trans (JobRecord.status_eq_of_core hstored)
  have hskind : stored.core.kind = r.kind :=
    JobRecord.core_kind.trans (JobRecord.kind_eq_of_core hstored)
  have hspub : stored.core.published = r.published :=
    JobRecord.core_published.trans (JobRecord.published_eq_of_core hstored)
  have hsevent : stored.core.event.isSome = r.event.isSome :=
    JobRecord.core_event_isSome.trans (JobRecord.event_isSome_eq_of_core hstored)
  have hsdeadline : stored.core.deadline env = r.deadline env :=
    (JobRecord.core_deadline env).trans (JobRecord.deadline_eq_of_core hstored)
  have hslive : r.Live → stored.core.Live := fun hl =>
    JobRecord.live_core.mpr (hl.of_core hstored)
  -- The record ends: whatever indexes it was in, it is now in `pending` or in none.
  have hend : r.status.terminal = true → r.event.isSome = true →
      (Function.update (s.placement i).queued r.kind none = fun _ => none) →
      {key ∈ (s.placement i).slots | key ∉ slotKeys r.kind} = (∅ : Set String) →
      (r.published = true → (s.placement i).pending = none) → Located env (s'.placement i) := by
    intro hterm hevent hq hslots hpend
    rcases hw with ⟨-, rfl⟩ | ⟨hs, -⟩ | ⟨hs, -⟩ | ⟨hs, -⟩
    · rw [placement_writeChange_terminal, hq, hslots]
      cases hp : r.published with
      | true =>
          simp only [if_true, hpend hp]
          exact .published (hstatus ▸ hterm) (hsevent.trans hevent) (hspub.trans hp)
      | false =>
          simp only [Bool.false_eq_true, if_false]
          exact .ended (hstatus ▸ hterm) (hsevent.trans hevent) (hspub.trans hp)
    all_goals (rw [hs] at hterm; cases hterm)
  generalize hp : s.placement i = p at hloc hjob hend
  cases hloc with
  | absent => cases hjob
  | @waiting r₀ score hs hlive =>
      obtain rfl : r₀ = record.core := Option.some.inj hjob
      rcases hstages with ⟨hs', -⟩ | ⟨-, hterm, hevent⟩ | ⟨hs', -⟩ | ⟨-, -, hevent⟩
      · exact absurd (hs.symm.trans hs') (by decide)
      · refine hend hterm hevent ?_ (by simp) fun _ => rfl
        rw [hkind]
        simp
      · exact absurd (hs.symm.trans hs') (by decide)
      · exact absurd (hevent.symm.trans (JobRecord.live_core.mp hlive).event) (by decide)
  | @running r₀ deadline slot hs hlive hdl hslot =>
      obtain rfl : r₀ = record.core := Option.some.inj hjob
      have hlive := JobRecord.live_core.mp hlive
      rcases hstages with ⟨-, hs', hsame⟩ | ⟨-, hterm, hevent⟩ | ⟨-, hs', hsame, hqs⟩ |
        ⟨-, -, hevent⟩
      · rcases hw with ⟨hterm, -⟩ | ⟨-, d, hd, rfl⟩ | ⟨hq, -⟩ | ⟨hq, -⟩
        · rw [hs'] at hterm
          cases hterm
        · rw [placement_addRunning_self, placement_setJob_self, hp]
          exact .running (hstatus.trans hs') (hslive (hlive.of_sameOutcome hsame))
            (hsdeadline.trans hd) (by rw [hskind, hkind]; exact hslot)
        · exact absurd (hs'.symm.trans hq) (by decide)
        · exact absurd (hs'.symm.trans hq) (by decide)
      · refine hend hterm hevent ?_ ?_ fun _ => rfl
        · simp
        · ext key
          simp only [Set.mem_ofPred_eq, Set.mem_singleton_iff, Set.mem_empty_iff_false, iff_false]
          rintro ⟨rfl, hnot⟩
          exact hnot (hkind ▸ hslot)
      · rcases hw with ⟨hterm, -⟩ | ⟨hs'', -⟩ | ⟨-, hnone, -⟩ | ⟨-, score, -, rfl⟩
        · rw [hs'] at hterm
          cases hterm
        · exact absurd (hs'.symm.trans hs'') (by decide)
        · rw [hnone] at hqs
          cases hqs
        · have hslots : {key ∈ ({slot} : Set String) | key ∉ slotKeys r.kind} = ∅ := by
            ext key
            simp only [Set.mem_ofPred_eq, Set.mem_singleton_iff, Set.mem_empty_iff_false, iff_false]
            rintro ⟨rfl, hnot⟩
            exact hnot (hkind ▸ hslot)
          rw [placement_requeue_self, placement_setJob_self, hp, hslots, ← hskind]
          exact .waiting (hstatus.trans hs') (hslive (hlive.of_sameOutcome hsame))
      · exact absurd (hevent.symm.trans hlive.event) (by decide)
  | @ended r₀ score hterm hevent hpub₀ =>
      obtain rfl : r₀ = record.core := Option.some.inj hjob
      rcases hstages with ⟨hs', -⟩ | ⟨hlive, -⟩ | ⟨hs', -⟩ | ⟨hs', hev, he⟩
      · rw [JobRecord.core_status, hs'] at hterm
        cases hterm
      · exact absurd (hterm.symm.trans hlive) (by decide)
      · rw [JobRecord.core_status, hs'] at hterm
        cases hterm
      · apply hend (hs' ▸ hterm) (hev ▸ he) (by simp) (by simp)
        intro hpub'
        exact absurd (hpub'.symm.trans (hpub.trans hpub₀)) (by decide)
  | @published r₀ hterm hevent hpub₀ =>
      obtain rfl : r₀ = record.core := Option.some.inj hjob
      rcases hstages with ⟨hs', -⟩ | ⟨hlive, -⟩ | ⟨hs', -⟩ | ⟨hs', hev, he⟩
      · rw [JobRecord.core_status, hs'] at hterm
        cases hterm
      · exact absurd (hterm.symm.trans hlive) (by decide)
      · rw [JobRecord.core_status, hs'] at hterm
        cases hterm
      · exact hend (hs' ▸ hterm) (hev ▸ he) (by simp) (by simp) fun _ => rfl

end Edits

/-! ### Every transaction keeps every execution located -/

section Invariant

variable {env : Env} {s s' : Store} {now : Time} {op : Op} {i : String}

/-- A registered record waits for its first claim, or failed at intake. -/
theorem Intake.record_cases {q : Intake} {record : JobRecord} (h : q.record env = .ok record) :
    record.tripId = q.tripId ∧ record.kind = q.kind ∧ record.executionId = q.executionId ∧
      record.published = false ∧
      ((record.status = .queued ∧ record.Live) ∨
        (record.status.terminal = true ∧ record.event.isSome = true)) := by
  unfold Intake.record at h
  split at h
  · obtain ⟨_, e, -, -, rfl⟩ := terminate_cases h
    exact ⟨rfl, rfl, rfl, rfl, .inr ⟨e.status.terminal_toTaskStatus, rfl⟩⟩
  · cases h
    exact ⟨rfl, rfl, rfl, rfl, .inl ⟨rfl, rfl, rfl, rfl⟩⟩

theorem Store.jobs_eq_none_of_closed (h : s.closed i = false) : s.jobs i = none := by
  simp only [closed, Bool.or_eq_false_iff] at h
  simpa using h.1

theorem Located.eq_absent {p : Placement} (h : Located env p) (hjob : p.job = none) :
    p = ⟨none, fun _ => none, none, none, ∅⟩ := by
  cases h with
  | absent => rfl
  | _ => cases hjob

/-- Only a running record of the kind occupies a slot. -/
theorem Located.of_slot {p : Placement} {key : String} (h : Located env p) (hkey : key ∈ p.slots) :
    ∃ r, p.job = some r ∧ r.status = .processing ∧ p.slots = {key} ∧ key ∈ slotKeys r.kind := by
  cases h with
  | @running r _ slot hs _ _ hslot =>
      obtain rfl := Set.mem_singleton_iff.mp hkey
      exact ⟨r, rfl, hs, rfl, hslot⟩
  | _ => cases hkey

/-- Only a waiting record of the kind is in a queue. -/
theorem Located.of_queued {p : Placement} {kind : JobKind} {score : Time} (h : Located env p)
    (hq : p.queued kind = some score) :
    ∃ r, r.status = .queued ∧ r.Live ∧ r.kind = kind ∧
      p = ⟨some r, Function.update (fun _ => none) kind (some score), none, none, ∅⟩ := by
  cases h with
  | @waiting r score' hs hlive =>
      have hkind : r.kind = kind := by
        by_contra hne
        simp [Function.update_of_ne (Ne.symm hne)] at hq
      subst hkind
      obtain rfl : score' = score := by simpa using hq
      exact ⟨r, hs, hlive, rfl, rfl⟩
  | _ => cases hq

theorem placement_job_eq_some {r : JobRecord} (h : (s.placement i).job = some r) :
    ∃ raw, s.jobs i = some raw ∧ raw.core = r := by
  simpa [Store.placement] using h

/-- A started record's deadline is the score `claim` gives it in `running`. -/
theorem JobRecord.deadline_start (r : JobRecord) (owner : String) :
    (r.start owner now).deadline env =
      some (now + min env.cfg.jobsLeaseSec (env.cfg.jobTimeout r.kind)) := by
  simp [deadline, start, min_add_add_left]

/-- **Step lemma.** Every transaction keeps every execution located. -/
theorem located_of_transaction (hall : ∀ j, Located env (s.placement j))
    (h : Transaction env now s op s') (j : String) : Located env (s'.placement j) := by
  cases h with
  | unchanged => exact hall j
  | @accepted q record stored staged hrec hopen _ hdump =>
      by_cases hj : j = record.identity env.sha256
      · subst hj
        obtain ⟨-, -, -, hpub, hlife⟩ := Intake.record_cases hrec
        have hcore := JobRecord.dump_core hdump
        have hevent := JobRecord.event_isSome_eq_of_core hcore
        have hstatus := JobRecord.status_eq_of_core hcore
        have hp := (hall (record.identity env.sha256)).eq_absent
          (by simp [Store.placement, Store.jobs_eq_none_of_closed hopen])
        rcases hlife with ⟨hs, hlive⟩ | ⟨hterm, he⟩
        · rw [placement_accept_waiting (hevent.trans hlive.event), hp]
          have hlive' : JobRecord.Live { record with createdAt := now } :=
            hlive.of_sameOutcome ⟨rfl, rfl, rfl⟩
          exact .waiting (hstatus.trans hs) (JobRecord.live_core.mpr (hlive'.of_core hcore))
        · rw [placement_accept_ended (hevent.trans he), hp]
          refine .ended ?_ ?_ ?_
          · rw [JobRecord.core_status, hstatus]
            exact hterm
          · rw [JobRecord.core_event_isSome, hevent]
            exact he
          · exact (JobRecord.published_eq_of_core hcore).trans hpub
      · rw [placement_accept_ne hj]
        exact hall j
  | ignored => exact hall j
  | swept hstale =>
      rw [placement_deleteSlots]
      · exact hall j
      intro key hkey hslot
      obtain ⟨occupant, r, hocc, hr, hterm⟩ := hstale key hkey
      obtain rfl : occupant = j := Option.some.inj (hocc.symm.trans hslot)
      obtain ⟨r', hr', hs, -⟩ := (hall occupant).of_slot hslot
      obtain ⟨raw, hraw, rfl⟩ := placement_job_eq_some hr'
      obtain rfl : r = raw := Option.some.inj (hr.symm.trans hraw)
      rw [JobRecord.core_status] at hs
      rw [hs] at hterm
      cases hterm
  | @unqueued _ _ _ identity _ hfirst hnot =>
      -- What is queued is waiting, so the head of a queue never has another status.
      obtain ⟨r, hs, -, -, hp⟩ := (hall identity).of_queued (SortedSet.first?_mem hfirst)
      obtain ⟨raw, hraw, rfl⟩ := placement_job_eq_some (congrArg Placement.job hp)
      exact absurd hs (hnot raw hraw)
  | @claimed kind owner _ slot identity score raw record stored hslot hfree _ hfirst hraw hload hs
      hdump =>
      by_cases hj : j = identity
      · subst hj
        have hcore := JobRecord.load_core hload
        have hstored := JobRecord.dump_core hdump
        obtain ⟨r, -, hlive, hkind, hp⟩ := (hall j).of_queued (SortedSet.first?_mem hfirst)
        obtain ⟨raw', hraw', rfl⟩ := placement_job_eq_some (congrArg Placement.job hp)
        obtain rfl : raw = raw' := Option.some.inj (hraw.symm.trans hraw')
        have hrkind : record.kind = kind := (JobRecord.kind_eq_of_core hcore).trans hkind
        have hskind : stored.kind = kind := (JobRecord.kind_eq_of_core hstored).trans hrkind
        have hlive' : (record.start owner now).Live :=
          ((JobRecord.live_core.mp hlive).of_core hcore).of_sameOutcome ⟨rfl, rfl, rfl⟩
        have hdeadline : stored.deadline env =
            some (now + min env.cfg.jobsLeaseSec (env.cfg.jobTimeout stored.kind)) := by
          rw [hskind, ← hrkind, ← JobRecord.deadline_start record owner]
          exact JobRecord.deadline_eq_of_core hstored
        have hempty : insert slot (∅ : Set String) = {slot} := by simp
        have hqueue : Function.update (Function.update (fun _ : JobKind => (none : Option Time))
            kind (some score)) kind none = fun _ => none := by simp
        rw [placement_occupy_self, hp, hempty, hskind, hqueue, ← hskind]
        exact .running (JobRecord.status_eq_of_core hstored)
          (JobRecord.live_core.mpr (hlive'.of_core hstored)) hdeadline (hskind ▸ hslot)
      · rw [placement_occupy_ne hfree hj]
        exact hall j
  | @changed _ identity raw record r queueScore _ _ hraw hload hedit hw =>
      by_cases hj : j = identity
      · subst hj
        exact located_writeChange hraw hload hedit hw (hall j)
      · rw [placement_writeChange_ne hj hw]
        exact hall j
  | @acknowledged identity publisher raw record stored hraw hload howner hdump =>
      by_cases hj : j = identity
      · subst hj
        have hstored := JobRecord.dump_core hdump
        have hjob : (s.placement j).job = some record.core := by
          simp [Store.placement, hraw, JobRecord.load_core hload]
        have hnot : ¬ record.core.Live := fun hlive => by
          have h := hlive.publishOwner
          rw [show record.core.publishOwner = record.publishOwner from rfl, howner] at h
          cases h
        have hpublished : ∀ r₀ : JobRecord, r₀ = record.core → r₀.status.terminal = true →
            r₀.event.isSome = true →
            Located env ⟨some stored.core, fun _ => none, none, none, ∅⟩ := by
          rintro _ rfl hterm hevent
          refine .published ?_ ?_ ?_
          · rw [JobRecord.core_status, JobRecord.status_eq_of_core hstored]
            exact hterm
          · rw [JobRecord.core_event_isSome, JobRecord.event_isSome_eq_of_core hstored]
            exact JobRecord.core_event_isSome ▸ hevent
          · exact JobRecord.published_eq_of_core hstored
        have hloc := hall j
        rw [placement_removePending_self, placement_setJob_self]
        generalize s.placement j = p at hloc hjob
        cases hloc with
        | absent => cases hjob
        | waiting _ hlive => exact absurd (Option.some.inj hjob ▸ hlive) hnot
        | running _ hlive => exact absurd (Option.some.inj hjob ▸ hlive) hnot
        | ended hterm hevent => exact hpublished _ (Option.some.inj hjob) hterm hevent
        | published hterm hevent => exact hpublished _ (Option.some.inj hjob) hterm hevent
      · rw [placement_removePending_ne hj, placement_setJob_ne hj]
        exact hall j
  | staged => exact hall j
  | popped => exact hall j

theorem located_initial (j : String) : Located env (Store.initial.placement j) := by
  have h : Store.initial.placement j = ⟨none, fun _ => none, none, none, ∅⟩ := by
    ext <;> simp [Store.placement, Store.initial]
  rw [h]
  exact .absent

/-- **Run lemma.** Whatever the replicas do and in whatever order, every execution is
located in every world reached. -/
theorem reached_located {w : World} (h : Reached env w) (j : String) :
    Located env (w.store.placement j) := by
  revert j
  refine h.invariant (P := fun w => ∀ j, Located env (w.store.placement j)) ?_ ?_
  · rintro ⟨clock, s⟩ rfl j
    exact located_initial j
  · rintro w e w' hall ⟨-, rfl⟩ j
    exact located_of_transaction hall (transaction_after ..) j

end Invariant

end Yeodam.Jobs
