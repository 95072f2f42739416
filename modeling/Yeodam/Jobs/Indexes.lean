/-
The four indexes against the records: two queues, the running set, the pending set.

A record is in the index of its stage and in no other, and a running one has its
deadline as its score. Everything here is read off `Located`.
-/

import Yeodam.Jobs.Records

namespace Yeodam.Jobs

open Yeodam.Lib

/-- The sorted sets an execution moves through. -/
inductive IndexName where
  | queue (kind : JobKind)
  | running
  | pending
deriving DecidableEq

def Store.index (s : Store) : IndexName → SortedSet String Time
  | .queue kind => s.queue kind
  | .running => s.running
  | .pending => s.pending

/-- The score an execution has in an index. -/
def Placement.score? (p : Placement) : IndexName → Option Time
  | .queue kind => p.queued kind
  | .running => p.running
  | .pending => p.pending

/-- The index a record belongs in, if any. -/
def JobRecord.index? (r : JobRecord) : Option IndexName :=
  match r.status with
  | .queued => some (.queue r.kind)
  | .processing => some .running
  | .completed | .failed | .canceled => if r.published then none else some .pending

variable {env : Env} {s : Store} {i : String}

theorem score?_index (name : IndexName) :
    (s.index name).score? i = (s.placement i).score? name := by
  cases name <;> rfl

@[simp] theorem JobRecord.core_index? (r : JobRecord) : r.core.index? = r.index? := rfl

theorem JobRecord.index?_of_terminal {r : JobRecord} (h : r.status.terminal = true) :
    r.index? = if r.published then none else some .pending := by
  unfold index?
  cases hs : r.status with
  | queued | processing => rw [hs] at h; cases h
  | completed | failed | canceled => rfl

/-- A located execution is in exactly the index its record belongs in. -/
theorem Located.isSome_score?_iff {p : Placement} (h : Located env p) (name : IndexName) :
    (p.score? name).isSome = true ↔ ∃ r, p.job = some r ∧ r.index? = some name := by
  cases h with
  | absent => cases name <;> simp [Placement.score?]
  | @waiting r score hs _ =>
      have hidx : r.index? = some (.queue r.kind) := by simp [JobRecord.index?, hs]
      cases name with
      | queue kind =>
          by_cases hk : kind = r.kind
          · subst hk
            simp [Placement.score?, hidx]
          · simp [Placement.score?, hidx, Function.update_of_ne hk, Ne.symm hk]
      | running | pending => simp [Placement.score?, hidx]
  | @running r _ _ hs _ _ _ =>
      have hidx : r.index? = some .running := by simp [JobRecord.index?, hs]
      cases name <;> simp [Placement.score?, hidx]
  | @ended r _ hterm _ hpub =>
      have hidx : r.index? = some .pending := by simp [JobRecord.index?_of_terminal hterm, hpub]
      cases name <;> simp [Placement.score?, hidx]
  | @published r hterm _ hpub =>
      have hidx : r.index? = none := by simp [JobRecord.index?_of_terminal hterm, hpub]
      cases name <;> simp [Placement.score?, hidx]

theorem Located.mem_index_iff (h : Located env (s.placement i)) (name : IndexName) :
    i ∈ s.index name ↔ ∃ r, s.jobs i = some r ∧ r.index? = some name := by
  have hiff := h.isSome_score?_iff name
  rw [← score?_index] at hiff
  apply hiff.trans
  simp [Store.placement]

/-- The running score of a located execution is its record's deadline. -/
theorem Located.running_score {r : JobRecord} (h : Located env (s.placement i))
    (hr : s.jobs i = some r) (hs : r.status = .processing) :
    ∃ heartbeat started, r.heartbeatAt = some heartbeat ∧ r.startedAt = some started ∧
      s.running.score? i =
        some (min (heartbeat + env.cfg.jobsLeaseSec) (started + env.cfg.jobTimeout r.kind)) := by
  have hjob : (s.placement i).job = some r.core := by simp [Store.placement, hr]
  have hrun : (s.placement i).running = s.running.score? i := rfl
  generalize s.placement i = p at h hjob hrun
  have hs' : r.core.status = .processing := hs
  cases h with
  | absent => cases hjob
  | @waiting r₀ _ hs₀ _ =>
      obtain rfl : r₀ = r.core := Option.some.inj hjob
      rw [hs'] at hs₀
      cases hs₀
  | @running r₀ deadline _ _ _ hd _ =>
      obtain rfl : r₀ = r.core := Option.some.inj hjob
      rw [JobRecord.core_deadline] at hd
      unfold JobRecord.deadline at hd
      split at hd
      · rename_i heartbeat started hh ht
        exact ⟨heartbeat, started, hh, ht, hrun.symm.trans hd.symm⟩
      · cases hd
  | @ended r₀ _ hterm _ _ =>
      obtain rfl : r₀ = r.core := Option.some.inj hjob
      rw [hs'] at hterm
      cases hterm
  | @published r₀ hterm _ _ =>
      obtain rfl : r₀ = r.core := Option.some.inj hjob
      rw [hs'] at hterm
      cases hterm

/-- The indexes agree with the records. -/
structure IndexesConsistent (env : Env) (s : Store) : Prop where
  /-- Records are kept under their own identities. -/
  keyed : Keyed env s
  queued : ∀ i kind, i ∈ s.queue kind ↔
    ∃ r, s.jobs i = some r ∧ r.kind = kind ∧ r.status = .queued
  running : ∀ i, i ∈ s.running ↔ ∃ r, s.jobs i = some r ∧ r.status = .processing
  running_score : ∀ i r, s.jobs i = some r → r.status = .processing →
    ∃ heartbeat started, r.heartbeatAt = some heartbeat ∧ r.startedAt = some started ∧
      s.running.score? i =
        some (min (heartbeat + env.cfg.jobsLeaseSec) (started + env.cfg.jobTimeout r.kind))
  pending : ∀ i, i ∈ s.pending ↔
    ∃ r, s.jobs i = some r ∧ r.status.terminal = true ∧ r.published = false
  disjoint : ∀ i name name', i ∈ s.index name → i ∈ s.index name' → name = name'

theorem JobRecord.index?_eq_queue_iff {r : JobRecord} {kind : JobKind} :
    r.index? = some (.queue kind) ↔ r.kind = kind ∧ r.status = .queued := by
  unfold index?
  cases r.status <;> cases r.published <;> simp

theorem JobRecord.index?_eq_running_iff {r : JobRecord} :
    r.index? = some .running ↔ r.status = .processing := by
  unfold index?
  cases r.status <;> cases r.published <;> simp

theorem JobRecord.index?_eq_pending_iff {r : JobRecord} :
    r.index? = some .pending ↔ r.status.terminal = true ∧ r.published = false := by
  unfold index?
  cases r.status <;> cases r.published <;> simp [TaskStatus.terminal]

/-- **Index consistency.** In every world reached, an execution is in `queue:<kind>`
exactly while it is queued, in `running` with its deadline exactly while it runs, in
`pending` exactly while its result is unpublished, and never in two of them. -/
theorem reached_indexesConsistent {w : World} (h : Reached env w) :
    IndexesConsistent env w.store where
  keyed := reached_keyed h
  queued i kind := by
    apply ((reached_located h i).mem_index_iff (.queue kind)).trans
    simp only [JobRecord.index?_eq_queue_iff]
  running i := by
    apply ((reached_located h i).mem_index_iff .running).trans
    simp only [JobRecord.index?_eq_running_iff]
  running_score i r hr hs := (reached_located h i).running_score hr hs
  pending i := by
    apply ((reached_located h i).mem_index_iff .pending).trans
    simp only [JobRecord.index?_eq_pending_iff]
  disjoint i name name' hname hname' := by
    obtain ⟨r, hr, hidx⟩ := ((reached_located h i).mem_index_iff name).mp hname
    obtain ⟨r', hr', hidx'⟩ := ((reached_located h i).mem_index_iff name').mp hname'
    obtain rfl : r = r' := Option.some.inj (hr.symm.trans hr')
    exact Option.some.inj (hidx.symm.trans hidx')

/-- In `sampleWorld` the story runs, with the end of its lease as its score. -/
theorem indexesConsistent_sampleWorld :
    IndexesConsistent sampleEnv sampleWorld.store ∧
      (sampleWorld.store.jobs sampleIdentity).map JobRecord.status = some .processing ∧
      sampleWorld.store.running.score? sampleIdentity = some 122 :=
  ⟨reached_indexesConsistent reached_sampleWorld, by decide +kernel, by decide +kernel⟩

end Yeodam.Jobs
