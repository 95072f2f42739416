/-
Two clocks on an upload batch: its buffer's deadline and its place in the queue.

`stage_photos` renews the deadline of a buffer with every batch, but trims the queue by
the time each item was queued. A batch can so be trimmed while its buffer lives on:
`batchesKept_iff_timely` says exactly when a staging does it, `run_batchesKept` that it
is the only way a batch is lost.

`Tracked` adds to the world the members popped since they were last queued, which no
key of the store records.
-/

import Yeodam.Jobs.PhotoBatches

namespace Yeodam.Jobs

open Yeodam.Lib

variable {env : Env}

/-! ### Batches in a live buffer -/

/-- The live buffer of `i` contains the batch `no`. -/
def Store.Holds (s : Store) (now : Time) (i no : String) : Prop :=
  ∃ buffer photos, s.photoBatchesAt now i = some buffer ∧ (no, photos) ∈ buffer.batches

/-- A queued batch of a live buffer has been queued for the buffer's whole time to live. -/
def Overdue (env : Env) (s : Store) (now : Time) : Prop :=
  ∃ i no score, s.Holds now i no ∧ s.batchQueue.score? (photoBatchMember i no) = some score ∧
    score + env.cfg.jobsPhotosReadyTtlSec ≤ now

section Buffers

variable {now now' : Time} {s s' : Store} {op : Op} {i no : String}

theorem photoBatchesAt_eq_some {b : PhotoBatchBuffer} :
    s.photoBatchesAt now i = some b ↔
      ∃ expiring, s.photoBatches i = some expiring ∧ now < expiring.expireAt ∧
        expiring.value = b := by
  unfold Store.photoBatchesAt
  cases s.photoBatches i with
  | none => simp
  | some expiring => simp [Option.filter]

/-- A buffer that is live later is live now. -/
theorem Store.Holds.of_le (h : s.Holds now' i no) (hle : now ≤ now') : s.Holds now i no := by
  obtain ⟨buffer, photos, hbuffer, hmem⟩ := h
  obtain ⟨expiring, hexp, hlt, rfl⟩ := photoBatchesAt_eq_some.mp hbuffer
  exact ⟨_, photos, photoBatchesAt_eq_some.mpr ⟨expiring, hexp, hle.trans_lt hlt, rfl⟩, hmem⟩

theorem Store.Holds.congr (h : s.Holds now i no) (hsame : s'.photoBatches i = s.photoBatches i) :
    s'.Holds now i no := by
  obtain ⟨buffer, photos, hbuffer, hmem⟩ := h
  refine ⟨buffer, photos, ?_, hmem⟩
  simpa [Store.photoBatchesAt, hsame] using hbuffer

theorem PhotoBatchBuffer.insert_batches {b b' : PhotoBatchBuffer} {photos : List ReadyAttachment}
    (h : b.insert no photos = .ok b') : b'.batches = b.batches ++ [(no, photos)] := by
  unfold PhotoBatchBuffer.insert at h
  obtain ⟨known, -, h⟩ := except_bind_eq_ok.mp h
  split at h
  · cases h
  dsimp only at h
  split at h
  · cases h
  · cases h
    rfl

/-- The keys of every buffer are batch numbers, so none has a `#`. -/
def BufferKeys (s : Store) : Prop :=
  ∀ i b, s.photoBatches i = some b → ∀ batch ∈ b.value.batches, '#' ∉ batch.1.toList

theorem bufferKeys_of_transaction (hkeys : BufferKeys s) (h : Transaction env now s op s') :
    BufferKeys s' := by
  intro i b hb batch hbatch
  rcases photoBatches_of_transaction h i with hsame | hnone | ⟨message, topic, rfl, rfl, hopen⟩
  · exact hkeys i b (hsame ▸ hb) batch hbatch
  · rw [hnone] at hb
    cases hb
  · cases h with
    | unchanged => exact hkeys _ b hb batch hbatch
    | changed htarget => cases htarget
    | @staged _ _ old buffer _ hold _ hins =>
        have hb' : b = ⟨buffer, now + env.cfg.jobsPhotosReadyTtlSec⟩ := by
          simpa [Store.stage, eq_comm] using hb
        subst hb'
        rw [PhotoBatchBuffer.insert_batches hins, List.mem_append, List.mem_singleton] at hbatch
        rcases hbatch with hbatch | rfl
        · rcases hold with hold | ⟨-, rfl⟩
          · obtain ⟨expiring, hexp, -, rfl⟩ := photoBatchesAt_eq_some.mp hold
            exact hkeys _ expiring hexp batch hbatch
          · cases hbatch
        · exact hash_not_mem_batchNo _

theorem reached_bufferKeys {w : World} (h : Reached env w) : BufferKeys w.store := by
  refine h.invariant (P := fun w => BufferKeys w.store) ?_ ?_
  · rintro ⟨clock, s⟩ rfl i b hb
    cases hb
  · rintro w e w' hkeys ⟨-, rfl⟩
    exact bufferKeys_of_transaction hkeys (transaction_after ..)

theorem Store.Holds.key (h : s.Holds now i no) (hkeys : BufferKeys s) : '#' ∉ no.toList := by
  obtain ⟨buffer, photos, hbuffer, hmem⟩ := h
  obtain ⟨expiring, hexp, -, rfl⟩ := photoBatchesAt_eq_some.mp hbuffer
  exact hkeys i expiring hexp _ hmem

/-! ### What each operation does to a held batch -/

/-- Operations other than staging and popping keep the batches of open executions:
only registration removes queue items, and only of the execution it closes. -/
theorem holds_of_transaction (hkeys : BufferKeys s) (h : Transaction env now s op s')
    (hpop : op ≠ .popBatch) (hstage : ∀ message topic, op ≠ .stagePhotos message topic)
    (hholds : s'.Holds now' i no) :
    s.Holds now' i no ∧
      (photoBatchMember i no ∈ s.batchQueue → photoBatchMember i no ∈ s'.batchQueue) := by
  -- A registration of `j`, which is not `i` since the buffer of `i` is still there.
  have hdrop : ∀ {j : String} {staged : List String}, stagedBatches env j now s = .ok staged →
      s'.photoBatches = Function.update s.photoBatches j none →
      s'.batchQueue = (s.dropBatches j staged).batchQueue →
      s.Holds now' i no ∧
        (photoBatchMember i no ∈ s.batchQueue → photoBatchMember i no ∈ s'.batchQueue) := by
    intro j staged hstaged hbuffers hqueue
    have hne : i ≠ j := by
      rintro rfl
      obtain ⟨buffer, photos, hbuffer, -⟩ := hholds
      rw [photoBatchesAt_eq_some, hbuffers] at hbuffer
      simp at hbuffer
    have hold : s.Holds now' i no := hholds.congr (by rw [hbuffers, Function.update_of_ne hne])
    refine ⟨hold, fun hmem => ?_⟩
    obtain ⟨score, hscore⟩ := SortedSet.mem_iff.mp hmem
    refine SortedSet.mem_iff.mpr ⟨score, ?_⟩
    rw [hqueue, score?_dropBatches, if_neg]
    · exact hscore
    rintro ⟨no', hno', heq⟩
    have hkey' : '#' ∉ no'.toList := by
      unfold stagedBatches at hstaged
      split at hstaged
      · rename_i raw hraw
        obtain ⟨b, hload, rfl⟩ := except_map_eq_ok.mp hstaged
        obtain ⟨expiring, hexp, -, rfl⟩ := photoBatchesAt_eq_some.mp hraw
        unfold PhotoBatchBuffer.load at hload
        split at hload
        · cases hload
          obtain ⟨batch, hbatch, rfl⟩ := List.mem_map.mp hno'
          exact hkeys j expiring hexp batch hbatch
        · cases hload
      · cases hstaged
        cases hno'
    exact hne (photoBatchMember_injective (hold.key hkeys) hkey' heq).1
  cases h with
  | unchanged | swept | unqueued | claimed | acknowledged => exact ⟨hholds, id⟩
  | changed _ _ _ _ hw =>
      obtain ⟨hbuffers, hqueue⟩ := photoBatches_writeChange hw
      exact ⟨hholds.congr (by rw [hbuffers]), by rw [hqueue]; exact id⟩
  | accepted _ _ _ _ hstaged => exact hdrop hstaged photoBatches_accept batchQueue_accept
  | ignored _ _ hstaged => exact hdrop hstaged rfl rfl
  | staged => exact absurd rfl (hstage _ _)
  | popped => exact absurd rfl hpop

/-- After a staging, a held batch is the new one or was held before. -/
theorem holds_stage {message : PhotosReadyMessage} {topic : String} {old buffer : PhotoBatchBuffer}
    (hold : s.photoBatchesAt now (message.identity env.sha256) = some old ∨
      s.photoBatchesAt now (message.identity env.sha256) = none ∧ old = { requestTopic := topic })
    (hins : old.insert (toString message.batchNo) (sortedPhotos message.attachments) = .ok buffer)
    (hholds : (s.stage env (message.identity env.sha256) (toString message.batchNo) buffer
      now).Holds now' i no) (hle : now ≤ now') :
    photoBatchMember i no =
        photoBatchMember (message.identity env.sha256) (toString message.batchNo) ∨
      s.Holds now i no := by
  by_cases hi : i = message.identity env.sha256
  · subst hi
    obtain ⟨b, photos, hb, hmem⟩ := hholds
    obtain ⟨expiring, hexp, -, rfl⟩ := photoBatchesAt_eq_some.mp hb
    obtain rfl : ⟨buffer, now + env.cfg.jobsPhotosReadyTtlSec⟩ = expiring := by
      simpa [Store.stage] using hexp
    rw [PhotoBatchBuffer.insert_batches hins, List.mem_append, List.mem_singleton] at hmem
    rcases hmem with hmem | hmem
    · rcases hold with hold | ⟨-, rfl⟩
      · exact .inr ⟨old, photos, hold, hmem⟩
      · cases hmem
    · cases hmem
      exact .inl rfl
  · refine .inr ((hholds.of_le hle).congr ?_)
    simp [Store.stage, hi]

/-- A batch held before a staging is held after it. -/
theorem holds_stage_of_holds {message : PhotosReadyMessage} {topic : String}
    {old buffer : PhotoBatchBuffer}
    (hold : s.photoBatchesAt now (message.identity env.sha256) = some old ∨
      s.photoBatchesAt now (message.identity env.sha256) = none ∧ old = { requestTopic := topic })
    (hins : old.insert (toString message.batchNo) (sortedPhotos message.attachments) = .ok buffer)
    (hholds : s.Holds now i no) :
    (s.stage env (message.identity env.sha256) (toString message.batchNo) buffer now).Holds
      now i no := by
  by_cases hi : i = message.identity env.sha256
  · subst hi
    obtain ⟨b, photos, hb, hmem⟩ := hholds
    rcases hold with hold | ⟨hnone, -⟩
    · rw [hb] at hold
      cases hold
      have httl : (0 : Time) < env.cfg.jobsPhotosReadyTtlSec := by
        exact_mod_cast env.cfg.photosReadyTtl_pos
      refine ⟨buffer, photos, photoBatchesAt_eq_some.mpr
        ⟨⟨buffer, now + env.cfg.jobsPhotosReadyTtlSec⟩, by simp [Store.stage], ?_, rfl⟩, ?_⟩
      · exact lt_add_of_pos_right now httl
      · rw [PhotoBatchBuffer.insert_batches hins]
        exact List.mem_append_left _ hmem
    · rw [hnone] at hb
      cases hb
  · exact hholds.congr (by simp [Store.stage, hi])

end Buffers

/-! ### The world with what has been popped -/

structure Tracked where
  world : World
  /-- Members popped since they were last queued. -/
  popped : List String

def Tracked.next (env : Env) (t : Tracked) (e : Event) : Tracked where
  world := t.world.next env e
  popped := match e.op, perform env e.time t.world.store e.op with
    | .popBatch, .ok (.batch (some (member, _)), _) => member :: t.popped
    | .stagePhotos message _, .ok (.stage .staged, _) =>
        t.popped.filter fun member =>
          member ≠ photoBatchMember (message.identity env.sha256) (toString message.batchNo)
    | _, _ => t.popped

def TrackedStep (env : Env) (t : Tracked) (e : Event) (t' : Tracked) : Prop :=
  t.world.clock ≤ e.time ∧ t' = t.next env e

def TrackedInitial (t : Tracked) : Prop := Initial t.world ∧ t.popped = []

/-- Every batch of a live buffer of an open execution that has not been popped is still
queued. -/
def BatchesKept (t : Tracked) : Prop :=
  ∀ now i no, t.world.clock ≤ now → t.world.store.Holds now i no →
    t.world.store.jobs i = none → t.world.store.ignored i = false →
    photoBatchMember i no ∉ t.popped → photoBatchMember i no ∈ t.world.store.batchQueue

/-- If the event stages a new batch, no batch of a live buffer is overdue. -/
def Timely (env : Env) (t : Tracked) (e : Event) : Prop :=
  ∀ message topic, e.op = .stagePhotos message topic →
    TakesNew env e.time t.world.store message topic → ¬ Overdue env t.world.store e.time

section Tracking

variable {t t' : Tracked} {e : Event} {es : List Event}

/-- What holds of every tracked world, timely or not. -/
structure Consistent (env : Env) (t : Tracked) : Prop where
  reached : Reached env t.world
  fresh : ∀ member ∈ t.popped, member ∉ t.world.store.batchQueue

/-- The popped members after an event that is neither a pop nor a new batch. -/
theorem popped_next (hpop : e.op ≠ .popBatch)
    (hstage : ∀ message topic, e.op = .stagePhotos message topic →
      ¬ TakesNew env e.time t.world.store message topic) : (t.next env e).popped = t.popped := by
  unfold Tracked.next
  dsimp only
  split
  · rename_i hop _
    exact absurd hop hpop
  · rename_i message topic s' hop hperf
    refine absurd ?_ (hstage message topic hop)
    rw [hop] at hperf
    obtain ⟨⟨reply, s''⟩, hstaged, h⟩ := except_bind_eq_ok.mp hperf
    cases h
    exact ⟨_, hstaged⟩
  · rfl

/-- An event by what it does to the batch queue: a pop, a new batch, or neither. -/
theorem next_cases (env : Env) (t : Tracked) (e : Event) :
    (∃ member score, e.op = .popBatch ∧
      t.world.store.batchQueue.first? = some (member, score) ∧
      (t.next env e).popped = member :: t.popped ∧
      (t.next env e).world.store =
        { t.world.store with batchQueue := t.world.store.batchQueue.remove member }) ∨
    (∃ message topic old buffer, e.op = .stagePhotos message topic ∧
      TakesNew env e.time t.world.store message topic ∧
      t.world.store.closed (message.identity env.sha256) = false ∧
      (t.world.store.photoBatchesAt e.time (message.identity env.sha256) = some old ∨
        t.world.store.photoBatchesAt e.time (message.identity env.sha256) = none ∧
          old = { requestTopic := topic }) ∧
      old.batches.lookup (toString message.batchNo) = none ∧
      old.insert (toString message.batchNo) (sortedPhotos message.attachments) = .ok buffer ∧
      (t.next env e).popped = t.popped.filter (fun member =>
        member ≠ photoBatchMember (message.identity env.sha256) (toString message.batchNo)) ∧
      (t.next env e).world.store = t.world.store.stage env (message.identity env.sha256)
        (toString message.batchNo) buffer e.time) ∨
    ((∀ message topic, e.op = .stagePhotos message topic →
        ¬ TakesNew env e.time t.world.store message topic) ∧
      (t.next env e).popped = t.popped ∧
      ((t.next env e).world.store = t.world.store ∨
        e.op ≠ .popBatch ∧ ∀ message topic, e.op ≠ .stagePhotos message topic)) := by
  by_cases hpop : e.op = .popBatch
  · cases hfirst : t.world.store.batchQueue.first? with
    | none =>
        refine .inr (.inr ⟨fun _ _ hop => ?_, ?_, .inl ?_⟩)
        · cases hpop.symm.trans hop
        · simp [Tracked.next, hpop, perform, popBatch, hfirst]
        · simp [Tracked.next, World.next, after, hpop, perform, popBatch, hfirst]
    | some head =>
        obtain ⟨member, score⟩ := head
        refine .inl ⟨member, score, hpop, rfl, ?_, ?_⟩
        · simp [Tracked.next, hpop, perform, popBatch, hfirst]
        · simp [Tracked.next, World.next, after, hpop, perform, popBatch, hfirst]
  by_cases hstages : ∃ message topic, e.op = .stagePhotos message topic ∧
      TakesNew env e.time t.world.store message topic
  · obtain ⟨message, topic, hop, s', hstaged⟩ := hstages
    have hperf : perform env e.time t.world.store (.stagePhotos message topic) =
        .ok (.stage .staged, s') := except_bind_eq_ok.mpr ⟨_, hstaged, rfl⟩
    rcases stagePhotos_cases hstaged with ⟨h, -⟩ | ⟨h, -⟩ |
      ⟨-, hopen, old, buffer, hnew, hins, hold, hs'⟩
    · cases h
    · cases h
    · refine .inr (.inl ⟨message, topic, old, buffer, hop, ⟨s', hstaged⟩, hopen, hold, hnew, hins,
        ?_, ?_⟩)
      · simp only [Tracked.next, hop, hperf]
      · simp only [Tracked.next, World.next, after, hop, hperf, hs']
  · have hno : ∀ message topic, e.op = .stagePhotos message topic →
        ¬ TakesNew env e.time t.world.store message topic :=
      fun message topic hop hs => hstages ⟨message, topic, hop, hs⟩
    refine .inr (.inr ⟨hno, popped_next hpop hno, ?_⟩)
    by_cases hstage : ∃ message topic, e.op = .stagePhotos message topic
    · obtain ⟨message, topic, hop⟩ := hstage
      left
      simp only [Tracked.next, World.next, after, hop]
      split
      · rename_i reply s' hperf
        obtain ⟨⟨reply', s''⟩, hstaged, h⟩ := except_bind_eq_ok.mp hperf
        cases h
        rcases stagePhotos_cases hstaged with ⟨-, -, rfl⟩ | ⟨-, -, rfl⟩ | ⟨rfl, -⟩
        · rfl
        · rfl
        · exact absurd ⟨_, hstaged⟩ (hno message topic hop)
      · rfl
    · exact .inr ⟨hpop, fun message topic hop => hstage ⟨message, topic, hop⟩⟩

theorem consistent_next (h : Consistent env t) (hle : t.world.clock ≤ e.time) :
    Consistent env (t.next env e) where
  reached := h.reached.next ⟨hle, rfl⟩
  fresh := by
    intro member hmember
    rw [SortedSet.mem_iff, not_exists]
    have hfresh := fun m hm => not_exists.mp (SortedSet.mem_iff.not.mp (h.fresh m hm))
    rcases next_cases env t e with ⟨head, score, -, -, hpopped, hstore⟩ |
      ⟨message, topic, old, buffer, -, -, -, -, -, -, hpopped, hstore⟩ | ⟨hno, hpopped, hquiet⟩
    · rw [hpopped, List.mem_cons] at hmember
      intro score'
      rw [hstore, SortedSet.score?_remove]
      split
      · simp
      · exact hfresh member (hmember.resolve_left ‹_›) score'
    · rw [hpopped, List.mem_filter] at hmember
      intro score' hscore
      rw [hstore, score?_stage, if_neg (by simpa using hmember.2)] at hscore
      exact hfresh member hmember.1 score' (Option.filter_eq_some_iff.mp hscore).1
    · rw [hpopped] at hmember
      intro score' hscore
      rcases queued_of_transaction (transaction_after ..) hscore with
        hold | ⟨message, topic, hop, -⟩
      · exact h.fresh member hmember (SortedSet.mem_iff.mpr ⟨score', hold⟩)
      · rcases hquiet with hsame | ⟨-, hstage⟩
        · rw [hsame] at hscore
          exact h.fresh member hmember (SortedSet.mem_iff.mpr ⟨score', hscore⟩)
        · exact hstage message topic hop

/-- **Step lemma.** A timely event loses no batch. -/
theorem batchesKept_next (h : Consistent env t) (hkept : BatchesKept t)
    (hle : t.world.clock ≤ e.time) (htimely : Timely env t e) : BatchesKept (t.next env e) := by
  have hkeys := reached_bufferKeys h.reached
  intro now i no hnow hholds hjob hign hpopped'
  have hnow' : e.time ≤ now := hnow
  rcases next_cases env t e with ⟨head, score, -, -, hpopped, hstore⟩ |
    ⟨message, topic, old, buffer, hop, hstages, hopen, hold, hnew, hins, hpopped, hstore⟩ |
    ⟨hno, hpopped, hquiet⟩
  · rw [hstore] at hholds hjob hign ⊢
    rw [hpopped, List.mem_cons, not_or] at hpopped'
    have hmem := hkept now i no (hle.trans hnow') hholds hjob hign hpopped'.2
    obtain ⟨score', hscore⟩ := SortedSet.mem_iff.mp hmem
    exact SortedSet.mem_iff.mpr
      ⟨score', by rw [SortedSet.score?_remove_ne hpopped'.1]; exact hscore⟩
  · rw [hstore] at hholds hjob hign ⊢
    rw [SortedSet.mem_iff]
    by_cases hmember : photoBatchMember i no =
        photoBatchMember (message.identity env.sha256) (toString message.batchNo)
    · exact ⟨e.time, by rw [score?_stage, if_pos hmember]⟩
    · have hold' : t.world.store.Holds e.time i no :=
        (holds_stage hold hins hholds hnow').resolve_left hmember
      have hnot : photoBatchMember i no ∉ t.popped := fun hmem => hpopped' (by
        rw [hpopped, List.mem_filter]
        exact ⟨hmem, by simpa using hmember⟩)
      obtain ⟨score, hscore⟩ := SortedSet.mem_iff.mp (hkept e.time i no hle hold' hjob hign hnot)
      refine ⟨score, ?_⟩
      rw [score?_stage, if_neg hmember, hscore, Option.filter_some_pos]
      refine decide_eq_true (not_le.mp fun hover => ?_)
      exact htimely message topic hop hstages ⟨i, no, score, hold', hscore, hover⟩
  · rw [hpopped] at hpopped'
    rcases hquiet with hsame | ⟨hpop, hstage⟩
    · rw [hsame] at hholds hjob hign ⊢
      exact hkept now i no (hle.trans hnow') hholds hjob hign hpopped'
    · have htrans := transaction_after env e.time t.world.store e.op
      obtain ⟨hholds', hqueue⟩ := holds_of_transaction hkeys htrans hpop hstage hholds
      refine hqueue (hkept now i no (hle.trans hnow') hholds' ?_ ?_ hpopped')
      · cases hraw : t.world.store.jobs i with
        | none => rfl
        | some raw =>
            have hrec := recordStep_of_transaction htrans i
            rw [hraw] at hrec
            obtain ⟨stored, hstored, -⟩ := hrec.sameExecution
            cases hstored.symm.trans hjob
      · rcases ignored_of_transaction htrans i with hsame | ⟨-, hmarked, -⟩
        · exact hsame.symm.trans hign
        · cases hmarked.symm.trans hign

/-- A staging that is not timely loses a batch. -/
theorem not_batchesKept_next (h : Consistent env t) (hlate : ¬ Timely env t e) :
    ¬ BatchesKept (t.next env e) := by
  have hkeys := reached_bufferKeys h.reached
  simp only [Timely, not_forall, not_not] at hlate
  obtain ⟨message, topic, hop, hstages, i, no, score, hholds, hscore, hover⟩ := hlate
  rcases next_cases env t e with ⟨_, _, hpop, -⟩ |
    ⟨message', topic', old, buffer, hop', -, hopen, hold, hnew, hins, hpopped, hstore⟩ |
    ⟨hno, -⟩
  · cases hop.symm.trans hpop
  · rw [hop] at hop'
    cases hop'
    intro hkept
    have hne : photoBatchMember i no ≠
        photoBatchMember (message.identity env.sha256) (toString message.batchNo) := by
      intro heq
      obtain ⟨rfl, rfl⟩ := photoBatchMember_injective (hholds.key hkeys)
        (hash_not_mem_batchNo _) heq
      obtain ⟨b, photos, hb, hmem⟩ := hholds
      rcases hold with hold | ⟨hnone, -⟩
      · rw [hb] at hold
        cases hold
        rw [List.lookup_eq_none_iff] at hnew
        simpa using hnew _ hmem
      · rw [hnone] at hb
        cases hb
    have hclosed : t.world.store.closed i = false := by
      by_contra hclosed
      have hlive : (t.world.store.photoBatchesAt e.time i).isSome = true := by
        obtain ⟨b, _, hb, -⟩ := hholds
        rw [hb]
        rfl
      exact photoBatches_of_live hlive (reached_closedEmpty h.reached i (by simpa using hclosed))
    simp only [Store.closed, Bool.or_eq_false_iff, Option.isSome_eq_false_iff,
      Option.isNone_iff_eq_none] at hclosed
    have hnot : photoBatchMember i no ∉ (t.next env e).popped := by
      rw [hpopped, List.mem_filter]
      exact fun hmem => h.fresh _ hmem.1 (SortedSet.mem_iff.mpr ⟨score, hscore⟩)
    have hmem := hkept e.time i no (le_refl e.time)
      (by rw [hstore]; exact holds_stage_of_holds hold hins hholds)
      (by rw [hstore]; exact hclosed.1) (by rw [hstore]; exact hclosed.2) hnot
    obtain ⟨score', hscore'⟩ := SortedSet.mem_iff.mp hmem
    rw [hstore, score?_stage, if_neg hne, hscore, Option.filter_some_neg] at hscore'
    · cases hscore'
    · simpa using hover
  · exact absurd hstages (hno message topic hop)

/-- Exactly the timely events keep every batch. -/
theorem batchesKept_iff_timely (h : Consistent env t) (hkept : BatchesKept t)
    (hle : t.world.clock ≤ e.time) : BatchesKept (t.next env e) ↔ Timely env t e := by
  constructor
  · intro hnext
    by_contra hlate
    exact not_batchesKept_next h hlate hnext
  · exact batchesKept_next h hkept hle

/-- The trim of a timely staging removes an item only if no live buffer has its batch. -/
theorem trimmed_not_held (htimely : Timely env t e) {message : PhotosReadyMessage} {topic : String}
    (hop : e.op = .stagePhotos message topic)
    (hstages : TakesNew env e.time t.world.store message topic) {i no : String}
    (hbefore : photoBatchMember i no ∈ t.world.store.batchQueue)
    (hafter : photoBatchMember i no ∉ (t.next env e).world.store.batchQueue) :
    ¬ t.world.store.Holds e.time i no := by
  intro hholds
  obtain ⟨score, hscore⟩ := SortedSet.mem_iff.mp hbefore
  rcases next_cases env t e with ⟨_, _, hpop, -⟩ |
    ⟨message', topic', old, buffer, hop', -, -, -, -, -, -, hstore⟩ | ⟨hno, -⟩
  · cases hop.symm.trans hpop
  · refine hafter (SortedSet.mem_iff.mpr ?_)
    rw [hstore, score?_stage]
    split
    · exact ⟨e.time, rfl⟩
    · refine ⟨score, ?_⟩
      rw [hscore, Option.filter_some_pos]
      exact decide_eq_true (not_le.mp fun hover =>
        htimely message topic hop hstages ⟨i, no, score, hholds, hscore, hover⟩)
  · exact hno message topic hop hstages

/-- An event is timely while everything queued is younger than the time to live. -/
theorem timely_of_scores (h : t.world.store.batchQueue.entries.all (fun entry =>
    decide (e.time < entry.2 + env.cfg.jobsPhotosReadyTtlSec)) = true) : Timely env t e := by
  rintro message topic - - ⟨i, no, score, -, hscore, hover⟩
  have hyoung := List.all_eq_true.mp h _ (SortedSet.mem_entries_iff.mpr hscore)
  exact absurd hover (not_le.mpr (of_decide_eq_true hyoung))

/-- **No photo batch is lost in a timely run.** While no staging finds an overdue batch,
every batch of a live buffer is queued until it is popped, and the trim removes only
items without a live buffer. The next event keeps this exactly if it is timely. -/
theorem run_batchesKept {t₀ : Tracked} (h₀ : TrackedInitial t₀)
    (hrun : Run (Guarded (Timely env) (TrackedStep env)) t₀ es t) :
    BatchesKept t ∧
      (∀ e, t.world.clock ≤ e.time → (BatchesKept (t.next env e) ↔ Timely env t e)) ∧
      (∀ e message topic i no, t.world.clock ≤ e.time → Timely env t e →
        e.op = .stagePhotos message topic → TakesNew env e.time t.world.store message topic →
        photoBatchMember i no ∈ t.world.store.batchQueue →
        photoBatchMember i no ∉ (t.next env e).world.store.batchQueue →
        ¬ t.world.store.Holds e.time i no) := by
  have hconsistent : Consistent env t ∧ BatchesKept t := by
    refine hrun.preserves_of (P := fun t => Consistent env t ∧ BatchesKept t) ?_ ?_
    · rintro t e t' ⟨hcons, hkept⟩ htimely ⟨hle, rfl⟩
      exact ⟨consistent_next hcons hle, batchesKept_next hcons hkept hle htimely⟩
    · refine ⟨⟨.of_init h₀.1, ?_⟩, ?_⟩
      · rw [h₀.2]
        simp
      · rintro now i no - ⟨buffer, photos, hbuffer, -⟩
        have hstore : t₀.world.store = .initial := h₀.1
        rw [photoBatchesAt_eq_some, hstore] at hbuffer
        obtain ⟨_, hnone, -⟩ := hbuffer
        cases hnone
  refine ⟨hconsistent.2, ?_, ?_⟩
  · intro e hle
    exact batchesKept_iff_timely hconsistent.1 hconsistent.2 hle
  · intro e message topic i no _ htimely hop hstages hbefore hafter
    exact trimmed_not_held htimely hop hstages hbefore hafter

/-! ### A batch lost -/

/-- Two batches of one execution five days apart, and one of another execution seven and
a half days after the first. The time to live is seven days. -/
def spacedSchedule : List Event :=
  [⟨0, .stagePhotos (sampleBatch "e1" 1 e1_length Int.one_pos) "local.yeodam.trip-create.request"⟩,
   ⟨5 * 86400, .stagePhotos (sampleBatch "e1" 2 e1_length batchNo_two)
     "local.yeodam.trip-create.request"⟩,
   ⟨15 / 2 * 86400, .stagePhotos (sampleBatch "e2" 1 e2_length Int.one_pos)
     "local.yeodam.trip-create.request"⟩]

/-- Every world a schedule of transactions leads to, tracked. -/
def track (env : Env) : Tracked → List Event → Tracked
  | t, [] => t
  | t, e :: es => track env (t.next env e) es

theorem run_track (h : Ordered t.world.clock es = true) :
    Run (TrackedStep env) t es (track env t es) := by
  induction es generalizing t with
  | nil => exact .refl t
  | cons e es ih =>
      simp only [Ordered, Bool.and_eq_true, decide_eq_true_eq] at h
      exact .cons ⟨h.1, rfl⟩ (ih h.2)

end Tracking

/-- The first batch of `spacedSchedule` is no longer queued, was never popped, and its
buffer lives until the twelfth day. -/
theorem spaced_loses_batch : ¬ ∀ (env : Env) (t₀ t : Tracked) (es : List Event),
    TrackedInitial t₀ → Run (TrackedStep env) t₀ es t → BatchesKept t := by
  intro h
  let t₀ : Tracked := ⟨⟨0, .initial⟩, []⟩
  let i := identity sampleDigest 8 .process "e1"
  have hkept := h sampleEnv t₀ (track sampleEnv t₀ spacedSchedule) spacedSchedule ⟨rfl, rfl⟩
    (run_track (by decide +kernel))
  have hbuffer : ((track sampleEnv t₀ spacedSchedule).world.store.photoBatchesAt
      (15 / 2 * 86400) i).any (fun b => b.batches.any fun batch => batch.1 = "1") = true := by
    decide +kernel
  obtain ⟨b, hb, hbatch⟩ := (Option.any_eq_true _ _).mp hbuffer
  obtain ⟨⟨no, photos⟩, hmem, hno⟩ := List.any_eq_true.mp hbatch
  obtain rfl : no = "1" := of_decide_eq_true hno
  have hqueued := hkept (15 / 2 * 86400) i "1" (by decide +kernel) ⟨b, photos, hb, hmem⟩
    (by decide +kernel) (by decide +kernel) (by decide +kernel)
  have hlost : ((track sampleEnv t₀ spacedSchedule).world.store.batchQueue.score?
      (photoBatchMember i "1")).isSome = false := by decide +kernel
  exact absurd hqueued (by rw [SortedSet.mem_iff, ← Option.isSome_iff_exists, hlost]; decide)

/-- The world after the first `n` events of `spacedSchedule`. -/
def spacedWorld (n : Nat) : Tracked :=
  track sampleEnv ⟨⟨0, .initial⟩, []⟩ (spacedSchedule.take n)

/-- The first two batches of `spacedSchedule` are staged in time, and both are kept. -/
theorem batchesKept_spacedWorld :
    BatchesKept (spacedWorld 2) ∧ (spacedWorld 2).world.store.batchQueue.entries.length = 2 := by
  have hrun : Run (Guarded (Timely sampleEnv) (TrackedStep sampleEnv)) (spacedWorld 0)
      (spacedSchedule.take 2) (spacedWorld 2) := by
    refine .cons ⟨timely_of_scores ?_, ?_, rfl⟩ (.cons ⟨timely_of_scores ?_, ?_, rfl⟩ (.refl _))
    all_goals decide +kernel
  have h₀ : TrackedInitial (spacedWorld 0) := ⟨rfl, rfl⟩
  exact ⟨(run_batchesKept h₀ hrun).1, by decide +kernel⟩

end Yeodam.Jobs
