/-
What the staged batches of an execution add up to.

The loop over the new photos keeps one storage key for each photo, so a buffer that is
stored is `Bounded`, whatever messages arrive (`bounded_after`). A buffer holds the
batches that were delivered to it: their set decides its content, not the order of the
deliveries or the repetitions (`run_staged`), as long as the batches agree with each other
and fit the limits together (`Uploads`).
-/

import Yeodam.Jobs.BatchTrim
import Yeodam.Jobs.Kafka

namespace Yeodam.Jobs

open Yeodam.Lib

/-! ### Known photos -/

section Known

variable {known known' : KnownPhotos} {photos more : List ReadyAttachment} {p : ReadyAttachment}

/-- Each photo has one storage key. -/
def OneKey (photos : List ReadyAttachment) : Prop :=
  ∀ p ∈ photos, ∀ q ∈ photos, p.tripAttachmentId = q.tripAttachmentId →
    p.analyzeStorageKey = q.analyzeStorageKey

theorem OneKey.subset (h : OneKey photos) (hsub : ∀ p ∈ more, p ∈ photos) : OneKey more :=
  fun p hp q hq => h p (hsub p hp) q (hsub q hq)

/-- The photos of a list, each once. -/
def photoIds (photos : List ReadyAttachment) : Finset Int :=
  (photos.map ReadyAttachment.tripAttachmentId).toFinset

theorem mem_photoIds {id : Int} : id ∈ photoIds photos ↔ ∃ p ∈ photos, p.tripAttachmentId = id := by
  simp [photoIds]

theorem photoIds_mono (hsub : ∀ p ∈ more, p ∈ photos) : photoIds more ⊆ photoIds photos := by
  intro id hid
  obtain ⟨p, hp, rfl⟩ := mem_photoIds.mp hid
  exact mem_photoIds.mpr ⟨p, hsub p hp, rfl⟩

/-- The map holds the photos of a list under their keys. -/
structure Knows (known : KnownPhotos) (photos : List ReadyAttachment) : Prop where
  nodup : (known.map Prod.fst).Nodup
  mem : ∀ id key, (id, key) ∈ known ↔
    ∃ p ∈ photos, p.tripAttachmentId = id ∧ p.analyzeStorageKey = key

theorem Knows.oneKey (h : Knows known photos) : OneKey photos := by
  intro p hp q hq hid
  have hmem := (h.mem _ _).mpr ⟨p, hp, rfl, rfl⟩
  have hmem' := (h.mem _ _).mpr ⟨q, hq, rfl, rfl⟩
  exact congrArg Prod.snd (List.inj_on_of_nodup_map h.nodup hmem hmem' hid)

/-- The key a known photo has. -/
theorem Knows.lookup (h : Knows known photos) {id : Int} {key : String} :
    known.lookup id = some key ↔ ∃ p ∈ photos, p.tripAttachmentId = id ∧
      p.analyzeStorageKey = key := by
  rw [← h.mem]
  have hnodup := h.nodup
  clear h
  induction known with
  | nil => simp
  | cons entry known ih =>
      obtain ⟨id', key'⟩ := entry
      obtain ⟨hnot, hnodup⟩ := List.nodup_cons.mp hnodup
      by_cases hid : id = id'
      · subst hid
        have hne : ∀ key, (id, key) ∉ known := fun key hmem =>
          hnot (List.mem_map.mpr ⟨(id, key), hmem, rfl⟩)
        simp [hne, eq_comm]
      · have hbeq : (id == id') = false := by simpa using hid
        simp [List.lookup_cons, hbeq, ih hnodup, hid]

/-- A photo that keeps its key, or has none yet, is known afterwards. -/
theorem Knows.set (h : Knows known photos)
    (hkey : ∀ q ∈ photos, q.tripAttachmentId = p.tripAttachmentId →
      q.analyzeStorageKey = p.analyzeStorageKey) : Knows (known.set p) (photos ++ [p]) := by
  unfold KnownPhotos.set
  constructor
  · rw [List.map_cons, List.nodup_cons]
    refine ⟨?_, h.nodup.sublist (List.filter_sublist.map _)⟩
    rintro hmem
    obtain ⟨entry, hentry, heq⟩ := List.mem_map.mp hmem
    simpa [heq] using (List.mem_filter.mp hentry).2
  · intro id key
    simp only [List.mem_cons, Prod.mk.injEq, List.mem_filter, h.mem, List.mem_append,
      List.not_mem_nil, or_false, decide_eq_true_eq]
    constructor
    · rintro (⟨rfl, rfl⟩ | ⟨⟨q, hq, rfl, rfl⟩, -⟩)
      · exact ⟨p, .inr rfl, rfl, rfl⟩
      · exact ⟨q, .inl hq, rfl, rfl⟩
    · rintro ⟨q, hq | rfl, rfl, rfl⟩
      · by_cases hid : q.tripAttachmentId = p.tripAttachmentId
        · exact .inl ⟨hid, hkey q hq hid⟩
        · exact .inr ⟨⟨q, hq, rfl, rfl⟩, hid⟩
      · exact .inl ⟨rfl, rfl⟩

theorem Knows.foldl (h : Knows known photos) (hone : OneKey (photos ++ more)) :
    Knows (more.foldl KnownPhotos.set known) (photos ++ more) := by
  induction more generalizing known photos with
  | nil => simpa using h
  | cons p more ih =>
      have happend : photos ++ p :: more = photos ++ [p] ++ more := by simp
      rw [happend] at hone ⊢
      refine ih (h.set fun q hq hid => ?_) hone
      exact hone q (by simp [hq]) p (by simp) hid

theorem knows_known {b : PhotoBatchBuffer} (hone : OneKey (b.batches.flatMap Prod.snd)) :
    Knows b.known (b.batches.flatMap Prod.snd) := by
  have hnil : Knows ([] : KnownPhotos) [] := ⟨.nil, by simp⟩
  exact hnil.foldl hone

/-- **The loop over the new photos** goes through exactly when every photo keeps its key. -/
theorem Knows.extend (h : Knows known photos) :
    known.extend more = .ok known' ↔
      OneKey (photos ++ more) ∧ known' = more.foldl KnownPhotos.set known := by
  induction more generalizing known photos with
  | nil => simp [KnownPhotos.extend, h.oneKey, eq_comm]
  | cons p more ih =>
      have happend : photos ++ p :: more = photos ++ [p] ++ more := by simp
      have hall : ((known.lookup p.tripAttachmentId).all
          fun key => decide (key = p.analyzeStorageKey)) = true ↔
          ∀ q ∈ photos, q.tripAttachmentId = p.tripAttachmentId →
            q.analyzeStorageKey = p.analyzeStorageKey := by
        rw [Option.all_eq_true]
        simp only [h.lookup, decide_eq_true_eq]
        constructor
        · intro hall q hq hid
          exact hall _ ⟨q, hq, hid, rfl⟩
        · rintro hall _ ⟨q, hq, hid, rfl⟩
          exact hall q hq hid
      rw [KnownPhotos.extend, happend]
      split
      · rename_i hkeep
        exact ih (h.set (hall.mp hkeep))
      · rename_i hchange
        rw [hall] at hchange
        simp only [reduceCtorEq, false_iff]
        rintro ⟨hone, -⟩
        exact hchange fun q hq hid => hone q (by simp [hq]) p (by simp) hid

theorem Knows.length (h : Knows known photos) : known.length = (photoIds photos).card := by
  have hids : (known.map Prod.fst).toFinset = photoIds photos := by
    ext id
    rw [List.mem_toFinset, mem_photoIds, List.mem_map]
    constructor
    · rintro ⟨⟨id', key⟩, hmem, rfl⟩
      obtain ⟨p, hp, hid, -⟩ := (h.mem _ _).mp hmem
      exact ⟨p, hp, hid⟩
    · rintro ⟨p, hp, rfl⟩
      exact ⟨(p.tripAttachmentId, p.analyzeStorageKey), (h.mem _ _).mpr ⟨p, hp, rfl, rfl⟩, rfl⟩
  rw [← hids, List.toFinset_card_of_nodup h.nodup, List.length_map]

end Known

/-! ### Buffers -/

section Buffer

/-- The photos of all batches. -/
def PhotoBatchBuffer.photos (b : PhotoBatchBuffer) : List ReadyAttachment :=
  b.batches.flatMap Prod.snd

/-- The limits on what is kept for one execution. -/
structure PhotoBatchBuffer.Bounded (b : PhotoBatchBuffer) : Prop where
  /-- Each batch number once, as in a `dict`. -/
  numbers : (b.batches.map Prod.fst).Nodup
  batches : b.batches.length ≤ 200
  photos : (photoIds b.photos).card ≤ 200
  oneKey : OneKey b.photos
  size : b.toValue.byteSize ≤ photosReadyMaxBytes

variable {b b' : PhotoBatchBuffer} {no : String} {added : List ReadyAttachment}

/-- **When a batch is added.** -/
theorem PhotoBatchBuffer.insert_eq_ok (hone : OneKey b.photos) :
    b.insert no added = .ok b' ↔
      OneKey (b.photos ++ added) ∧ (photoIds (b.photos ++ added)).card ≤ 200 ∧
        b.batches.length < 200 ∧ b' = { b with batches := b.batches ++ [(no, added)] } ∧
        b'.toValue.byteSize ≤ photosReadyMaxBytes := by
  have hknown := knows_known hone
  unfold PhotoBatchBuffer.insert
  rw [except_bind_eq_ok]
  simp only [hknown.extend]
  constructor
  · rintro ⟨known, ⟨hone', rfl⟩, h⟩
    have hlength := (hknown.foldl hone').length
    split at h
    · cases h
    rename_i hlimits
    rw [not_or, hlength] at hlimits
    split at h
    · cases h
    · rename_i hsize
      cases h
      exact ⟨hone', not_lt.mp hlimits.1, not_le.mp hlimits.2, rfl, not_lt.mp hsize⟩
  · rintro ⟨hone', hphotos, hbatches, rfl, hsize⟩
    have hlength := (hknown.foldl hone').length
    refine ⟨_, ⟨hone', rfl⟩, ?_⟩
    rw [if_neg, if_neg (not_lt.mpr hsize)]
    rw [not_or, hlength]
    exact ⟨not_lt.mpr hphotos, not_le.mpr hbatches⟩

theorem lookup_eq_none_iff {batches : List (String × List ReadyAttachment)} :
    batches.lookup no = none ↔ no ∉ batches.map Prod.fst := by
  induction batches with
  | nil => simp
  | cons entry batches ih =>
      obtain ⟨no', photos'⟩ := entry
      by_cases hno : no = no'
      · subst hno
        simp
      · have hbeq : (no == no') = false := by simpa using hno
        simp [List.lookup_cons, hbeq, ih, hno]

/-- A key that one entry has is looked up to that entry. -/
theorem lookup_of_mem {batches : List (String × List ReadyAttachment)}
    {entry : String × List ReadyAttachment} (hmem : entry ∈ batches)
    (hkeys : ∀ entry' ∈ batches, entry'.1 = entry.1 → entry' = entry) :
    batches.lookup entry.1 = some entry.2 := by
  induction batches with
  | nil => cases hmem
  | cons first batches ih =>
      by_cases hfirst : entry.1 = first.1
      · obtain rfl := hkeys first List.mem_cons_self hfirst.symm
        exact List.lookup_cons_self
      · have hbeq : (entry.1 == first.1) = false := by simpa using hfirst
        have hrest : entry ∈ batches :=
          (List.mem_cons.mp hmem).resolve_left fun h => hfirst (congrArg Prod.fst h)
        rw [List.lookup_cons, hbeq]
        exact ih hrest fun entry' hentry' => hkeys entry' (List.mem_cons_of_mem _ hentry')

theorem PhotoBatchBuffer.photos_append :
    PhotoBatchBuffer.photos { b with batches := b.batches ++ [(no, added)] } =
      b.photos ++ added := by
  simp [PhotoBatchBuffer.photos]

/-- A batch under a new number leads to a bounded buffer. -/
theorem PhotoBatchBuffer.bounded_insert (hnumbers : (b.batches.map Prod.fst).Nodup)
    (hone : OneKey b.photos) (hnew : b.batches.lookup no = none)
    (hins : b.insert no added = .ok b') : b'.Bounded := by
  obtain ⟨hone, hphotos, hbatches, rfl, hsize⟩ := (insert_eq_ok hone).mp hins
  constructor
  case numbers =>
    rw [List.map_append, List.nodup_append]
    refine ⟨hnumbers, by simp, ?_⟩
    intro no₁ hno₁ no₂ hno₂ heq
    obtain rfl : no₂ = no := by simpa using hno₂
    exact lookup_eq_none_iff.mp hnew (heq ▸ hno₁)
  case batches =>
    rw [List.length_append, List.length_singleton]
    exact hbatches
  case photos => rwa [photos_append]
  case oneKey => rwa [photos_append]
  case size => exact hsize

end Buffer

/-! ### Arbitrary messages -/

section Arbitrary

variable {env : Env} {now : Time} {s s' : Store} {op : Op} {i topic : String}
  {message : PhotosReadyMessage} {w : World} {e : Event} {es : List Event}

/-- A batch as its buffer keeps it. -/
def PhotosReadyMessage.entry (m : PhotosReadyMessage) : String × List ReadyAttachment :=
  (toString m.batchNo, sortedPhotos m.attachments)

/-- The batch joins the buffer `old` of its execution. -/
structure Joins (env : Env) (now : Time) (s : Store) (m : PhotosReadyMessage)
    (topic : String) (old buffer : PhotoBatchBuffer) : Prop where
  opened : s.closed (m.identity env.sha256) = false
  found : s.photoBatchesAt now (m.identity env.sha256) = some old ∨
    s.photoBatchesAt now (m.identity env.sha256) = none ∧ old = { requestTopic := topic }
  topic : old.requestTopic = topic
  new : old.batches.lookup (toString m.batchNo) = none
  inserted : old.insert (toString m.batchNo) (sortedPhotos m.attachments) = .ok buffer

/-- A batch that is staged has the topic of its buffer. -/
theorem stagePhotos_staged (h : stagePhotos env message topic now s = .ok (.staged, s')) :
    ∃ old buffer, Joins env now s message topic old buffer ∧
      s' = s.stage env (message.identity env.sha256) (toString message.batchNo) buffer now := by
  unfold stagePhotos at h
  dsimp only at h
  split at h
  · cases h
  rename_i hopen
  rw [Bool.not_eq_true] at hopen
  obtain ⟨old, hold, h⟩ := except_bind_eq_ok.mp h
  split at h
  · cases h
  rename_i htopic
  split at h
  · split at h <;> cases h
  · rename_i hnew
    obtain ⟨buffer, hins, h⟩ := except_bind_eq_ok.mp h
    cases h
    refine ⟨old, buffer, ⟨hopen, ?_, not_not.mp htopic, hnew, hins⟩, rfl⟩
    unfold bufferFor at hold
    split at hold
    · rename_i raw hraw
      unfold PhotoBatchBuffer.load at hold
      split at hold
      · cases hold
        exact .inl hraw
      · cases hold
    · rename_i hnone
      cases hold
      exact .inr ⟨hnone, rfl⟩

/-- What an event does to the buffers: nothing, it deletes one, or it stages a batch. -/
theorem photoBatches_next (env : Env) (w : World) (e : Event) :
    (∀ i, (w.next env e).store.photoBatches i = w.store.photoBatches i ∨
      (w.next env e).store.photoBatches i = none) ∨
    ∃ message topic old buffer, e.op = .stagePhotos message topic ∧
      Joins env e.time w.store message topic old buffer ∧
      (w.next env e).store = w.store.stage env (message.identity env.sha256)
        (toString message.batchNo) buffer e.time := by
  have htrans := transaction_after env e.time w.store e.op
  by_cases hop : ∃ message topic, e.op = .stagePhotos message topic
  · obtain ⟨message, topic, hop⟩ := hop
    have hnext : (w.next env e).store = after env e.time (.stagePhotos message topic) w.store := by
      rw [← hop]
      rfl
    cases hperf : stagePhotos env message topic e.time w.store with
    | error err =>
        have hafter : after env e.time (.stagePhotos message topic) w.store = w.store := by
          simp [after, perform, hperf, bind, Except.bind]
        exact .inl fun i => .inl (by rw [hnext, hafter])
    | ok result =>
        obtain ⟨reply, s'⟩ := result
        have hafter : after env e.time (.stagePhotos message topic) w.store = s' := by
          simp [after, perform, hperf, bind, Except.bind]
        rw [hnext, hafter]
        cases reply with
        | staged =>
            obtain ⟨old, buffer, hinto, rfl⟩ := stagePhotos_staged hperf
            exact .inr ⟨message, topic, old, buffer, hop, hinto, rfl⟩
        | duplicate | closed =>
            rcases stagePhotos_cases hperf with ⟨-, -, rfl⟩ | ⟨-, -, rfl⟩ | ⟨hreply, -⟩
            · exact .inl fun i => .inl rfl
            · exact .inl fun i => .inl rfl
            · cases hreply
  · refine .inl fun i => ?_
    rcases photoBatches_of_transaction htrans i with hsame | hnone | ⟨message, topic, hstage, -⟩
    · exact .inl hsame
    · exact .inr hnone
    · exact absurd ⟨message, topic, hstage⟩ hop

/-- The buffer after a batch is staged in it. -/
theorem photoBatches_stage {no : String} {buffer : PhotoBatchBuffer} {j : String} :
    (s.stage env i no buffer now).photoBatches j =
      if j = i then some ⟨buffer, now + env.cfg.jobsPhotosReadyTtlSec⟩ else s.photoBatches j := by
  simp [Store.stage, Function.update_apply]

/-- The stored buffers are bounded, and all batches of one came with its request topic. -/
structure Kept (env : Env) (es : List Event) (s : Store) : Prop where
  bounded : ∀ i b, s.photoBatches i = some b → b.value.Bounded
  sourced : ∀ i b, s.photoBatches i = some b → ∀ entry ∈ b.value.batches,
    ∃ e ∈ es, ∃ message, e.op = .stagePhotos message b.value.requestTopic ∧
      message.identity env.sha256 = i ∧ entry = message.entry

/-- The buffer a batch joins is one that was kept, or an empty one. -/
theorem Kept.old {old buffer : PhotoBatchBuffer} (h : Kept env es s)
    (hinto : Joins env now s message topic old buffer) :
    (old.batches.map Prod.fst).Nodup ∧ OneKey old.photos ∧
      ∀ entry ∈ old.batches, ∃ e ∈ es, ∃ m, e.op = .stagePhotos m topic ∧
      m.identity env.sha256 = message.identity env.sha256 ∧ entry = m.entry := by
  rcases hinto.found with hold | ⟨-, rfl⟩
  · obtain ⟨b, hb, -, rfl⟩ := photoBatchesAt_eq_some.mp hold
    have hsourced := h.sourced _ b hb
    rw [hinto.topic] at hsourced
    exact ⟨(h.bounded _ b hb).numbers, (h.bounded _ b hb).oneKey, hsourced⟩
  · refine ⟨.nil, ?_, ?_⟩
    · intro p hp
      cases hp
    · intro entry hentry
      cases hentry

/-- **Step lemma.** -/
theorem Kept.next (h : Kept env es w.store) : Kept env (es ++ [e]) (w.next env e).store := by
  have hweaken : ∀ {P : Event → Prop}, (∃ e' ∈ es, P e') → ∃ e' ∈ es ++ [e], P e' :=
    fun ⟨e', he', hP⟩ => ⟨e', List.mem_append_left _ he', hP⟩
  rcases photoBatches_next env w e with hquiet | ⟨message, topic, old, buffer, hop, hinto, hnext⟩
  · have hold : ∀ i b, (w.next env e).store.photoBatches i = some b →
        w.store.photoBatches i = some b := by
      intro i b hb
      rcases hquiet i with hsame | hnone
      · rwa [hsame] at hb
      · rw [hnone] at hb
        cases hb
    exact ⟨fun i b hb => h.bounded i b (hold i b hb),
      fun i b hb entry hentry => hweaken (h.sourced i b (hold i b hb) entry hentry)⟩
  · rw [hnext]
    obtain ⟨hnumbers, hone, hsourced⟩ := h.old hinto
    have hbuffer := PhotoBatchBuffer.bounded_insert hnumbers hone hinto.new hinto.inserted
    have hbatches := PhotoBatchBuffer.insert_batches hinto.inserted
    have htopic : buffer.requestTopic = topic := by
      obtain ⟨-, -, -, rfl, -⟩ := (PhotoBatchBuffer.insert_eq_ok hone).mp hinto.inserted
      exact hinto.topic
    constructor
    · intro i b hb
      rw [photoBatches_stage] at hb
      split at hb
      · cases hb
        exact hbuffer
      · exact h.bounded i b hb
    · intro i b hb entry hentry
      rw [photoBatches_stage] at hb
      split at hb
      · rename_i hi
        cases hb
        rw [htopic, hi]
        rw [hbatches, List.mem_append, List.mem_singleton] at hentry
        rcases hentry with hentry | rfl
        · exact hweaken (hsourced entry hentry)
        · exact ⟨e, by simp, message, hop, rfl, rfl⟩
      · exact hweaken (h.sourced i b hb entry hentry)

/-- **Run lemma.** Whatever is done to the store, its buffers stay bounded. -/
theorem kept_replay (env : Env) (es : List Event) :
    Kept env es (replay env ⟨0, .initial⟩ es).store := by
  have hrun : ∀ (later earlier : List Event) (w : World), Kept env earlier w.store →
      Kept env (earlier ++ later) (replay env w later).store := by
    intro later
    induction later with
    | nil =>
        intro earlier w h
        rwa [List.append_nil, replay]
    | cons e later ih =>
        intro earlier w h
        rw [replay, List.append_cons]
        exact ih (earlier ++ [e]) (w.next env e) h.next
  have hinitial : Kept env [] Store.initial := by
    constructor
    · intro i b hb
      cases hb
    · intro i b hb
      cases hb
  exact hrun es [] _ hinitial

end Arbitrary

/-! ### Batches that fit together -/

section Sizes

theorem byteSizeFields_eq_sum (fields : List (PyStr × Value)) :
    Value.byteSizeFields fields =
      (fields.map fun f => f.1.byteSize + 1 + f.2.byteSize).sum := by
  induction fields with
  | nil => rfl
  | cons f fields ih =>
      obtain ⟨k, x⟩ := f
      rw [Value.byteSizeFields, ih, List.map_cons, List.sum_cons]

/-- The length of an object does not depend on the order of its members, and grows with
them. -/
theorem byteSize_record_le {α : Type} {f : α → String × Value} {xs ys : List α}
    (h : xs.Subperm ys) :
    (Value.record (xs.map f)).byteSize ≤ (Value.record (ys.map f)).byteSize := by
  obtain ⟨zs, hperm, hsub⟩ := h
  have hsum : ∀ as : List α, (Value.record (as.map f)).byteSize =
      2 + (as.map fun a => (PyStr.text (f a).1).byteSize + 1 + (f a).2.byteSize).sum +
        (as.length - 1) := by
    intro as
    simp only [Value.record, Value.byteSize, byteSizeFields_eq_sum, List.map_map, List.length_map]
    rfl
  rw [hsum, hsum, ← (hperm.map _).sum_eq, ← hperm.length_eq]
  have hle := (hsub.map fun a => (PyStr.text (f a).1).byteSize + 1 + (f a).2.byteSize).sum_le_sum
    (fun _ _ => Nat.zero_le _)
  have hlen := hsub.length_le
  omega

theorem byteSize_buffer_le {topic : String} {xs ys : List (String × List ReadyAttachment)}
    (h : xs.Subperm ys) :
    (PhotoBatchBuffer.toValue ⟨topic, xs⟩).byteSize ≤
      (PhotoBatchBuffer.toValue ⟨topic, ys⟩).byteSize := by
  have hle := byteSize_record_le (f := fun batch : String × List ReadyAttachment =>
    (batch.1, Value.arr (batch.2.map ReadyAttachment.toValue))) h
  simp only [PhotoBatchBuffer.toValue, Value.record, Value.byteSize, Value.byteSizeFields,
    List.map_cons, List.map_nil, List.length_cons, List.length_nil] at hle ⊢
  omega

/-- A buffer is never too deep to read. -/
theorem PhotoBatchBuffer.load_eq (env : Env) (b : PhotoBatchBuffer) : b.load env = .ok b := by
  have hphoto (a : ReadyAttachment) : a.toValue.nesting ≤ 1 := nesting_flat (by simp)
  have hbatch (batch : String × List ReadyAttachment) :
      (Value.arr (batch.2.map ReadyAttachment.toValue)).nesting ≤ 2 :=
    nesting_renderList batch.2 hphoto
  have hbatches : (Value.record (b.batches.map fun batch =>
      (batch.1, Value.arr (batch.2.map ReadyAttachment.toValue)))).nesting ≤ 3 := by
    apply nesting_record (n := 2)
    intro f hf
    obtain ⟨batch, -, rfl⟩ := List.mem_map.mp hf
    exact hbatch batch
  have hnesting : b.toValue.nesting ≤ 4 := nesting_record (n := 3) (by simpa using hbatches)
  have hread := env.readNesting_ge
  rw [PhotoBatchBuffer.load, if_pos (by omega)]

end Sizes

/-- The message delivers the batch, maybe with its photos in another order. -/
structure PhotosReadyMessage.Copies (m batch : PhotosReadyMessage) : Prop where
  tripId : m.tripId = batch.tripId
  executionId : m.executionId = batch.executionId
  batchNo : m.batchNo = batch.batchNo
  attachments : m.attachments.Perm batch.attachments

/-- Photos with different ids have one sorted order. -/
theorem sortedPhotos_perm {photos photos' : List ReadyAttachment} (h : photos.Perm photos')
    (hnodup : (photos.map ReadyAttachment.tripAttachmentId).Nodup) :
    sortedPhotos photos = sortedPhotos photos' := by
  have hsorted : ∀ ps : List ReadyAttachment,
      (sortedPhotos ps).Pairwise fun a b => a.tripAttachmentId ≤ b.tripAttachmentId := by
    intro ps
    exact List.pairwise_insertionSort _ ps
  have hperm : ∀ ps : List ReadyAttachment, (sortedPhotos ps).Perm ps :=
    fun ps => List.perm_insertionSort _ ps
  refine List.Perm.eq_of_pairwise ?_ (hsorted photos) (hsorted photos')
    ((hperm photos).trans (h.trans (hperm photos').symm))
  intro a b ha hb hab hba
  refine List.inj_on_of_nodup_map hnodup ((hperm photos).mem_iff.mp ha) ?_ (le_antisymm hab hba)
  exact h.mem_iff.mpr ((hperm photos').mem_iff.mp hb)

theorem PhotosReadyMessage.Copies.entry_eq {m batch : PhotosReadyMessage} (h : m.Copies batch) :
    m.entry = batch.entry := by
  rw [PhotosReadyMessage.entry, PhotosReadyMessage.entry, h.batchNo,
    sortedPhotos_perm h.attachments m.unique_photos]

theorem PhotosReadyMessage.Copies.identity_eq {m batch : PhotosReadyMessage} (h : m.Copies batch)
    (sha256 : String → String) : m.identity sha256 = batch.identity sha256 := by
  rw [PhotosReadyMessage.identity, PhotosReadyMessage.identity, h.tripId, h.executionId]

/-- A set of batches of one execution that agree with each other and fit the limits together. -/
structure Uploads (env : Env) (i topic : String) (batches : List PhotosReadyMessage) : Prop where
  identity : ∀ b ∈ batches, b.identity env.sha256 = i
  numbers : (batches.map PhotosReadyMessage.batchNo).Nodup
  compatible : OneKey (batches.flatMap PhotosReadyMessage.attachments)
  length : batches.length ≤ 200
  photos : (photoIds (batches.flatMap PhotosReadyMessage.attachments)).card ≤ 200
  size : (PhotoBatchBuffer.toValue ⟨topic, batches.map PhotosReadyMessage.entry⟩).byteSize ≤
    photosReadyMaxBytes

/-! ### Deliveries in any order -/

section Deliveries

variable {env : Env} {now : Time} {s s' : Store} {op : Op} {i topic : String}
  {message batch : PhotosReadyMessage} {batches : List PhotosReadyMessage} {w w' : World}
  {e : Event} {es : List Event} {entry : String × List ReadyAttachment}

/-- One transaction after the other, with any readings of the clock. -/
def Follows (env : Env) (w : World) (e : Event) (w' : World) : Prop := w' = w.next env e

/-- Every batch that arrives for the execution is one of the set, before its buffer expires,
and the execution is not registered. Other executions may do anything. -/
def Delivers (env : Env) (i topic : String) (batches : List PhotosReadyMessage) (w : World)
    (e : Event) : Prop :=
  match e.op with
  | .stagePhotos message t => message.identity env.sha256 = i →
      t = topic ∧ (∃ b ∈ batches, message.Copies b) ∧
        ∀ buffer, w.store.photoBatches i = some buffer → e.time < buffer.expireAt
  | .register q => q.identity env ≠ i
  | _ => True

/-- The batch is delivered somewhere in the schedule. -/
def DeliveredIn (es : List Event) (batch : PhotosReadyMessage) : Prop :=
  ∃ e ∈ es, ∃ message topic, e.op = .stagePhotos message topic ∧ message.Copies batch

/-- The buffer of an execution as a map from batch number to photos. -/
def Store.bufferMap (s : Store) (i no : String) : Option (List ReadyAttachment) :=
  (s.photoBatches i).bind fun buffer => buffer.value.batches.lookup no

/-- An execution stays open unless it is registered. -/
theorem closed_of_transaction_ne (h : Transaction env now s op s')
    (hreg : ∀ q, op = .register q → q.identity env ≠ i) : s'.closed i = s.closed i := by
  have hrewritten : ∀ {j : String} {raw stored : JobRecord} {t : Store}, s.jobs j = some raw →
      t.jobs = (s.setJob j stored).jobs → t.ignored = s.ignored → t.closed i = s.closed i := by
    intro j raw stored t hraw hjobs hign
    by_cases hi : i = j
    · subst hi
      simp [Store.closed, hjobs, hraw]
    · simp [Store.closed, hjobs, hign, jobs_setJob_ne hi]
  cases h with
  | unchanged | swept | unqueued | staged | popped => rfl
  | @accepted q record stored staged hrec =>
      have hi : i ≠ record.identity env.sha256 := by
        rw [Intake.record_identity hrec]
        exact (hreg q rfl).symm
      simp [Store.closed, jobs_accept, jobs_setJob_ne hi, ignored_accept]
  | @ignored q record staged hrec =>
      have hi : i ≠ record.identity env.sha256 := by
        rw [Intake.record_identity hrec]
        exact (hreg q rfl).symm
      simp [Store.closed, Store.ignore, Store.dropBatches, Store.setIgnored, hi]
  | claimed _ _ _ _ hraw => exact hrewritten hraw rfl rfl
  | changed _ hraw _ _ hw =>
      obtain ⟨stored, -, hjobs⟩ := jobs_writeChange hw
      exact hrewritten hraw hjobs (ignored_writeChange hw)
  | acknowledged hraw => exact hrewritten hraw rfl rfl

/-- A buffer is left alone by everything but its execution's registration and batches. -/
theorem photoBatches_of_transaction_ne (h : Transaction env now s op s')
    (hreg : ∀ q, op = .register q → q.identity env ≠ i)
    (hstage : ∀ m t, op = .stagePhotos m t → m.identity env.sha256 ≠ i) :
    s'.photoBatches i = s.photoBatches i := by
  cases h with
  | unchanged | swept | unqueued | claimed | acknowledged | popped => rfl
  | changed _ _ _ _ hw => rw [(photoBatches_writeChange hw).1]
  | @accepted q record stored staged hrec =>
      have hi : i ≠ record.identity env.sha256 := by
        rw [Intake.record_identity hrec]
        exact (hreg q rfl).symm
      rw [photoBatches_accept, Function.update_of_ne hi]
  | @ignored q record staged hrec =>
      have hi : i ≠ record.identity env.sha256 := by
        rw [Intake.record_identity hrec]
        exact (hreg q rfl).symm
      simp [Store.ignore, Store.dropBatches, Store.setIgnored, hi]
  | @staged m t =>
      rw [photoBatches_stage, if_neg fun hi => hstage m t rfl hi.symm]

/-- The reply to a batch whose buffer is known. -/
theorem stagePhotos_of_buffer {old : PhotoBatchBuffer}
    (hopen : s.closed (message.identity env.sha256) = false)
    (hold : s.photoBatchesAt now (message.identity env.sha256) = some old ∨
      s.photoBatchesAt now (message.identity env.sha256) = none ∧ old = { requestTopic := topic })
    (htopic : old.requestTopic = topic) :
    stagePhotos env message topic now s =
      match old.batches.lookup message.entry.1 with
      | some previous =>
          if previous ≠ message.entry.2 then
            .error (.value "같은 묶음 번호의 사진 목록 또는 경로가 변경됨")
          else .ok (.duplicate, s)
      | none => old.insert message.entry.1 message.entry.2 >>= fun buffer =>
          .ok (.staged, s.stage env (message.identity env.sha256) message.entry.1 buffer now) := by
  have hbuffer : bufferFor env (message.identity env.sha256) topic now s = .ok old := by
    unfold bufferFor
    rcases hold with hold | ⟨hold, rfl⟩
    · rw [hold]
      exact PhotoBatchBuffer.load_eq env old
    · rw [hold]
  simp only [stagePhotos, hopen, Bool.false_eq_true, if_false, hbuffer, htopic, ne_eq,
    not_true_eq_false, PhotosReadyMessage.entry, bind, Except.bind]
  rfl

/-- The buffer holds the batches delivered so far, each once. -/
structure Holding (env : Env) (i topic : String) (batches : List PhotosReadyMessage)
    (es : List Event) (s : Store) : Prop where
  opened : s.closed i = false
  empty : (∀ b ∈ batches, ¬ DeliveredIn es b) → s.photoBatches i = none
  held : (∃ b ∈ batches, DeliveredIn es b) → ∃ buffer, s.photoBatches i = some buffer ∧
    buffer.value.requestTopic = topic ∧ buffer.value.batches.Nodup ∧
    ∀ entry, entry ∈ buffer.value.batches ↔ ∃ b ∈ batches, DeliveredIn es b ∧ entry = b.entry

theorem DeliveredIn.append (h : DeliveredIn es batch) : DeliveredIn (es ++ [e]) batch := by
  obtain ⟨e', he', hdelivers⟩ := h
  exact ⟨e', List.mem_append_left _ he', hdelivers⟩

theorem deliveredIn_append_iff : DeliveredIn (es ++ [e]) batch ↔
    DeliveredIn es batch ∨ ∃ message topic, e.op = .stagePhotos message topic ∧
      message.Copies batch := by
  constructor
  · rintro ⟨e', he', hdelivers⟩
    rcases List.mem_append.mp he' with he' | he'
    · exact .inl ⟨e', he', hdelivers⟩
    · exact .inr (List.mem_singleton.mp he' ▸ hdelivers)
  · rintro (h | h)
    · exact h.append
    · exact ⟨e, by simp, h⟩

namespace Uploads

/-- Different batches of the set have different numbers. -/
theorem eq_of_number (hup : Uploads env i topic batches) {b b' : PhotosReadyMessage}
    (hb : b ∈ batches) (hb' : b' ∈ batches) (h : b.entry.1 = b'.entry.1) : b = b' := by
  apply List.inj_on_of_nodup_map hup.numbers hb hb'
  exact toString_int_injective h

/-- Entries of the set are a part of it, whatever their order. -/
theorem subperm {entries : List (String × List ReadyAttachment)} (hnodup : entries.Nodup)
    (hsub : ∀ entry ∈ entries, ∃ b ∈ batches, entry = b.entry) :
    entries.Subperm (batches.map PhotosReadyMessage.entry) := by
  apply List.Nodup.subperm hnodup
  intro entry hentry
  obtain ⟨b, hb, rfl⟩ := hsub entry hentry
  exact List.mem_map_of_mem hb

/-- The photos of entries of the set are among its photos. -/
theorem photos_subset {entries : List (String × List ReadyAttachment)}
    (hsub : ∀ entry ∈ entries, ∃ b ∈ batches, entry = b.entry) :
    ∀ p ∈ entries.flatMap Prod.snd, p ∈ batches.flatMap PhotosReadyMessage.attachments := by
  intro p hp
  obtain ⟨entry, hentry, hp⟩ := List.mem_flatMap.mp hp
  obtain ⟨b, hb, rfl⟩ := hsub entry hentry
  exact List.mem_flatMap.mpr ⟨b, hb, (List.perm_insertionSort _ _).mem_iff.mp hp⟩

/-- A batch of the set fits a buffer that holds others of it. -/
theorem insert (hup : Uploads env i topic batches) {old : PhotoBatchBuffer}
    (hbatch : batch ∈ batches) (htopic : old.requestTopic = topic) (hnodup : old.batches.Nodup)
    (hnew : batch.entry ∉ old.batches)
    (hsub : ∀ entry ∈ old.batches, ∃ b ∈ batches, entry = b.entry) :
    old.insert batch.entry.1 batch.entry.2 =
      .ok { old with batches := old.batches ++ [batch.entry] } := by
  have hsub' : ∀ entry ∈ old.batches ++ [batch.entry], ∃ b ∈ batches, entry = b.entry := by
    intro entry hentry
    rcases List.mem_append.mp hentry with hentry | hentry
    · exact hsub entry hentry
    · exact ⟨batch, hbatch, List.mem_singleton.mp hentry⟩
  have hnodup' : (old.batches ++ [batch.entry]).Nodup := by
    rw [List.nodup_append]
    refine ⟨hnodup, by simp, ?_⟩
    intro entry hentry entry' hentry' heq
    exact hnew (List.mem_singleton.mp hentry' ▸ heq ▸ hentry)
  have hperm := subperm hnodup' hsub'
  have hphotos := photos_subset hsub'
  have happend : (old.batches ++ [batch.entry]).flatMap Prod.snd = old.photos ++ batch.entry.2 := by
    simp [PhotoBatchBuffer.photos]
  rw [happend] at hphotos
  have hone : OneKey (old.photos ++ batch.entry.2) := hup.compatible.subset hphotos
  refine (PhotoBatchBuffer.insert_eq_ok (hone.subset fun p hp => List.mem_append_left _ hp)).mpr
    ⟨hone, ?_, ?_, rfl, ?_⟩
  · exact (Finset.card_le_card (photoIds_mono hphotos)).trans hup.photos
  · have hlength := hperm.length_le
    have hmax := hup.length
    rw [List.length_append, List.length_singleton, List.length_map] at hlength
    omega
  · rw [htopic]
    exact (byteSize_buffer_le hperm).trans hup.size

/-- **The reply to a delivery**: its batch is staged the first time, later a duplicate. -/
theorem reply (hup : Uploads env i topic batches) (h : Holding env i topic batches es s)
    (hbatch : batch ∈ batches) (hcopy : message.Copies batch)
    (hlive : ∀ buffer, s.photoBatches i = some buffer → now < buffer.expireAt) :
    (DeliveredIn es batch → stagePhotos env message topic now s = .ok (.duplicate, s)) ∧
      (¬ DeliveredIn es batch → ∃ buffer, stagePhotos env message topic now s =
          .ok (.staged, s.stage env i message.entry.1 buffer now) ∧ buffer.requestTopic = topic ∧
        buffer.batches.Nodup ∧ ∀ entry, entry ∈ buffer.batches ↔
          entry = batch.entry ∨ ∃ b ∈ batches, DeliveredIn es b ∧ entry = b.entry) := by
  have hidentity : message.identity env.sha256 = i :=
    (hcopy.identity_eq env.sha256).trans (hup.identity batch hbatch)
  have hopen : s.closed (message.identity env.sha256) = false := by
    rw [hidentity]
    exact h.opened
  have hentry := hcopy.entry_eq
  -- The buffer so far, empty before the first delivery.
  have hold : ∃ old : PhotoBatchBuffer, (s.photoBatchesAt now i = some old ∨
      s.photoBatchesAt now i = none ∧ old = { requestTopic := topic }) ∧
      old.requestTopic = topic ∧ old.batches.Nodup ∧
      ∀ entry, entry ∈ old.batches ↔ ∃ b ∈ batches, DeliveredIn es b ∧ entry = b.entry := by
    by_cases hany : ∃ b ∈ batches, DeliveredIn es b
    · obtain ⟨buffer, hbuffer, htopic, hnodup, hentries⟩ := h.held hany
      have hat := photoBatchesAt_eq_some.mpr ⟨buffer, hbuffer, hlive buffer hbuffer, rfl⟩
      exact ⟨buffer.value, .inl hat, htopic, hnodup, hentries⟩
    · have hnone : ∀ b ∈ batches, ¬ DeliveredIn es b := fun b hb hd => hany ⟨b, hb, hd⟩
      refine ⟨{ requestTopic := topic }, .inr ⟨?_, rfl⟩, rfl, .nil, ?_⟩
      · simp [Store.photoBatchesAt, h.empty hnone]
      · intro entry
        constructor
        · intro hentry
          cases hentry
        · rintro ⟨b, hb, hd, -⟩
          exact absurd hd (hnone b hb)
  obtain ⟨old, hold, htopic, hnodup, hentries⟩ := hold
  rw [← hidentity] at hold
  have hreply := stagePhotos_of_buffer hopen hold htopic
  rw [hentry] at hreply
  have hsub : ∀ entry ∈ old.batches, ∃ b ∈ batches, entry = b.entry := by
    intro entry hmem
    obtain ⟨b, hb, -, rfl⟩ := (hentries entry).mp hmem
    exact ⟨b, hb, rfl⟩
  have hkeys : ∀ entry ∈ old.batches, entry.1 = batch.entry.1 → entry = batch.entry := by
    intro entry hmem hkey
    obtain ⟨b, hb, rfl⟩ := hsub entry hmem
    rw [hup.eq_of_number hb hbatch hkey]
  constructor
  · intro hd
    have hmem : batch.entry ∈ old.batches := (hentries _).mpr ⟨batch, hbatch, hd, rfl⟩
    have hlookup := lookup_of_mem hmem hkeys
    rw [hreply, hlookup]
    simp
  · intro hd
    have hnot : batch.entry ∉ old.batches := by
      intro hmem
      obtain ⟨b, hb, hdb, heq⟩ := (hentries _).mp hmem
      rw [hup.eq_of_number hbatch hb (congrArg Prod.fst heq)] at hd
      exact hd hdb
    have hlookup : old.batches.lookup batch.entry.1 = none := by
      rw [lookup_eq_none_iff, List.mem_map]
      rintro ⟨entry, hmem, hkey⟩
      exact hnot (hkeys entry hmem hkey ▸ hmem)
    refine ⟨{ old with batches := old.batches ++ [batch.entry] }, ?_, htopic, ?_, ?_⟩
    · rw [hreply, hlookup]
      simp only [hup.insert hbatch htopic hnodup hnot hsub, hidentity, hentry]
      rfl
    · rw [List.nodup_append]
      refine ⟨hnodup, by simp, ?_⟩
      intro entry hmem entry' hmem' heq
      exact hnot (List.mem_singleton.mp hmem' ▸ heq ▸ hmem)
    · intro entry
      rw [List.mem_append, List.mem_singleton, hentries, or_comm]

/-- **Step lemma.** -/
theorem next (hup : Uploads env i topic batches) (h : Holding env i topic batches es w.store)
    (hdelivers : Delivers env i topic batches w e) :
    Holding env i topic batches (es ++ [e]) (w.next env e).store := by
  have htrans := transaction_after env e.time w.store e.op
  have hreg : ∀ q, e.op = .register q → q.identity env ≠ i := by
    intro q hop
    simpa [Delivers, hop] using hdelivers
  have hopened : (w.next env e).store.closed i = false :=
    (closed_of_transaction_ne htrans hreg).trans h.opened
  by_cases hstage : ∃ m t, e.op = .stagePhotos m t ∧ m.identity env.sha256 = i
  · obtain ⟨m, t, hop, hidentity⟩ := hstage
    simp only [Delivers, hop] at hdelivers
    obtain ⟨rfl, ⟨batch, hbatch, hcopy⟩, hlive⟩ := hdelivers hidentity
    have hafter : ∀ {reply s'}, stagePhotos env m t e.time w.store = .ok (reply, s') →
        (w.next env e).store = s' := by
      intro reply s' hstage
      simp [World.next, after, hop, perform, hstage, bind, Except.bind]
    have hthis : DeliveredIn (es ++ [e]) batch :=
      deliveredIn_append_iff.mpr (.inr ⟨m, t, hop, hcopy⟩)
    have hothers : ∀ b ∈ batches, DeliveredIn (es ++ [e]) b ↔ b = batch ∨ DeliveredIn es b := by
      intro b hb
      rw [deliveredIn_append_iff]
      constructor
      · rintro (hd | ⟨m', t', hop', hcopy'⟩)
        · exact .inr hd
        · rw [hop] at hop'
          cases hop'
          refine .inl (hup.eq_of_number hb hbatch ?_)
          rw [← hcopy'.entry_eq, ← hcopy.entry_eq]
      · rintro (rfl | hd)
        · exact .inr ⟨m, t, hop, hcopy⟩
        · exact .inl hd
    obtain ⟨hagain, hfirst⟩ := hup.reply h hbatch hcopy hlive
    refine ⟨hopened, fun hnone => absurd hthis (hnone batch hbatch), fun _ => ?_⟩
    by_cases hd : DeliveredIn es batch
    · rw [hafter (hagain hd)]
      obtain ⟨buffer, hbuffer, htopic, hnodup, hentries⟩ := h.held ⟨batch, hbatch, hd⟩
      refine ⟨buffer, hbuffer, htopic, hnodup, fun entry => ?_⟩
      rw [hentries]
      refine exists_congr fun b => and_congr_right fun hb => ?_
      rw [hothers b hb, or_iff_right_of_imp]
      rintro rfl
      exact hd
    · obtain ⟨buffer, hstage, htopic, hnodup, hentries⟩ := hfirst hd
      rw [hafter hstage]
      refine ⟨⟨buffer, _⟩, by rw [photoBatches_stage, if_pos rfl], htopic, hnodup, ?_⟩
      intro entry
      rw [hentries]
      constructor
      · rintro (rfl | ⟨b, hb, hdb, rfl⟩)
        · exact ⟨batch, hbatch, hthis, rfl⟩
        · exact ⟨b, hb, hdb.append, rfl⟩
      · rintro ⟨b, hb, hdb, rfl⟩
        rcases (hothers b hb).mp hdb with rfl | hdb
        · exact .inl rfl
        · exact .inr ⟨b, hb, hdb, rfl⟩
  · have hne : ∀ m t, e.op = .stagePhotos m t → m.identity env.sha256 ≠ i :=
      fun m t hop hi => hstage ⟨m, t, hop, hi⟩
    have hsame : (w.next env e).store.photoBatches i = w.store.photoBatches i :=
      photoBatches_of_transaction_ne htrans hreg hne
    have hdelivered : ∀ b ∈ batches, DeliveredIn (es ++ [e]) b ↔ DeliveredIn es b := by
      intro b hb
      rw [deliveredIn_append_iff, or_iff_left]
      rintro ⟨m, t, hop, hcopy⟩
      exact hne m t hop ((hcopy.identity_eq _).trans (hup.identity b hb))
    constructor
    · exact hopened
    · intro hnone
      rw [hsame]
      exact h.empty fun b hb hd => hnone b hb hd.append
    · rintro ⟨b, hb, hd⟩
      obtain ⟨buffer, hbuffer, htopic, hnodup, hentries⟩ :=
        h.held ⟨b, hb, (hdelivered b hb).mp hd⟩
      refine ⟨buffer, hsame.trans hbuffer, htopic, hnodup, fun entry => ?_⟩
      rw [hentries]
      exact exists_congr fun b => and_congr_right fun hb => and_congr_left' (hdelivered b hb).symm

/-- **Run lemma.** -/
theorem run (hup : Uploads env i topic batches) {earlier : List Event}
    (hrun : Run (Guarded (Delivers env i topic batches) (Follows env)) w es w')
    (h : Holding env i topic batches earlier w.store) :
    Holding env i topic batches (earlier ++ es) w'.store := by
  induction hrun generalizing earlier with
  | refl => rwa [List.append_nil]
  | cons first _ ih =>
      obtain ⟨hdelivers, rfl⟩ := first
      rw [List.append_cons]
      exact ih (hup.next h hdelivers)

end Uploads

/-- What a run of deliveries leads to, whatever their order and repetitions. -/
structure OrderInsensitive (env : Env) (i topic : String) (batches : List PhotosReadyMessage)
    (es : List Event) (s : Store) : Prop where
  /-- The next delivery of a batch is staged, if it is the first. -/
  first : ∀ now message batch, batch ∈ batches → message.Copies batch → ¬ DeliveredIn es batch →
    (∀ buffer, s.photoBatches i = some buffer → now < buffer.expireAt) →
    ∃ s', stagePhotos env message topic now s = .ok (.staged, s')
  /-- It is a duplicate that changes nothing, if it is a repetition. -/
  repetition : ∀ now message batch, batch ∈ batches → message.Copies batch → DeliveredIn es batch →
    (∀ buffer, s.photoBatches i = some buffer → now < buffer.expireAt) →
    stagePhotos env message topic now s = .ok (.duplicate, s)
  /-- Once all have been delivered the buffer is the map of the set. -/
  final : (∀ b ∈ batches, DeliveredIn es b) → ∀ no,
    s.bufferMap i no = (batches.map PhotosReadyMessage.entry).lookup no

theorem Holding.orderInsensitive (hup : Uploads env i topic batches)
    (h : Holding env i topic batches es s) : OrderInsensitive env i topic batches es s := by
  constructor
  case first =>
    intro now message batch hbatch hcopy hnew hlive
    obtain ⟨buffer, hstage, -⟩ := (hup.reply h hbatch hcopy hlive).2 hnew
    exact ⟨_, hstage⟩
  case repetition =>
    intro now message batch hbatch hcopy hd hlive
    exact (hup.reply h hbatch hcopy hlive).1 hd
  case final =>
    intro hall no
    by_cases hany : ∃ b ∈ batches, DeliveredIn es b
    · obtain ⟨buffer, hbuffer, -, -, hentries⟩ := h.held hany
      rw [Store.bufferMap, hbuffer, Option.bind_some]
      have hmem : ∀ entry, entry ∈ buffer.value.batches ↔
          entry ∈ batches.map PhotosReadyMessage.entry := by
        intro entry
        rw [hentries, List.mem_map]
        constructor
        · rintro ⟨b, hb, -, rfl⟩
          exact ⟨b, hb, rfl⟩
        · rintro ⟨b, hb, rfl⟩
          exact ⟨b, hb, hall b hb, rfl⟩
      have hkeys : ∀ b ∈ batches, ∀ entry ∈ batches.map PhotosReadyMessage.entry,
          entry.1 = b.entry.1 → entry = b.entry := by
        intro b hb entry hentry hkey
        obtain ⟨b', hb', rfl⟩ := List.mem_map.mp hentry
        rw [hup.eq_of_number hb' hb hkey]
      by_cases hno : ∃ b ∈ batches, b.entry.1 = no
      · obtain ⟨b, hb, rfl⟩ := hno
        have hset := List.mem_map_of_mem (f := PhotosReadyMessage.entry) hb
        rw [lookup_of_mem hset (hkeys b hb), lookup_of_mem ((hmem _).mpr hset)]
        exact fun entry hentry => hkeys b hb entry ((hmem entry).mp hentry)
      · have hset : no ∉ (batches.map PhotosReadyMessage.entry).map Prod.fst := by
          rw [List.map_map, List.mem_map]
          rintro ⟨b, hb, hkey⟩
          exact hno ⟨b, hb, hkey⟩
        rw [lookup_eq_none_iff.mpr hset, lookup_eq_none_iff, List.mem_map]
        rintro ⟨entry, hentry, rfl⟩
        exact hset (List.mem_map_of_mem ((hmem entry).mp hentry))
    · have hnone : ∀ b ∈ batches, ¬ DeliveredIn es b := fun b hb hd => hany ⟨b, hb, hd⟩
      obtain rfl : batches = [] :=
        List.eq_nil_iff_forall_not_mem.mpr fun b hb => hnone b hb (hall b hb)
      simp [Store.bufferMap, h.empty hnone]

/-- A transaction under a fault. What the program itself raises changes nothing; one whose answer
is lost is carried out as a whole or not at all. -/
theorem transact_stagePhotos {now : Time} {message : PhotosReadyMessage}
    {topic : String} {s : Store} {fault : RedisFault} {outcome : Outcome} {s' : Store}
    (h : transact fault s (perform env now s (.stagePhotos message topic)) = (outcome, s')) :
    (∀ error, outcome = .raised (.job error) → s' = s) ∧
      (outcome = .raised .redis →
        s' = s ∨ ∃ reply, stagePhotos env message topic now s = .ok (reply, s')) := by
  simp only [perform] at h
  cases hstage : stagePhotos env message topic now s with
  | error e =>
      rw [hstage] at h
      cases fault with
      | none | lost | unanswered =>
          cases h
          exact ⟨fun _ _ => rfl, fun _ => .inl rfl⟩
  | ok result =>
      obtain ⟨reply, stored⟩ := result
      rw [hstage] at h
      cases fault with
      | none =>
          cases h
          constructor
          · intro error hraised
            cases hraised
          · intro hraised
            cases hraised
      | lost =>
          cases h
          refine ⟨?_, fun _ => .inl rfl⟩
          intro error hraised
          cases hraised
      | unanswered =>
          cases h
          refine ⟨?_, fun _ => .inr ⟨reply, rfl⟩⟩
          intro error hraised
          cases hraised

/-- Staging upload batches. -/
structure StagingSound (env : Env) : Prop where
  /-- The order of deliveries and their repetitions do not matter. -/
  order : ∀ i topic batches w es w', Uploads env i topic batches → w.store.closed i = false →
    w.store.photoBatches i = none →
    Run (Guarded (Delivers env i topic batches) (Follows env)) w es w' →
    OrderInsensitive env i topic batches es w'.store
  /-- Whatever is done, buffers keep within the limits, with one key for each photo, and hold
  what arrived with their request topic. -/
  bounded : ∀ es, Kept env es (replay env ⟨0, .initial⟩ es).store
  /-- A call that refuses its message leaves the store as it was. One that loses the connection
  writes the buffer and the queue, or neither. -/
  atomic : ∀ now message topic s fault outcome s',
    transact fault s (perform env now s (.stagePhotos message topic)) = (outcome, s') →
      (∀ error, outcome = .raised (.job error) → s' = s) ∧
      (outcome = .raised .redis →
        s' = s ∨ ∃ reply, stagePhotos env message topic now s = .ok (reply, s'))

/-- **Staging is order-insensitive, idempotent and atomic.** -/
theorem stagingSound (env : Env) : StagingSound env where
  order i topic batches w es w' hup hopen hempty hrun := by
    have hstart : Holding env i topic batches [] w.store := by
      refine ⟨hopen, fun _ => hempty, ?_⟩
      rintro ⟨b, -, e, he, -⟩
      cases he
    exact (hup.run hrun hstart).orderInsensitive hup
  bounded := kept_replay env
  atomic _ _ _ _ _ _ _ h := transact_stagePhotos h

/-- Two batches of one execution. -/
def sampleUploads : List PhotosReadyMessage :=
  [sampleBatch "e2" 1 e2_length Int.one_pos, sampleBatch "e2" 2 e2_length batchNo_two]

def uploadIdentity : String := identity sampleDigest 8 .process "e2"

def uploadTopic : String := "local.yeodam.trip-create.request"

/-- They arrive in the other order, one of them twice. -/
def uploadSchedule : List Event :=
  [⟨1, .stagePhotos (sampleBatch "e2" 2 e2_length batchNo_two) uploadTopic⟩,
    ⟨2, .stagePhotos (sampleBatch "e2" 1 e2_length Int.one_pos) uploadTopic⟩,
    ⟨3, .stagePhotos (sampleBatch "e2" 2 e2_length batchNo_two) uploadTopic⟩]

theorem stagingSound_sampleUploads :
    OrderInsensitive sampleEnv uploadIdentity uploadTopic sampleUploads uploadSchedule
      (replay sampleEnv ⟨0, .initial⟩ uploadSchedule).store := by
  have hself : ∀ b : PhotosReadyMessage, b.Copies b := fun b => ⟨rfl, rfl, rfl, .refl _⟩
  have hup : Uploads sampleEnv uploadIdentity uploadTopic sampleUploads := by
    constructor
    case identity => decide +kernel
    case numbers => decide +kernel
    case compatible => unfold OneKey; decide +kernel
    case length => decide
    case photos => decide +kernel
    case size => decide +kernel
  have hlive : ∀ {held : Option (Expiring PhotoBatchBuffer)} {now : Time},
      held.all (fun b => decide (now < b.expireAt)) = true →
      ∀ b, held = some b → now < b.expireAt := by
    rintro _ now hall b rfl
    exact of_decide_eq_true hall
  have hrun : Run (Guarded (Delivers sampleEnv uploadIdentity uploadTopic sampleUploads)
      (Follows sampleEnv)) ⟨0, .initial⟩ uploadSchedule
      (replay sampleEnv ⟨0, .initial⟩ uploadSchedule) := by
    have hone : sampleBatch "e2" 1 ∈ sampleUploads := by simp [sampleUploads]
    have htwo : sampleBatch "e2" 2 ∈ sampleUploads := by simp [sampleUploads]
    refine .cons ⟨fun _ => ⟨rfl, ⟨_, htwo, hself _⟩, hlive ?_⟩, rfl⟩
      (.cons ⟨fun _ => ⟨rfl, ⟨_, hone, hself _⟩, hlive ?_⟩, rfl⟩
        (.cons ⟨fun _ => ⟨rfl, ⟨_, htwo, hself _⟩, hlive ?_⟩, rfl⟩ (.refl _)))
    all_goals decide +kernel
  exact (stagingSound sampleEnv).order _ _ _ _ _ _ hup (by decide +kernel) rfl hrun

end Deliveries

end Yeodam.Jobs
