/-
Batches of uploaded photos (`embed_batch` in `app/pipeline/batch.py`): the copies of some photos
are embedded and measured before the run, which then uses the stored vectors and metrics.

A batch may fail, be cut off between its two stores, or be processed again, and stored metrics
expire (`AheadStep`). As long as a copy does not change and the engine looks at one image at a
time (`Stable`), what is stored is what the run would compute: `sound_of_reachable`.
-/

import Yeodam.Lib.Pointwise
import Yeodam.Lib.Run
import Yeodam.Pipeline.Run

namespace Yeodam.Pipeline

open Yeodam.Lib Yeodam.Schemas

variable {B I V : Type}

/-! ### One batch -/

/-- What a batch comes to: the vectors it stores and the metrics it returns. -/
structure Batch (V : Type) where
  vectors : List (Int × V) := []
  metrics : List (Int × PhotoMetrics) := []

/-- A photo of a batch that can be decoded. -/
structure ReadPhoto (B : Type) where
  id : Int
  raw : B
  metrics : PhotoMetrics

/-- One round of the loop of `embed_batch`; none for a photo that cannot be decoded. -/
def readPhoto (ctx : Context B I V) (blobs : String → Option B) (photo : Int × String) :
    Except Raised (Option (ReadPhoto B)) :=
  match blobs photo.2 with
  | none => .error .other
  | some raw => do
      match ← ctx.decode raw with
      | none => return none
      | some image =>
          match ctx.measure image with
          | none => .error .other
          | some m => return some ⟨photo.1, raw, m⟩

/-- `embed_batch` of a dictionary from ids to keys; `n` is the number of the download. -/
def embedBatch (N : Numerics V) (ctx : Context B I V) (n : Nat) (photos : List (Int × String)) :
    Except Raised (Batch V) := do
  let blobs ← ctx.getMany n (photos.map Prod.snd)
  let read ← photos.mapM (readPhoto ctx blobs)
  let decodable := read.reduceOption
  if decodable = [] then return {}
  else do
    let vectors ← encodeChecked N ctx (decodable.map ReadPhoto.raw)
    return { vectors := (decodable.map ReadPhoto.id).zip vectors
             metrics := decodable.map fun p => (p.id, p.metrics) }

/-! ### The stores -/

/-- The vectors in Qdrant and the metrics in Redis. -/
structure Store (V : Type) where
  vectors : Int → Option V := fun _ => none
  metrics : Int → Option PhotoMetrics := fun _ => none

/-- Entries over those that are stored. -/
def writeAll {β : Type} (entries : List (Int × β)) (stored : Int → Option β)
    (id : Int) : Option β :=
  ((entries.find? fun e => e.1 = id).map Prod.snd).or (stored id)

theorem writeAll_eq_some {β : Type} {entries : List (Int × β)} {stored : Int → Option β} {id : Int}
    {x : β} (h : writeAll entries stored id = some x) : (id, x) ∈ entries ∨ stored id = some x := by
  unfold writeAll at h
  cases hfind : entries.find? fun e => e.1 = id with
  | none =>
      rw [hfind] at h
      exact .inr h
  | some e =>
      rw [hfind] at h
      obtain rfl : e.2 = x := Option.some.inj h
      obtain rfl : e.1 = id := of_decide_eq_true (List.find?_some hfind :)
      exact .inl (List.mem_of_find?_eq_some hfind)

def Store.upsert (store : Store V) (entries : List (Int × V)) : Store V :=
  { store with vectors := writeAll entries store.vectors }

def Store.saveMetrics (store : Store V) (entries : List (Int × PhotoMetrics)) : Store V :=
  { store with metrics := writeAll entries store.metrics }

/-- What happens before a run. -/
inductive Ahead where
  | batch (n : Nat) (photos : List (Int × String))
  | expire (ids : List Int)

/-- The photos of a batch are photos of the request, each given once. -/
def IsBatch (request : ProcessRequest) (photos : List (Int × String)) : Prop :=
  (photos.map Prod.fst).Nodup ∧
    ∀ photo ∈ photos, ∃ a ∈ request.attachments, photo = (a.tripAttachmentId, a.analyzeStorageKey)

/-- What happens before a run of `request`, to the stores. -/
inductive AheadStep (N : Numerics V) (ctx : Context B I V) (request : ProcessRequest) :
    Store V → Ahead → Store V → Prop where
  | stored {s : Store V} {n : Nat} {photos : List (Int × String)} {batch : Batch V} :
      IsBatch request photos → embedBatch N ctx n photos = .ok batch →
      AheadStep N ctx request s (.batch n photos)
        ((s.upsert batch.vectors).saveMetrics batch.metrics)
  | failed {s : Store V} {n : Nat} {photos : List (Int × String)} {e : Raised} :
      IsBatch request photos → embedBatch N ctx n photos = .error e →
      AheadStep N ctx request s (.batch n photos) s
  /-- The batch ends while it stores: some vectors are, and no metrics. -/
  | cut {s : Store V} {n : Nat} {photos : List (Int × String)} {batch : Batch V}
      {kept : List (Int × V)} :
      IsBatch request photos → embedBatch N ctx n photos = .ok batch → kept ⊆ batch.vectors →
      AheadStep N ctx request s (.batch n photos) (s.upsert kept)
  | expired {s : Store V} {ids : List Int} :
      AheadStep N ctx request s (.expire ids)
        { s with metrics := fun id => if id ∈ ids then none else s.metrics id }

/-! ### What a photo is, wherever it is read -/

/-- A world in which copies do not change and the engine is a function of the bytes of one
image. -/
structure Stable (ctx : Context B I V) (content : String → Option B)
    (vector : B → Except Raised V) : Prop where
  available : ∀ n keys, (∀ key ∈ keys, (content key).isSome) →
    ∃ blobs, ctx.getMany n keys = .ok blobs
  unchanged : ∀ n keys blobs, ctx.getMany n keys = .ok blobs → ∀ key ∈ keys, blobs key = content key
  engine : ∀ raws, ctx.engine.encode raws = (raws.mapM vector).map some
  /-- An image without pixels cannot be measured. -/
  pixels : ∀ image m, ctx.measure image = some m → ctx.hasPixels image = true

/-- What is at a key. -/
structure Copy (ctx : Context B I V) (content : String → Option B) (key : String)
    (raw : B) (image : I) (m : PhotoMetrics) : Prop where
  content : content key = some raw
  decode : ctx.decode raw = .ok (some image)
  measure : ctx.measure image = some m

/-- The vector of an image, within the contract of the engine. -/
structure Row (N : Numerics V) (ctx : Context B I V) (vector : B → Except Raised V)
    (raw : B) (v : V) : Prop where
  vector : vector raw = .ok v
  dim : N.dim v = ctx.engine.dim
  unit : N.isUnit v = true

variable {N : Numerics V} {ctx : Context B I V} {request : ProcessRequest}
  {content : String → Option B} {vector : B → Except Raised V}

theorem encodeChecked_eq_ok (hstable : Stable ctx content vector) {raws : List B} {vs : List V} :
    encodeChecked N ctx raws = .ok vs ↔ List.Forall₂ (Row N ctx vector) raws vs := by
  unfold encodeChecked
  rw [hstable.engine, except_bind_eq_ok]
  simp only [except_map_eq_ok, mapM_eq_ok]
  constructor
  · rintro ⟨_, ⟨rows, hrows, rfl⟩, h⟩
    obtain ⟨_, hcheck, h⟩ := except_bind_eq_ok.mp h
    cases h
    simp only [raiseIf_eq_ok, Bool.not_eq_false', Bool.and_eq_true, List.all_eq_true,
      decide_eq_true_eq] at hcheck
    exact (forall₂_mem hrows).imp fun raw v hv =>
      ⟨hv.1, (hcheck.2 v hv.2.2).1, (hcheck.2 v hv.2.2).2⟩
  · intro h
    refine ⟨_, ⟨vs, h.imp fun _ _ hrow => hrow.vector, rfl⟩, except_bind_eq_ok.mpr ⟨⟨⟩, ?_, rfl⟩⟩
    simp only [raiseIf_eq_ok, Bool.not_eq_false', Bool.and_eq_true, List.all_eq_true,
      decide_eq_true_eq]
    refine ⟨h.length_eq.symm, fun v hv => ?_⟩
    obtain ⟨raw, -, hrow⟩ := exists_left_of_forall₂ h hv
    exact ⟨hrow.dim, hrow.unit⟩

/-- A photo that was read. -/
theorem readPhoto_eq_ok {blobs : String → Option B} {photo : Int × String} {p : ReadPhoto B}
    (h : readPhoto ctx blobs photo = .ok (some p)) :
    p.id = photo.1 ∧ ∃ image, Copy ctx blobs photo.2 p.raw image p.metrics := by
  unfold readPhoto at h
  split at h
  · cases h
  · rename_i raw hraw
    obtain ⟨image?, hdecode, h⟩ := except_bind_eq_ok.mp h
    cases image? with
    | none => cases h
    | some image =>
        dsimp only at h
        split at h
        · cases h
        · rename_i m hm
          cases h
          exact ⟨rfl, image, hraw, hdecode, hm⟩

/-- **What a batch stores** is the vector and the metrics of a copy. -/
theorem embedBatch_copies (hstable : Stable ctx content vector) {n : Nat}
    {photos : List (Int × String)} {batch : Batch V} (h : embedBatch N ctx n photos = .ok batch) :
    (∀ e ∈ batch.vectors, ∃ key raw image m, (e.1, key) ∈ photos ∧
      Copy ctx content key raw image m ∧ Row N ctx vector raw e.2) ∧
    ∀ e ∈ batch.metrics, ∃ key raw image, (e.1, key) ∈ photos ∧
      Copy ctx content key raw image e.2 := by
  obtain ⟨blobs, hblobs, h⟩ := except_bind_eq_ok.mp h
  obtain ⟨read, hread, h⟩ := except_bind_eq_ok.mp h
  have hread := mapM_eq_ok.mp hread
  have hcopy : ∀ p ∈ read.reduceOption, ∃ key image, (p.id, key) ∈ photos ∧
      Copy ctx content key p.raw image p.metrics := by
    intro p hp
    obtain ⟨photo, hphoto, hp⟩ := exists_left_of_forall₂ hread (List.reduceOption_mem_iff.mp hp)
    obtain ⟨hid, image, hraw, hdecode, hm⟩ := readPhoto_eq_ok hp
    have hsame := hstable.unchanged n _ blobs hblobs photo.2 (List.mem_map_of_mem hphoto)
    exact ⟨photo.2, image, hid ▸ hphoto, hsame ▸ hraw, hdecode, hm⟩
  dsimp only at h
  split at h
  · cases h
    constructor
    · intro e he
      cases he
    · intro e he
      cases he
  · obtain ⟨vectors, hvectors, h⟩ := except_bind_eq_ok.mp h
    cases h
    have hrows := List.forall₂_map_left_iff.mp ((encodeChecked_eq_ok hstable).mp hvectors)
    constructor
    · rintro ⟨id, v⟩ he
      rw [List.zip_map_left] at he
      obtain ⟨⟨p, v⟩, hmem, heq⟩ := List.mem_map.mp he
      cases heq
      obtain ⟨key, image, hphoto, hp⟩ := hcopy p (List.of_mem_zip hmem).1
      exact ⟨key, p.raw, image, p.metrics, hphoto, hp, (List.forall₂_iff_zip.mp hrows).2 hmem⟩
    · intro e he
      obtain ⟨p, hp, rfl⟩ := List.mem_map.mp he
      obtain ⟨key, image, hphoto, hp⟩ := hcopy p hp
      exact ⟨key, p.raw, image, hphoto, hp⟩

/-! ### What is stored -/

/-- What is stored for a photo is what its copy gives. -/
structure Store.Sound (store : Store V) (N : Numerics V) (ctx : Context B I V)
    (request : ProcessRequest) (content : String → Option B)
    (vector : B → Except Raised V) : Prop where
  vectors : ∀ id v, store.vectors id = some v → ∃ a ∈ request.attachments, a.tripAttachmentId = id ∧
    ∃ raw image m, Copy ctx content a.analyzeStorageKey raw image m ∧ Row N ctx vector raw v
  metrics : ∀ id m, store.metrics id = some m → ∃ a ∈ request.attachments, a.tripAttachmentId = id ∧
    ∃ raw image, Copy ctx content a.analyzeStorageKey raw image m

variable {s t store : Store V} {e : Ahead}

theorem Store.Sound.upsert (hs : s.Sound N ctx request content vector)
    (hstable : Stable ctx content vector) {n : Nat} {photos : List (Int × String)} {batch : Batch V}
    {kept : List (Int × V)} (hphotos : IsBatch request photos)
    (hbatch : embedBatch N ctx n photos = .ok batch) (hkept : kept ⊆ batch.vectors) :
    (s.upsert kept).Sound N ctx request content vector := by
  refine ⟨fun id v hv => ?_, hs.metrics⟩
  rcases writeAll_eq_some hv with hmem | hstored
  · obtain ⟨key, raw, image, m, hphoto, hcopy, hrow⟩ :=
      (embedBatch_copies hstable hbatch).1 (id, v) (hkept hmem)
    obtain ⟨a, ha, heq⟩ := hphotos.2 _ hphoto
    cases heq
    exact ⟨a, ha, rfl, raw, image, m, hcopy, hrow⟩
  · exact hs.vectors id v hstored

theorem Store.Sound.saveMetrics (hs : s.Sound N ctx request content vector)
    (hstable : Stable ctx content vector) {n : Nat} {photos : List (Int × String)} {batch : Batch V}
    (hphotos : IsBatch request photos) (hbatch : embedBatch N ctx n photos = .ok batch) :
    (s.saveMetrics batch.metrics).Sound N ctx request content vector := by
  refine ⟨hs.vectors, fun id m hm => ?_⟩
  rcases writeAll_eq_some hm with hmem | hstored
  · obtain ⟨key, raw, image, hphoto, hcopy⟩ := (embedBatch_copies hstable hbatch).2 (id, m) hmem
    obtain ⟨a, ha, heq⟩ := hphotos.2 _ hphoto
    cases heq
    exact ⟨a, ha, rfl, raw, image, hcopy⟩
  · exact hs.metrics id m hstored

theorem Store.Sound.next (hstable : Stable ctx content vector)
    (hs : s.Sound N ctx request content vector) (hstep : AheadStep N ctx request s e t) :
    t.Sound N ctx request content vector := by
  cases hstep with
  | stored hphotos hbatch =>
      exact (hs.upsert hstable hphotos hbatch (List.Subset.refl _)).saveMetrics hstable
        hphotos hbatch
  | failed _ _ => exact hs
  | cut hphotos hbatch hkept => exact hs.upsert hstable hphotos hbatch hkept
  | expired =>
      refine ⟨hs.vectors, fun id m hm => ?_⟩
      dsimp only at hm
      split at hm
      · cases hm
      · exact hs.metrics id m hm

/-- **Whatever happened before, the stores hold what the copies give.** -/
theorem sound_of_reachable (hstable : Stable ctx content vector)
    (h : Reachable (fun s => s = {}) (AheadStep N ctx request) store) :
    store.Sound N ctx request content vector := by
  obtain ⟨s₀, es, rfl, hrun⟩ := h
  refine hrun.preserves (P := fun s => s.Sound N ctx request content vector)
    (fun s e t hs hstep => hs.next hstable hstep) ⟨?_, ?_⟩
  · intro id v hv
    cases hv
  · intro id m hm
    cases hm

end Yeodam.Pipeline
