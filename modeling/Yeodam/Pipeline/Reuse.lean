/-
Stored vectors and metrics change nothing.

What a run computes for a photo depends on the bytes of its copy alone, so a run comes to what
the steps make of the ideal vectors and metrics of the request (`reusing_eq_ok`), however much of
it is stored already. A run without reuse is one on empty stores.
-/

import Yeodam.Pipeline.Batch
import Yeodam.Pipeline.Conservation

namespace Yeodam.Pipeline

open Yeodam.Lib Yeodam.Schemas

variable {B I V : Type}

/-! ### Downloads -/

/-- A photo that was downloaded and decoded. -/
structure Readable (ctx : Context B I V) (content : String → Option B) (a : ProcessAttachment)
    (l : LoadedImage B I) : Prop where
  id : l.id = a.tripAttachmentId
  content : content a.analyzeStorageKey = some l.raw
  decode : ctx.decode l.raw = .ok (some l.image)

variable {N : Numerics V} {ctx : Context B I V} {request : ProcessRequest}
  {content : String → Option B} {vector : B → Except Raised V} {loaded : List (LoadedImage B I)}
  {photos out : List (PhotoState V)} {result : ProcessResult}

theorem loadImage_eq_ok {blobs : String → Option B} {a : ProcessAttachment} {l : LoadedImage B I} :
    loadImage ctx blobs a = .ok (.inr l) ↔ Readable ctx blobs a l := by
  constructor
  · intro h
    unfold loadImage at h
    split at h
    · cases h
    · rename_i raw hraw
      obtain ⟨image?, hdecode, h⟩ := except_bind_eq_ok.mp h
      cases image? with
      | none => cases h
      | some image =>
          cases h
          exact ⟨rfl, hraw, hdecode⟩
  · rintro ⟨hid, hraw, hdecode⟩
    obtain ⟨id, raw, image⟩ := l
    obtain rfl : id = a.tripAttachmentId := hid
    unfold loadImage
    rw [hraw]
    exact except_bind_eq_ok.mpr ⟨some image, hdecode, rfl⟩

/-- A chunk in which no photo fails. -/
theorem loadImages_eq_ok (hstable : Stable ctx content vector) {n : Nat}
    {state state' : Downloaded B I} {chunk : List ProcessAttachment} :
    (loadImages ctx n state chunk = .ok state' ∧ state'.failed = []) ↔
      state.failed = [] ∧ ∃ more, List.Forall₂ (Readable ctx content) chunk more ∧
        state' = ⟨state.loaded ++ more, []⟩ := by
  have hsame : ∀ {blobs},
      ctx.getMany n (chunk.map ProcessAttachment.analyzeStorageKey) = .ok blobs →
      ∀ {more}, List.Forall₂ (Readable ctx blobs) chunk more ↔
        List.Forall₂ (Readable ctx content) chunk more := by
    intro blobs hblobs more
    have hkey : ∀ a ∈ chunk, blobs a.analyzeStorageKey = content a.analyzeStorageKey :=
      fun a ha => hstable.unchanged n _ blobs hblobs _ (List.mem_map_of_mem ha)
    constructor
    · intro h
      exact (forall₂_mem h).imp fun a l hl => ⟨hl.1.id, hkey a hl.2.1 ▸ hl.1.content, hl.1.decode⟩
    · intro h
      exact (forall₂_mem h).imp fun a l hl => ⟨hl.1.id, hkey a hl.2.1 ▸ hl.1.content, hl.1.decode⟩
  unfold loadImages
  constructor
  · rintro ⟨h, hfailed⟩
    obtain ⟨blobs, hblobs, h⟩ := except_bind_eq_ok.mp h
    obtain ⟨photos, hphotos, h⟩ := except_bind_eq_ok.mp h
    dsimp only at h
    split at h
    · rename_i hnone
      cases h
      refine ⟨hfailed, _, (hsame hblobs).mp ((forall₂_inr (mapM_eq_ok.mp hphotos) hnone).imp
        fun a l => loadImage_eq_ok.mp), ?_⟩
      rw [show state.failed = [] from hfailed]
    · rename_i hsome
      cases h
      exact absurd (List.append_eq_nil_iff.mp hfailed).2 hsome
  · rintro ⟨hfailed, more, hmore, rfl⟩
    obtain ⟨blobs, hblobs⟩ :=
      hstable.available n (chunk.map ProcessAttachment.analyzeStorageKey) <| by
      intro key hkey
      obtain ⟨a, ha, rfl⟩ := List.mem_map.mp hkey
      obtain ⟨l, -, hl⟩ := exists_right_of_forall₂ hmore ha
      rw [hl.content]
      rfl
    have hphotos : chunk.mapM (loadImage ctx blobs) = .ok (more.map Sum.inr) :=
      mapM_eq_ok.mpr (List.forall₂_map_right_iff.mpr
        (((hsame hblobs).mpr hmore).imp fun a l => loadImage_eq_ok.mpr))
    have hleft : (more.map Sum.inr : List (Int ⊕ LoadedImage B I)).filterMap Sum.getLeft? = [] := by
      rw [List.filterMap_map]
      exact List.filterMap_eq_nil_iff.mpr fun _ _ => rfl
    have hright :
        (more.map Sum.inr : List (Int ⊕ LoadedImage B I)).filterMap Sum.getRight? = more := by
      rw [List.filterMap_map]
      exact List.filterMap_some
    refine ⟨except_bind_eq_ok.mpr ⟨blobs, hblobs, except_bind_eq_ok.mpr ⟨_, hphotos, ?_⟩⟩, rfl⟩
    rw [hleft, hright, if_pos rfl, hfailed]
    rfl

/-- **A download succeeds when every photo can be read**, and loads these photos in order. -/
theorem download_eq_ok (hstable : Stable ctx content vector) {skipped : Nat}
    {downloads : List ProcessAttachment} :
    (download ctx skipped downloads).outcome = .ok loaded ↔
      List.Forall₂ (Readable ctx content) downloads loaded := by
  have hloop : ∀ (chunks : List (List ProcessAttachment × Nat)) (state state' : Downloaded B I),
      (chunks.foldlM (fun state chunk => loadImages ctx chunk.2 state chunk.1) state = .ok state' ∧
        state'.failed = []) ↔
      state.failed = [] ∧
      ∃ more, List.Forall₂ (Readable ctx content) (chunks.map Prod.fst).flatten more ∧
        state' = ⟨state.loaded ++ more, []⟩ := by
    intro chunks
    induction chunks with
    | nil =>
        intro state state'
        constructor
        · rintro ⟨h, hfailed⟩
          cases h
          refine ⟨hfailed, [], .nil, ?_⟩
          rw [List.append_nil, ← hfailed]
        · rintro ⟨hfailed, more, hmore, rfl⟩
          cases hmore
          obtain ⟨loaded, failed⟩ := state
          obtain rfl : failed = [] := hfailed
          rw [List.append_nil]
          exact ⟨rfl, rfl⟩
    | cons chunk chunks ih =>
        intro state state'
        rw [List.foldlM_cons, List.map_cons, List.flatten_cons, except_bind_eq_ok]
        constructor
        · rintro ⟨⟨mid, hmid, h⟩, hfailed⟩
          obtain ⟨hnone, rest, hrest, rfl⟩ := (ih mid state').mp ⟨h, hfailed⟩
          obtain ⟨hstart, more, hmore, rfl⟩ := (loadImages_eq_ok hstable).mp ⟨hmid, hnone⟩
          refine ⟨hstart, more ++ rest, List.rel_append hmore hrest, ?_⟩
          rw [List.append_assoc]
        · rintro ⟨hfailed, all, hall, rfl⟩
          obtain ⟨more, rest, hmore, hrest, rfl⟩ := forall₂_append_left hall
          obtain ⟨hmid, -⟩ := (loadImages_eq_ok hstable).mpr ⟨hfailed, more, hmore, rfl⟩
          obtain ⟨h, hnone⟩ := (ih ⟨state.loaded ++ more, []⟩ _).mpr ⟨rfl, rest, hrest, rfl⟩
          rw [List.append_assoc] at h
          exact ⟨⟨_, hmid, h⟩, hnone⟩
  have hchunks : ((chunks 16 downloads).zipIdx.map Prod.fst).flatten = downloads := by
    rw [List.zipIdx_map_fst, flatten_chunks (by decide)]
  rw [outcome_download, except_bind_eq_ok]
  constructor
  · rintro ⟨state, h, hstate⟩
    split at hstate
    · cases hstate
    · rename_i hnone
      cases hstate
      obtain ⟨-, more, hmore, rfl⟩ := (hloop _ _ _).mp ⟨h, not_not.mp hnone⟩
      rw [hchunks] at hmore
      exact hmore
  · intro h
    rw [← hchunks] at h
    obtain ⟨hstate, -⟩ := (hloop _ {} _).mpr ⟨rfl, loaded, h, rfl⟩
    exact ⟨_, hstate, rfl⟩

/-- The copy of a photo that was downloaded. -/
theorem rawImage_of_mem {downloads : List ProcessAttachment} {a : ProcessAttachment}
    (hnodup : (downloads.map ProcessAttachment.tripAttachmentId).Nodup)
    (hload : List.Forall₂ (Readable ctx content) downloads loaded) (ha : a ∈ downloads) :
    ∃ l ∈ loaded, Readable ctx content a l ∧ rawImage loaded a.tripAttachmentId = .ok l.raw := by
  have hids : loaded.map LoadedImage.id = downloads.map ProcessAttachment.tripAttachmentId :=
    map_eq_of_forall₂ hload fun _ _ h => h.id
  obtain ⟨l, hl, hal⟩ := exists_right_of_forall₂ hload ha
  refine ⟨l, hl, hal, ?_⟩
  unfold rawImage
  cases hfind : loaded.find? fun l => l.id = a.tripAttachmentId with
  | none => exact absurd (decide_eq_true hal.id) (List.find?_eq_none.mp hfind l hl)
  | some found =>
      have hid : found.id = a.tripAttachmentId := of_decide_eq_true (List.find?_some hfind :)
      have heq : found = l := List.inj_on_of_nodup_map (hids ▸ hnodup)
        (List.mem_of_find?_eq_some hfind) hl (hid.trans hal.id.symm)
      rw [heq]

/-! ### Vectors -/

/-- Give photos their vectors, those of `ids`. -/
def give (vectors : Int → Option V) (ids : List Int) (p : PhotoState V) : PhotoState V :=
  if p.id ∈ ids then { p with embedding := vectors p.id } else p

/-- The vector of a photo that was downloaded. -/
def vectorOf (vector : B → Except Raised V) (loaded : List (LoadedImage B I))
    (id : Int) : Option V :=
  (rawImage loaded id).toOption.bind fun raw => (vector raw).toOption

/-- A photo that can be embedded. -/
def Embeddable (N : Numerics V) (ctx : Context B I V) (vector : B → Except Raised V)
    (loaded : List (LoadedImage B I)) (id : Int) : Prop :=
  ∃ raw v, rawImage loaded id = .ok raw ∧ Row N ctx vector raw v

theorem vectorOf_eq {id : Int} {raw : B} {v : V} (hraw : rawImage loaded id = .ok raw)
    (hrow : vector raw = .ok v) : vectorOf vector loaded id = some v := by
  unfold vectorOf
  rw [hraw, Except.toOption, Option.bind_some, hrow]
  rfl

theorem give_append {vectors : Int → Option V} {ids ids' : List Int} :
    (photos.map (give vectors ids)).map (give vectors ids') =
      photos.map (give vectors (ids ++ ids')) := by
  rw [List.map_map]
  apply List.map_congr_left
  intro p _
  rw [Function.comp_apply, give, give, give]
  by_cases h : p.id ∈ ids
  · rw [if_pos h, if_pos (List.mem_append_left _ h)]
    exact ite_self _
  · rw [if_neg h]
    by_cases h' : p.id ∈ ids'
    · rw [if_pos h', if_pos (List.mem_append_right _ h')]
    · rw [if_neg h', if_neg fun hmem => (List.mem_append.mp hmem).elim h h']

theorem embed_zip {vectors : Int → Option V} {ids : List Int} {vs : List V}
    (h : List.Forall₂ (fun id v => vectors id = some v) ids vs) :
    embed (ids.zip vs) photos = photos.map (give vectors ids) := by
  apply List.map_congr_left
  intro p _
  unfold give
  cases hfind : (ids.zip vs).find? fun e => e.1 = p.id with
  | none =>
      have hmem : p.id ∉ ids := by
        intro hmem
        rw [← List.map_fst_zip (Nat.le_of_eq h.length_eq)] at hmem
        obtain ⟨e, he, hid⟩ := List.mem_map.mp hmem
        exact List.find?_eq_none.mp hfind e he (decide_eq_true hid)
      rw [if_neg hmem]
  | some e =>
      have hid : e.1 = p.id := of_decide_eq_true (List.find?_some hfind :)
      have hmem := List.mem_of_find?_eq_some hfind
      have hvector : vectors e.1 = some e.2 := (List.forall₂_iff_zip.mp h).2 hmem
      rw [← hid, if_pos (List.of_mem_zip hmem).1, hvector]

theorem embedChunk_eq_ok (hstable : Stable ctx content vector) {ids : List Int} :
    (do
      let blobs ← ids.mapM (rawImage loaded)
      let vectors ← encodeChecked N ctx blobs
      return embed (ids.zip vectors) photos : Except Raised (List (PhotoState V))) = .ok out ↔
    (∀ id ∈ ids, Embeddable N ctx vector loaded id) ∧
      out = photos.map (give (vectorOf vector loaded) ids) := by
  simp only [except_bind_eq_ok, mapM_eq_ok, encodeChecked_eq_ok hstable]
  constructor
  · rintro ⟨blobs, hblobs, vs, hvs, h⟩
    cases h
    have hrows : List.Forall₂ (fun id v => ∃ raw, rawImage loaded id = .ok raw ∧
        Row N ctx vector raw v) ids vs :=
      forall₂_trans (fun _ raw _ hraw hrow => ⟨raw, hraw, hrow⟩) hblobs hvs
    constructor
    · intro id hid
      obtain ⟨v, -, raw, hraw, hrow⟩ := exists_right_of_forall₂ hrows hid
      exact ⟨raw, v, hraw, hrow⟩
    · refine embed_zip (hrows.imp ?_)
      rintro id v ⟨raw, hraw, hrow⟩
      exact vectorOf_eq hraw hrow.vector
  · rintro ⟨hall, rfl⟩
    have hpair : ∀ id ∈ ids, ∃ e : B × V,
        rawImage loaded id = .ok e.1 ∧ Row N ctx vector e.1 e.2 := by
      intro id hid
      obtain ⟨raw, v, hraw, hrow⟩ := hall id hid
      exact ⟨(raw, v), hraw, hrow⟩
    obtain ⟨pairs, hpairs⟩ := exists_forall₂ hpair
    refine ⟨pairs.map Prod.fst, List.forall₂_map_right_iff.mpr (hpairs.imp fun _ _ h => h.1),
      pairs.map Prod.snd, ?_, congrArg Except.ok (embed_zip (List.forall₂_map_right_iff.mpr
        (hpairs.imp fun _ _ h => vectorOf_eq h.1 h.2.vector)))⟩
    refine List.forall₂_map_left_iff.mpr (List.forall₂_map_right_iff.mpr
      (List.forall₂_same.mpr fun e he => ?_))
    obtain ⟨id, -, h⟩ := exists_left_of_forall₂ hpairs he
    exact h.2

/-- **Every pending photo is embedded**, from the copy downloaded for it. -/
theorem embedAll_eq_ok (hstable : Stable ctx content vector) :
    (embedAll N ctx loaded photos).outcome = .ok out ↔
      (∀ id ∈ pendingIds ctx photos, Embeddable N ctx vector loaded id) ∧
        out = photos.map (give (vectorOf vector loaded) (pendingIds ctx photos)) := by
  have hloop : ∀ (chunks : List (List Int × Nat)) (photos : List (PhotoState V)),
      chunks.foldlM (fun photos chunk => do
        let blobs ← chunk.1.mapM (rawImage loaded)
        let vectors ← encodeChecked N ctx blobs
        return embed (chunk.1.zip vectors) photos) photos = .ok out ↔
      (∀ id ∈ (chunks.map Prod.fst).flatten, Embeddable N ctx vector loaded id) ∧
        out = photos.map (give (vectorOf vector loaded) (chunks.map Prod.fst).flatten) := by
    intro chunks
    induction chunks with
    | nil =>
        intro photos
        have hgive : photos.map (give (vectorOf vector loaded) []) = photos :=
          List.map_id'' (fun p => if_neg List.not_mem_nil) photos
        rw [List.map_nil, List.flatten_nil, hgive]
        constructor
        · intro h
          cases h
          exact ⟨fun id hid => absurd hid List.not_mem_nil, rfl⟩
        · rintro ⟨-, rfl⟩
          rfl
    | cons chunk chunks ih =>
        intro photos
        rw [List.foldlM_cons, except_bind_eq_ok, List.map_cons, List.flatten_cons]
        simp only [embedChunk_eq_ok hstable, ih, List.mem_append]
        constructor
        · rintro ⟨_, ⟨hfirst, rfl⟩, hrest, rfl⟩
          exact ⟨fun id hid => hid.elim (hfirst id) (hrest id), give_append⟩
        · rintro ⟨hall, rfl⟩
          exact ⟨_, ⟨fun id hid => hall id (.inl hid), rfl⟩, fun id hid => hall id (.inr hid),
            give_append.symm⟩
  rw [outcome_embedAll, hloop, List.zipIdx_map_fst, flatten_chunks (by decide)]

/-! ### Metrics -/

theorem measureImages_eq_ok (hstable : Stable ctx content vector)
    {measured : List (Int × PhotoMetrics)} : measureImages ctx loaded = .ok measured ↔
      List.Forall₂ (fun l m => m.1 = l.id ∧ ctx.measure l.image = some m.2) loaded measured := by
  unfold measureImages
  rw [mapM_eq_ok]
  constructor
  · refine fun h => h.imp fun l m h => ?_
    split at h
    · exact absurd h fail_ne_ok
    · split at h
      · rename_i m' hm'
        cases h
        exact ⟨rfl, hm'⟩
      · exact absurd h fail_ne_ok
  · refine fun h => h.imp fun l m h => ?_
    obtain ⟨hid, hm⟩ := h
    rw [hstable.pixels _ _ hm, hm, ← hid]
    rfl

/-- Only the metrics of the photos matter. -/
theorem filterPhotos_congr {metrics metrics' : Int → Option PhotoMetrics}
    (h : ∀ p ∈ photos, metrics p.id = metrics' p.id) (blurVarMin phashMaxDist : Threshold) :
    filterPhotos N photos metrics blurVarMin phashMaxDist =
      filterPhotos N photos metrics' blurVarMin phashMaxDist := by
  have hloop : ∀ (photos : List (PhotoState V)) (measured : List (Measured V)),
      (∀ p ∈ photos, metrics p.id = metrics' p.id) →
        photos.foldlM (measurePhoto N metrics) measured =
          photos.foldlM (measurePhoto N metrics') measured := by
    intro photos
    induction photos with
    | nil => exact fun _ _ => rfl
    | cons p photos ih =>
        intro measured h
        obtain ⟨hp, hrest⟩ := List.forall_mem_cons.mp h
        rw [List.foldlM_cons, List.foldlM_cons, measurePhoto, measurePhoto, hp]
        exact congrArg _ (funext fun next => ih next hrest)
  unfold filterPhotos
  rw [hloop photos [] h]

/-! ### The steps from CLOCK on -/

/-- The steps from CLOCK on without the agent, the metrics being those given. -/
def settled (N : Numerics V) (ctx : Context B I V) (request : ProcessRequest)
    (photos : List (PhotoState V)) (metrics : Int → Option PhotoMetrics) :
    Except Raised ProcessResult := do
  let (timed, offsets) ← clockStage N ctx photos
  let located ← locatingStage N ctx request timed
  let ruled ← rulesStage N ctx request located
  let blurVarMin ← threshold ctx "blur_var_min"
  let phashMaxDist ← threshold ctx "phash_max_dist"
  let (filtered, variances) ← filterPhotos N ruled metrics blurVarMin phashMaxDist
  finalizePhotos N filtered variances offsets

theorem settleStages_settled (hagent : ctx.agent = none) :
    (settleStages N ctx request loaded photos).outcome = .ok result ↔
      ∃ measured, measureImages ctx loaded = .ok measured ∧
        settled N ctx request photos (allMetrics ctx measured) = .ok result := by
  have hrelease : ∀ filtered : List (PhotoState V), release ctx filtered = filtered := by
    intro filtered
    unfold release
    rw [hagent]
    rfl
  rw [settleStages_eq_ok]
  unfold settled
  constructor
  · rintro ⟨timed, located, ruled, placed, filtered, offsets, variances, h⟩
    obtain rfl : ruled = placed := by
      have hplaced := h.agent
      unfold agentPhotos at hplaced
      rw [hagent] at hplaced
      exact Except.ok.inj hplaced
    obtain ⟨measured, hmeasured, hfilter⟩ := except_bind_eq_ok.mp h.filter
    obtain ⟨blurVarMin, hblur, hfilter⟩ := except_bind_eq_ok.mp hfilter
    obtain ⟨phashMaxDist, hphash, hfilter⟩ := except_bind_eq_ok.mp hfilter
    refine ⟨measured, hmeasured, ?_⟩
    simp only [except_bind_eq_ok]
    exact ⟨(timed, offsets), h.clock, located, h.locate, ruled, h.rules, blurVarMin, hblur,
      phashMaxDist, hphash, (filtered, variances), hfilter, hrelease filtered ▸ h.finalize⟩
  · rintro ⟨measured, hmeasured, h⟩
    simp only [except_bind_eq_ok] at h
    obtain ⟨⟨timed, offsets⟩, hclock, located, hlocate, ruled, hrules, blurVarMin, hblur,
      phashMaxDist, hphash, ⟨filtered, variances⟩, hfilter, hfinalize⟩ := h
    refine ⟨timed, located, ruled, ruled, filtered, offsets, variances, hclock, hlocate, hrules, ?_,
      ?_, (hrelease filtered).symm ▸ hfinalize⟩
    · unfold agentPhotos
      rw [hagent]
    · exact except_bind_eq_ok.mpr ⟨measured, hmeasured, except_bind_eq_ok.mpr ⟨blurVarMin, hblur,
        except_bind_eq_ok.mpr ⟨phashMaxDist, hphash, hfilter⟩⟩⟩

theorem settled_congr {metrics metrics' : Int → Option PhotoMetrics}
    (h : ∀ id ∈ idsOf photos, metrics id = metrics' id) :
    settled N ctx request photos metrics = .ok result ↔
      settled N ctx request photos metrics' = .ok result := by
  have himp : ∀ {metrics metrics' : Int → Option PhotoMetrics},
      (∀ id ∈ idsOf photos, metrics id = metrics' id) →
        settled N ctx request photos metrics = .ok result →
          settled N ctx request photos metrics' = .ok result := by
    intro metrics metrics' h hok
    unfold settled at hok ⊢
    simp only [except_bind_eq_ok] at hok ⊢
    obtain ⟨timed, hclock, located, hlocate, ruled, hrules, blurVarMin, hblur, phashMaxDist, hphash,
      filtered, hfilter, hfinalize⟩ := hok
    have hids : idsOf ruled = idsOf photos :=
      (rulesStage_ids hrules).trans ((locatingStage_ids hlocate).trans (clockStage_ids hclock))
    rw [filterPhotos_congr fun p hp => h p.id (hids ▸ List.mem_map_of_mem hp)] at hfilter
    exact ⟨timed, hclock, located, hlocate, ruled, hrules, blurVarMin, hblur, phashMaxDist, hphash,
      filtered, hfilter, hfinalize⟩
  exact ⟨himp h, himp fun id hid => (h id hid).symm⟩

/-! ### What a run computes for a photo -/

/-- The vector and the metrics of every copy can be computed. -/
def Processable (N : Numerics V) (ctx : Context B I V) (content : String → Option B)
    (vector : B → Except Raised V) (a : ProcessAttachment) : Prop :=
  ∃ raw image m v, Copy ctx content a.analyzeStorageKey raw image m ∧ Row N ctx vector raw v

/-- The key of a photo of the request. -/
def keyOf (request : ProcessRequest) (id : Int) : Option String :=
  (request.attachments.find? fun a => a.tripAttachmentId = id).map
    ProcessAttachment.analyzeStorageKey

/-- The vector of the copy of a photo. -/
def idealVectors (request : ProcessRequest) (content : String → Option B)
    (vector : B → Except Raised V) (id : Int) : Option V :=
  ((keyOf request id).bind content).bind fun raw => (vector raw).toOption

/-- The metrics of the copy of a photo. -/
def idealMetrics (ctx : Context B I V) (request : ProcessRequest) (content : String → Option B)
    (id : Int) : Option PhotoMetrics :=
  ((keyOf request id).bind content).bind fun raw => (ctx.decode raw).toOption.join.bind ctx.measure

/-- The photo of an attachment with its vector. -/
def withVector (a : ProcessAttachment) (embedding : Option V) : PhotoState V :=
  { (buildPhotoState a : PhotoState V) with embedding := embedding }

/-- The photos of the request with their vectors. -/
def withVectors (request : ProcessRequest) (vectors : Int → Option V) : List (PhotoState V) :=
  request.attachments.map fun a => withVector a (vectors a.tripAttachmentId)

theorem keyOf_eq (hnodup : (request.attachments.map ProcessAttachment.tripAttachmentId).Nodup)
    {a : ProcessAttachment} (ha : a ∈ request.attachments) :
    keyOf request a.tripAttachmentId = some a.analyzeStorageKey := by
  unfold keyOf
  cases hfind : request.attachments.find? fun b => b.tripAttachmentId = a.tripAttachmentId with
  | none => exact absurd (decide_eq_true rfl) (List.find?_eq_none.mp hfind a ha)
  | some b =>
      have hid : b.tripAttachmentId = a.tripAttachmentId :=
        of_decide_eq_true (List.find?_some hfind :)
      rw [List.inj_on_of_nodup_map hnodup (List.mem_of_find?_eq_some hfind) ha hid, Option.map_some]

theorem idealVectors_eq
    (hnodup : (request.attachments.map ProcessAttachment.tripAttachmentId).Nodup)
    {a : ProcessAttachment} (ha : a ∈ request.attachments) {raw : B}
    (hraw : content a.analyzeStorageKey = some raw) :
    idealVectors request content vector a.tripAttachmentId = (vector raw).toOption := by
  rw [idealVectors, keyOf_eq hnodup ha, Option.bind_some, hraw, Option.bind_some]

theorem idealMetrics_eq
    (hnodup : (request.attachments.map ProcessAttachment.tripAttachmentId).Nodup)
    {a : ProcessAttachment} (ha : a ∈ request.attachments) {raw : B} {image : I}
    (hraw : content a.analyzeStorageKey = some raw) (hdecode : ctx.decode raw = .ok (some image)) :
    idealMetrics ctx request content a.tripAttachmentId = ctx.measure image := by
  rw [idealMetrics, keyOf_eq hnodup ha, Option.bind_some, hraw, Option.bind_some, hdecode]
  rfl

/-! ### Runs with and without reuse -/

/-- A run that uses nothing that is stored, without the agent. -/
def plain (ctx : Context B I V) : Context B I V :=
  { ctx with reuseVectors := false, photoMetrics := fun _ => none, agent := none }

/-- A run that uses what is stored, without the agent: a fetch returns the vectors stored for the
ids. -/
def reusing (ctx : Context B I V) (store : Store V) : Context B I V :=
  { ctx with
    reuseVectors := true
    fetch := fun ids id => if id ∈ ids then store.vectors id else none
    photoMetrics := store.metrics
    agent := none }

/-- The ids of the photos a run embeds. -/
def runPending (ctx : Context B I V) (request : ProcessRequest) : List Int :=
  pendingIds ctx (embedStored ctx (storedOf ctx request) (buildPhotoStates request))

/-- How a run starts from what is stored. -/
structure Uses (ctx : Context B I V) (request : ProcessRequest) (store : Store V) : Prop where
  embeddings : embedStored ctx (storedOf ctx request) (buildPhotoStates request) =
    withVectors request store.vectors
  pending : ∀ a ∈ request.attachments,
    a.tripAttachmentId ∈ runPending ctx request ↔ store.vectors a.tripAttachmentId = none
  /-- Only photos of the request are embedded. -/
  requested : ∀ id ∈ runPending ctx request, ∃ a ∈ request.attachments, a.tripAttachmentId = id
  downloads : runDownloads ctx request = request.attachments.filter fun a =>
    (store.vectors a.tripAttachmentId).isNone || (store.metrics a.tripAttachmentId).isNone
  metrics : ctx.photoMetrics = store.metrics
  agent : ctx.agent = none

theorem withVector_none (a : ProcessAttachment) :
    withVector a (none : Option V) = buildPhotoState a := by
  simp only [withVector, buildPhotoState]
  split <;> rfl

theorem id_withVector (a : ProcessAttachment) (embedding : Option V) :
    (withVector a embedding).id = a.tripAttachmentId :=
  id_buildPhotoState (V := V) a

theorem uses_plain (ctx : Context B I V) (request : ProcessRequest) :
    Uses (plain ctx) request {} := by
  have hpending : runPending (plain ctx) request =
      request.attachments.map ProcessAttachment.tripAttachmentId := idsOf_buildPhotoStates
  refine ⟨?_, ?_, ?_, (List.filter_eq_self.mpr fun _ _ => rfl).symm, rfl, rfl⟩
  · exact List.map_congr_left fun a _ => (withVector_none a).symm
  · intro a ha
    rw [hpending]
    exact iff_of_true (List.mem_map_of_mem ha) rfl
  · intro id hid
    rw [hpending] at hid
    obtain ⟨a, ha, rfl⟩ := List.mem_map.mp hid
    exact ⟨a, ha, rfl⟩

theorem uses_reusing (ctx : Context B I V) (request : ProcessRequest) (store : Store V) :
    Uses (reusing ctx store) request store := by
  have hstored : ∀ a ∈ request.attachments,
      storedOf (reusing ctx store) request a.tripAttachmentId = store.vectors a.tripAttachmentId :=
    fun a ha => if_pos (List.mem_map_of_mem ha)
  have hembeddings : embedStored (reusing ctx store) (storedOf (reusing ctx store) request)
      (buildPhotoStates request) = withVectors request store.vectors := by
    change (request.attachments.map buildPhotoState).map _ = _
    rw [List.map_map]
    apply List.map_congr_left
    intro a ha
    rw [Function.comp_apply, id_buildPhotoState, hstored a ha]
    rfl
  have hpending : ∀ id, id ∈ runPending (reusing ctx store) request ↔
      ∃ a ∈ request.attachments, a.tripAttachmentId = id ∧ store.vectors id = none := by
    intro id
    change id ∈ ((embedStored _ _ _).filter _).map PhotoState.id ↔ _
    rw [hembeddings, List.mem_map]
    constructor
    · rintro ⟨p, hp, rfl⟩
      obtain ⟨hp, hnone⟩ := List.mem_filter.mp hp
      obtain ⟨a, ha, rfl⟩ := List.mem_map.mp hp
      rw [id_withVector]
      exact ⟨a, ha, rfl, Option.isNone_iff_eq_none.mp hnone⟩
    · rintro ⟨a, ha, rfl, hnone⟩
      exact ⟨_, List.mem_filter.mpr ⟨List.mem_map_of_mem ha, Option.isNone_iff_eq_none.mpr hnone⟩,
        id_withVector a _⟩
  refine ⟨hembeddings, ?_, ?_, ?_, rfl, rfl⟩
  · intro a ha
    rw [hpending]
    exact ⟨fun ⟨_, _, _, hnone⟩ => hnone, fun hnone => ⟨a, ha, rfl, hnone⟩⟩
  · intro id hid
    obtain ⟨a, ha, hid, -⟩ := (hpending id).mp hid
    exact ⟨a, ha, hid⟩
  · apply List.filter_congr
    intro a ha
    rw [hstored a ha]
    rfl

section Ideal

variable {store : Store V} {measured : List (Int × PhotoMetrics)}

theorem Uses.mem_downloads (h : Uses ctx request store) {a : ProcessAttachment} :
    a ∈ runDownloads ctx request ↔ a ∈ request.attachments ∧
      (store.vectors a.tripAttachmentId = none ∨ store.metrics a.tripAttachmentId = none) := by
  rw [h.downloads, List.mem_filter, Bool.or_eq_true, Option.isNone_iff_eq_none,
    Option.isNone_iff_eq_none]

theorem Uses.nodup_downloads (h : Uses ctx request store)
    (hnodup : (request.attachments.map ProcessAttachment.tripAttachmentId).Nodup) :
    ((runDownloads ctx request).map ProcessAttachment.tripAttachmentId).Nodup := by
  rw [h.downloads]
  exact hnodup.sublist (List.filter_sublist.map _)

/-- **The vectors a run works with are those of the copies**, stored or computed. -/
theorem Uses.vectors_eq (h : Uses ctx request store)
    (hsound : store.Sound N ctx request content vector)
    (hnodup : (request.attachments.map ProcessAttachment.tripAttachmentId).Nodup)
    (hload : List.Forall₂ (Readable ctx content) (runDownloads ctx request) loaded) :
    (embedStored ctx (storedOf ctx request) (buildPhotoStates request)).map
        (give (vectorOf vector loaded) (runPending ctx request)) =
      withVectors request (idealVectors request content vector) := by
  rw [h.embeddings, withVectors, List.map_map]
  apply List.map_congr_left
  intro a ha
  rw [Function.comp_apply, give, id_withVector]
  cases hstored : store.vectors a.tripAttachmentId with
  | none =>
      obtain ⟨l, -, hal, hraw⟩ := rawImage_of_mem (h.nodup_downloads hnodup) hload
        (h.mem_downloads.mpr ⟨ha, .inl hstored⟩)
      have hvector : vectorOf vector loaded a.tripAttachmentId = (vector l.raw).toOption := by
        rw [vectorOf, hraw, Except.toOption, Option.bind_some]
      rw [if_pos ((h.pending a ha).mpr hstored), hvector, idealVectors_eq hnodup ha hal.content]
      rfl
  | some v =>
      have hpending : a.tripAttachmentId ∉ runPending ctx request := fun hmem => by
        rw [(h.pending a ha).mp hmem] at hstored
        cases hstored
      obtain ⟨b, hb, hid, raw, image, m, hcopy, hrow⟩ := hsound.vectors _ v hstored
      obtain rfl : b = a := List.inj_on_of_nodup_map hnodup hb ha hid
      rw [if_neg hpending, idealVectors_eq hnodup ha hcopy.content, hrow.vector]
      rfl

/-- **The metrics a run works with are those of the copies**, stored or measured. -/
theorem Uses.metrics_eq (h : Uses ctx request store)
    (hsound : store.Sound N ctx request content vector)
    (hnodup : (request.attachments.map ProcessAttachment.tripAttachmentId).Nodup)
    (hload : List.Forall₂ (Readable ctx content) (runDownloads ctx request) loaded)
    (hmeasured : List.Forall₂ (fun l m => m.1 = l.id ∧ ctx.measure l.image = some m.2)
      loaded measured)
    {a : ProcessAttachment} (ha : a ∈ request.attachments) :
    ∃ m, allMetrics ctx measured a.tripAttachmentId = some m ∧
      idealMetrics ctx request content a.tripAttachmentId = some m := by
  unfold allMetrics
  rw [h.metrics]
  cases hfind : measured.find? fun m => m.1 = a.tripAttachmentId with
  | some e =>
      have hid : e.1 = a.tripAttachmentId := of_decide_eq_true (List.find?_some hfind :)
      obtain ⟨l, hl, hel, hm⟩ := exists_left_of_forall₂ hmeasured (List.mem_of_find?_eq_some hfind)
      obtain ⟨b, hb, hbl⟩ := exists_left_of_forall₂ hload hl
      obtain rfl : b = a := List.inj_on_of_nodup_map hnodup (h.mem_downloads.mp hb).1 ha
        (hbl.id.symm.trans (hel.symm.trans hid))
      exact ⟨e.2, rfl, (idealMetrics_eq hnodup ha hbl.content hbl.decode).trans hm⟩
  | none =>
      cases hstored : store.metrics a.tripAttachmentId with
      | none =>
          obtain ⟨l, hl, hal⟩ :=
            exists_right_of_forall₂ hload (h.mem_downloads.mpr ⟨ha, .inr hstored⟩)
          obtain ⟨e, he, hel, -⟩ := exists_right_of_forall₂ hmeasured hl
          exact absurd (decide_eq_true (hel.trans hal.id)) (List.find?_eq_none.mp hfind e he)
      | some m =>
          obtain ⟨b, hb, hid, raw, image, hcopy⟩ := hsound.metrics _ m hstored
          obtain rfl : b = a := List.inj_on_of_nodup_map hnodup hb ha hid
          exact ⟨m, rfl, (idealMetrics_eq hnodup ha hcopy.content hcopy.decode).trans hcopy.measure⟩

/-- What a run that gets to CLOCK found out about its photos. -/
theorem Uses.processable (h : Uses ctx request store)
    (hsound : store.Sound N ctx request content vector)
    (hnodup : (request.attachments.map ProcessAttachment.tripAttachmentId).Nodup)
    (hload : List.Forall₂ (Readable ctx content) (runDownloads ctx request) loaded)
    (hembed : ∀ id ∈ runPending ctx request, Embeddable N ctx vector loaded id)
    (hmeasured : List.Forall₂ (fun l m => m.1 = l.id ∧ ctx.measure l.image = some m.2)
      loaded measured)
    {a : ProcessAttachment} (ha : a ∈ request.attachments) :
    Processable N ctx content vector a := by
  cases hstored : store.vectors a.tripAttachmentId with
  | none =>
      obtain ⟨l, hl, hal, hraw⟩ := rawImage_of_mem (h.nodup_downloads hnodup) hload
        (h.mem_downloads.mpr ⟨ha, .inl hstored⟩)
      obtain ⟨e, -, -, hm⟩ := exists_right_of_forall₂ hmeasured hl
      obtain ⟨raw, v, hraw', hrow⟩ := hembed _ ((h.pending a ha).mpr hstored)
      obtain rfl : l.raw = raw := Except.ok.inj (hraw.symm.trans hraw')
      exact ⟨l.raw, l.image, e.2, v, ⟨hal.content, hal.decode, hm⟩, hrow⟩
  | some v =>
      obtain ⟨b, hb, hid, raw, image, m, hcopy, hrow⟩ := hsound.vectors _ v hstored
      obtain rfl : b = a := List.inj_on_of_nodup_map hnodup hb ha hid
      exact ⟨raw, image, m, v, hcopy, hrow⟩

theorem nodup_of_checkRequest (h : checkRequest ctx request = .ok ⟨⟩) :
    (request.attachments.map ProcessAttachment.tripAttachmentId).Nodup := by
  obtain ⟨_, hids, -⟩ := except_bind_eq_ok.mp h
  simpa only [raiseIf_eq_ok, Bool.not_eq_false', decide_eq_true_eq] using hids

/-- **A run comes to what its steps make of the copies**, however much of it is stored. -/
theorem run_eq_ideal (h : Uses ctx request store) (hstable : Stable ctx content vector)
    (hsound : store.Sound N ctx request content vector) :
    (run N ctx request).outcome = .ok result ↔
      checkRequest ctx request = .ok ⟨⟩ ∧
      (∀ a ∈ request.attachments, Processable N ctx content vector a) ∧
      settled N ctx request (withVectors request (idealVectors request content vector))
        (idealMetrics ctx request content) = .ok result := by
  have hsettled : ∀ {loaded measured},
      (request.attachments.map ProcessAttachment.tripAttachmentId).Nodup →
      List.Forall₂ (Readable ctx content) (runDownloads ctx request) loaded →
      List.Forall₂ (fun (l : LoadedImage B I) (m : Int × PhotoMetrics) => m.1 = l.id ∧
        ctx.measure l.image = some m.2) loaded measured →
      (settled N ctx request (withVectors request (idealVectors request content vector))
          (allMetrics ctx measured) = .ok result ↔
        settled N ctx request (withVectors request (idealVectors request content vector))
          (idealMetrics ctx request content) = .ok result) := by
    intro loaded measured hnodup hload hmeasured
    apply settled_congr
    intro id hid
    obtain ⟨p, hp, rfl⟩ := List.mem_map.mp hid
    obtain ⟨a, ha, rfl⟩ := List.mem_map.mp hp
    obtain ⟨m, hm, hideal⟩ := h.metrics_eq hsound hnodup hload hmeasured ha
    rw [id_withVector, hm, hideal]
  simp only [run_eq_ok, download_eq_ok hstable, embedAll_eq_ok hstable,
    settleStages_settled h.agent, measureImages_eq_ok hstable]
  constructor
  · rintro ⟨hcheck, loaded, photos, hload, ⟨hembed, rfl⟩, measured, hmeasured, hok⟩
    have hnodup := nodup_of_checkRequest hcheck
    refine ⟨hcheck, fun a ha => h.processable hsound hnodup hload hembed hmeasured ha, ?_⟩
    have hvectors := h.vectors_eq hsound hnodup hload
    unfold runPending at hvectors
    rw [hvectors] at hok
    exact (hsettled hnodup hload hmeasured).mp hok
  · rintro ⟨hcheck, hall, hok⟩
    have hnodup := nodup_of_checkRequest hcheck
    have hread : ∀ a ∈ runDownloads ctx request, ∃ l : LoadedImage B I, Readable ctx content a l ∧
        ∃ m, ctx.measure l.image = some m := by
      intro a ha
      obtain ⟨raw, image, m, v, hcopy, -⟩ := hall a (h.mem_downloads.mp ha).1
      exact ⟨⟨a.tripAttachmentId, raw, image⟩, ⟨rfl, hcopy.content, hcopy.decode⟩, m, hcopy.measure⟩
    obtain ⟨loaded, hloaded⟩ := exists_forall₂ hread
    have hload := hloaded.imp fun _ _ hl => hl.1
    have hmetrics : ∀ l ∈ loaded, ∃ m : Int × PhotoMetrics,
        m.1 = l.id ∧ ctx.measure l.image = some m.2 := by
      intro l hl
      obtain ⟨a, -, -, m, hm⟩ := exists_left_of_forall₂ hloaded hl
      exact ⟨(l.id, m), rfl, hm⟩
    obtain ⟨measured, hmeasured⟩ := exists_forall₂ hmetrics
    refine ⟨hcheck, loaded, _, hload, ⟨fun id hid => ?_, rfl⟩, measured, hmeasured, ?_⟩
    · obtain ⟨a, ha, rfl⟩ := h.requested id hid
      obtain ⟨l, -, hal, hraw⟩ := rawImage_of_mem (h.nodup_downloads hnodup) hload
        (h.mem_downloads.mpr ⟨ha, .inl ((h.pending a ha).mp hid)⟩)
      obtain ⟨raw, image, m, v, hcopy, hrow⟩ := hall a ha
      obtain rfl : l.raw = raw := Option.some.inj (hal.content.symm.trans hcopy.content)
      exact ⟨l.raw, v, hraw, hrow⟩
    · have hvectors := h.vectors_eq hsound hnodup hload
      unfold runPending at hvectors
      rw [hvectors]
      exact (hsettled hnodup hload hmeasured).mpr hok

/-- **Nothing is looked up that a run did not load**: of the photos it embeds the raw image, of
those it sorts the vector, and of those it filters the metrics. -/
structure LooksUpLoaded (N : Numerics V) (ctx : Context B I V)
    (request : ProcessRequest) : Prop where
  raw : ∀ skipped loaded, (download ctx skipped (runDownloads ctx request)).outcome = .ok loaded →
    ∀ id ∈ runPending ctx request, ∃ raw, rawImage loaded id = .ok raw
  vector : ∀ loaded photos, (embedAll N ctx loaded (embedStored ctx (storedOf ctx request)
      (buildPhotoStates request))).outcome = .ok photos → ∀ p ∈ photos, p.embedding.isSome = true
  metrics : ∀ skipped loaded measured,
    (download ctx skipped (runDownloads ctx request)).outcome = .ok loaded →
    measureImages ctx loaded = .ok measured →
    ∀ a ∈ request.attachments, (allMetrics ctx measured a.tripAttachmentId).isSome = true

theorem Uses.looksUpLoaded (h : Uses ctx request store) (hstable : Stable ctx content vector)
    (hsound : store.Sound N ctx request content vector)
    (hnodup : (request.attachments.map ProcessAttachment.tripAttachmentId).Nodup) :
    LooksUpLoaded N ctx request where
  raw := by
    intro skipped loaded hload id hid
    obtain ⟨a, ha, rfl⟩ := h.requested id hid
    obtain ⟨l, -, -, hraw⟩ := rawImage_of_mem (h.nodup_downloads hnodup)
      ((download_eq_ok hstable).mp hload) (h.mem_downloads.mpr ⟨ha, .inl ((h.pending a ha).mp hid)⟩)
    exact ⟨l.raw, hraw⟩
  vector := by
    intro loaded photos hembed p hp
    obtain ⟨hall, rfl⟩ := (embedAll_eq_ok hstable).mp hembed
    change p ∈ (embedStored ctx (storedOf ctx request) (buildPhotoStates request)).map
      (give (vectorOf vector loaded) (runPending ctx request)) at hp
    rw [h.embeddings, withVectors, List.map_map] at hp
    obtain ⟨a, ha, rfl⟩ := List.mem_map.mp hp
    rw [Function.comp_apply, give, id_withVector]
    split
    · rename_i hid
      obtain ⟨raw, v, hraw, hrow⟩ := hall _ hid
      dsimp only
      rw [vectorOf_eq hraw hrow.vector]
      rfl
    · rename_i hid
      exact Option.isSome_iff_ne_none.mpr fun hnone => hid ((h.pending a ha).mpr hnone)
  metrics := by
    intro skipped loaded measured hload hmeasured a ha
    obtain ⟨m, hm, -⟩ := h.metrics_eq hsound hnodup ((download_eq_ok hstable).mp hload)
      ((measureImages_eq_ok hstable).mp hmeasured) ha
    rw [hm]
    rfl

end Ideal

/-! ### Reuse changes nothing -/

theorem runPipeline_quiet :
    runPipeline N ctx request Script.quiet = .ok result ↔
      (run N ctx request).outcome = .ok result := by
  constructor
  · exact run_of_pipeline
  · intro h
    unfold runPipeline
    rw [Script.execute_quiet, h]

section Reuse

variable {store : Store V}

theorem Processable.of_plain {a : ProcessAttachment}
    (h : Processable N (plain ctx) content vector a) :
    Processable N (reusing ctx store) content vector a := by
  obtain ⟨raw, image, m, v, hcopy, hrow⟩ := h
  exact ⟨raw, image, m, v, ⟨hcopy.content, hcopy.decode, hcopy.measure⟩,
    ⟨hrow.vector, hrow.dim, hrow.unit⟩⟩

theorem Processable.of_reusing {a : ProcessAttachment}
    (h : Processable N (reusing ctx store) content vector a) :
    Processable N (plain ctx) content vector a := by
  obtain ⟨raw, image, m, v, hcopy, hrow⟩ := h
  exact ⟨raw, image, m, v, ⟨hcopy.content, hcopy.decode, hcopy.measure⟩,
    ⟨hrow.vector, hrow.dim, hrow.unit⟩⟩

theorem Store.Sound.of_reusing (h : store.Sound N ctx request content vector) :
    store.Sound N (reusing ctx store) request content vector := by
  constructor
  · intro id v hv
    obtain ⟨a, ha, hid, raw, image, m, hcopy, hrow⟩ := h.vectors id v hv
    exact ⟨a, ha, hid, raw, image, m, ⟨hcopy.content, hcopy.decode, hcopy.measure⟩,
      ⟨hrow.vector, hrow.dim, hrow.unit⟩⟩
  · intro id m hm
    obtain ⟨a, ha, hid, raw, image, hcopy⟩ := h.metrics id m hm
    exact ⟨a, ha, hid, raw, image, ⟨hcopy.content, hcopy.decode, hcopy.measure⟩⟩

theorem sound_empty : ({} : Store V).Sound N ctx request content vector := by
  constructor
  · intro id v hv
    cases hv
  · intro id m hm
    cases hm

/-- **Reused vectors and metrics change nothing.** Whatever batches were processed before, and
however much of what they stored is left, a run that uses it returns a result exactly when one
that uses nothing does, and the same; and it looks up nothing it did not load. -/
theorem reuse_changes_nothing (hstable : Stable ctx content vector)
    (hreach : Reachable (fun s => s = {}) (AheadStep N ctx request) store) :
    (∀ interrupt, runPipeline N (reusing ctx store) request interrupt = .ok result →
      runPipeline N (plain ctx) request Script.quiet = .ok result) ∧
    (∀ interrupt, runPipeline N (plain ctx) request interrupt = .ok result →
      runPipeline N (reusing ctx store) request Script.quiet = .ok result) ∧
    (checkRequest (reusing ctx store) request = .ok ⟨⟩ →
      LooksUpLoaded N (reusing ctx store) request) := by
  have hplain : Stable (plain ctx) content vector :=
    ⟨hstable.available, hstable.unchanged, hstable.engine, hstable.pixels⟩
  have hreusing : Stable (reusing ctx store) content vector :=
    ⟨hstable.available, hstable.unchanged, hstable.engine, hstable.pixels⟩
  have hsound := (sound_of_reachable hstable hreach).of_reusing
  refine ⟨fun interrupt h => ?_, fun interrupt h => ?_, fun h => ?_⟩
  · obtain ⟨hcheck, hall, hok⟩ := (run_eq_ideal (uses_reusing ctx request store) hreusing hsound).mp
      (run_of_pipeline h)
    exact runPipeline_quiet.mpr ((run_eq_ideal (uses_plain ctx request) hplain sound_empty).mpr
      ⟨hcheck, fun a ha => (hall a ha).of_reusing, hok⟩)
  · obtain ⟨hcheck, hall, hok⟩ := (run_eq_ideal (uses_plain ctx request) hplain sound_empty).mp
      (run_of_pipeline h)
    exact runPipeline_quiet.mpr ((run_eq_ideal (uses_reusing ctx request store) hreusing hsound).mpr
      ⟨hcheck, fun a ha => (hall a ha).of_plain, hok⟩)
  · exact (uses_reusing ctx request store).looksUpLoaded hreusing hsound (nodup_of_checkRequest h)

end Reuse

/-! ### A batch of one photo of two -/

def sampleBatch : List (Int × String) := [(1, "a.jpg")]

/-- The first photo is stored, the second is not. -/
def sampleStore : Store Unit :=
  (({} : Store Unit).upsert [(1, ())]).saveMetrics [(1, ⟨.finite "100.0", "0123456789abcdef"⟩)]

theorem sampleStore_reachable :
    Reachable (fun s => s = {}) (AheadStep sampleNumerics sampleContext sampleRequest)
      sampleStore := by
  have hbatch : IsBatch sampleRequest sampleBatch := by
    refine ⟨by decide, fun photo hphoto => ?_⟩
    obtain rfl := List.mem_singleton.mp hphoto
    exact ⟨_, List.mem_cons_self, rfl⟩
  have hembed : embedBatch sampleNumerics sampleContext 0 sampleBatch =
      .ok ⟨[(1, ())], [(1, ⟨.finite "100.0", "0123456789abcdef"⟩)]⟩ := rfl
  exact ⟨{}, [.batch 0 sampleBatch], rfl, .single (.stored hbatch hembed)⟩

theorem sampleContext_stable : Stable sampleContext (fun _ => some ()) fun _ => .ok () where
  available := fun _ _ _ => ⟨_, rfl⟩
  unchanged := by
    intro n keys blobs h key _
    cases h
    rfl
  engine := by
    intro raws
    have hrows : raws.mapM (fun _ => (.ok () : Except Raised Unit)) = .ok raws :=
      mapM_eq_ok.mpr (List.forall₂_same.mpr fun _ _ => rfl)
    rw [hrows]
    rfl
  pixels := fun _ _ _ => rfl

theorem reuse_changes_nothing_sampleStore :
    runPipeline sampleNumerics (reusing sampleContext sampleStore) sampleRequest Script.quiet =
      .ok sampleResult :=
  (reuse_changes_nothing sampleContext_stable sampleStore_reachable).2.1 Script.quiet
    sampleResult_eq

/-- Only the second photo is downloaded. -/
example : (runDownloads (reusing sampleContext sampleStore) sampleRequest).map
    ProcessAttachment.tripAttachmentId = [2] := by
  decide

end Yeodam.Pipeline
