/-
The photos a story may use (`filter_candidates` in `app/story/selection.py`).

Each place of the request is filtered by itself, its photos loaded and judged sixteen at a time,
and what was kept of one chunk is what the next is compared with. The chunks leave no trace
(`filterPlace_outcome`): a place keeps what `greedy` keeps of its photos in order, and that is
what FILTERING leaves of a folder of them (`filterCandidates_agrees`).
-/

import Yeodam.Jobs.Messages
import Yeodam.Lib.Script
import Yeodam.Pipeline.Verdicts

namespace Yeodam.Story

open Yeodam.Lib Yeodam.Schemas Yeodam.Jobs Yeodam.Pipeline

/-! ### What is met from outside -/

/-- What is raised. -/
inductive StoryRaised where
  | cancelled
  /-- `failure(code, message, reason=.., trip_place_id=..)` -/
  | failure (code : ErrorCode) (message reason : String) (tripPlaceId : Int)
  | decodeFailed (ids : List Int)
  /-- What the image source, Pillow or OpenCV raise. -/
  | other
deriving DecidableEq

/-- The image source, Pillow and `_measure`. `B` is the type of the bytes of a copy and `I` that
of a decoded image. -/
structure StoryImages (B I : Type) where
  /-- `images.get_many` for the n-th chunk of the i-th place: a dictionary from keys to bytes. -/
  getMany : Nat × Nat → List String → Except Unit (String → Option B)
  /-- `Image.open(..).convert("RGB")`; none where it raises an `OSError` or a `ValueError`. -/
  decode : B → Except Unit (Option I)
  /-- `_measure`: the variance, and the hash by its digits. -/
  measure : I → Except Unit PhotoMetrics

/-- Each event is a call of `cancelled`. -/
abbrev StoryProgram := Script Unit StoryRaised

variable {B I V : Type} (N : Numerics V) (images : StoryImages B I) (limits : FilterLimits)

def external {α : Type} (x : Except Unit α) : Except StoryRaised α := x.mapError fun _ => .other

/-! ### One chunk -/

/-- A photo of a chunk, on the left the id of one that cannot be decoded. -/
def decodeImage (blobs : String → Option B) (a : StoryAttachment) :
    Except StoryRaised (Int ⊕ (Int × I)) :=
  match blobs a.analyzeStorageKey with
  | none => .error .other
  | some raw => do
      match ← external (images.decode raw) with
      | some image => return .inr (a.tripAttachmentId, image)
      | none => return .inl a.tripAttachmentId

/-- `load_images`: the images, with their keys. -/
def loadChunk (tag : Nat × Nat) (chunk : List StoryAttachment) :
    Except StoryRaised (List (Int × I)) := do
  let blobs ← external (images.getMany tag (chunk.map StoryAttachment.analyzeStorageKey))
  let entries ← chunk.mapM (decodeImage images blobs)
  if entries.filterMap Sum.getLeft? = [] then return entries.filterMap Sum.getRight?
  else .error (.decodeFailed (entries.filterMap Sum.getLeft?))

/-- `decoded[id]`: of two entries the later one. -/
def imageOf (decoded : List (Int × I)) (id : Int) : Except StoryRaised I :=
  match decoded.reverse.find? fun e => e.1 = id with
  | some e => .ok e.2
  | none => .error .other

/-- A photo and its measurements. -/
abbrev Candidate := StoryAttachment × PhotoMetrics

/-- `variance < blur_min` -/
def belowMin : PyFloat → Bool
  | .finite repr => N.value (.finite repr) < limits.blurVarMin
  | .negInf => true
  | .nan | .inf => false

/-- `phash - other <= phash_max` -/
def withinMax (other c : Candidate) : Bool :=
  phashDistance c.2.phash other.2.phash ≤ limits.phashMaxDist

/-- One round of the loop over a chunk. -/
def judgeCandidate (decoded : List (Int × I)) (retained : List Candidate) (a : StoryAttachment) :
    StoryProgram (List Candidate) := do
  .emit ()
  let image ← .lift (imageOf decoded a.tripAttachmentId)
  let m ← .lift (external (images.measure image))
  if belowMin N limits m.variance || retained.any fun other => withinMax limits other (a, m) then
    return retained
  else return retained ++ [(a, m)]

/-- One round of the loop over the chunks of the i-th place. -/
def filterChunk (i : Nat) (retained : List Candidate) (chunk : List StoryAttachment × Nat) :
    StoryProgram (List Candidate) := do
  .emit ()
  let decoded ← .lift (loadChunk images (i, chunk.2) chunk.1)
  chunk.1.foldlM (judgeCandidate N images limits decoded) retained

/-! ### Places -/

/-- `(photo.taken_at, photo.trip_attachment_id)` -/
def takenOrder (a : StoryAttachment) : Int ×ₗ Int :=
  toLex (a.takenAt.instant, a.tripAttachmentId)

def noUsablePhotos (tripPlaceId : Int) : StoryRaised :=
  .failure .invalidRequest "선별 후 사용할 사진이 없는 장소가 있습니다."
    "NO_USABLE_PHOTOS" tripPlaceId

/-- What the i-th place keeps. -/
def filterPlace (i : Nat) (place : StoryPlace) : StoryProgram (List StoryAttachment) := do
  let photos := sortOn takenOrder place.attachments
  let retained ← (chunks 16 photos).zipIdx.foldlM (filterChunk N images limits i) []
  if retained = [] then .lift (.error (noUsablePhotos place.tripPlaceId))
  else return retained.map Prod.fst

/-- One round of the loop over the places. -/
def filterInto (groups : Dict Int (List StoryAttachment)) (p : StoryPlace × Nat) :
    StoryProgram (Dict Int (List StoryAttachment)) := do
  let retained ← filterPlace N images limits p.2 p.1
  return groups.set p.1.tripPlaceId retained

/-- `filter_candidates` -/
def filterCandidates (request : StoryMessage) : StoryProgram (Dict Int (List StoryAttachment)) :=
  request.places.zipIdx.foldlM (filterInto N images limits) ∅

/-- A run, `cancelled n` being what the n-th call of `cancelled` returns. -/
def runFilter (request : StoryMessage) (cancelled : Nat → Bool) :
    Except StoryRaised (Dict Int (List StoryAttachment)) :=
  (filterCandidates N images limits request).execute fun calls =>
    if cancelled calls.length then some .cancelled else none

/-- The ids of a message that `validate_request` lets through are distinct. -/
structure Checked (request : StoryMessage) : Prop where
  places : (request.places.map StoryPlace.tripPlaceId).Nodup
  ids : (request.places.flatMap fun place =>
    place.attachments.map StoryAttachment.tripAttachmentId).Nodup

variable {N images limits} {request : StoryMessage} {place : StoryPlace} {a : StoryAttachment}
  {c : Candidate} {photos : List StoryAttachment} {retained out ms : List Candidate}

/-! ### What a place keeps -/

/-- The image of a photo as some chunk loads it. -/
def Shows (images : StoryImages B I) (a : StoryAttachment) (image : I) : Prop :=
  ∃ tag keys blobs raw, images.getMany tag keys = .ok blobs ∧ blobs a.analyzeStorageKey = some raw ∧
    images.decode raw = .ok (some image)

/-- A photo with the measurements of an image of it. -/
def MeasuredAs (images : StoryImages B I) (a : StoryAttachment) (c : Candidate) : Prop :=
  c.1 = a ∧ ∃ image, Shows images a image ∧ images.measure image = .ok c.2

variable (N limits) in
/-- The verdicts of a place. -/
def judgePlace (retained ms : List Candidate) : List (Candidate × Verdict Candidate) :=
  greedy (fun c => belowMin N limits c.2.variance) (withinMax limits) retained ms

theorem keptOf_judgePlace_append (ms ms' : List Candidate) :
    keptOf (judgePlace N limits retained (ms ++ ms')) = keptOf (judgePlace N limits retained ms) ++
      keptOf (judgePlace N limits (retained ++ keptOf (judgePlace N limits retained ms)) ms') := by
  unfold judgePlace
  rw [greedy_append, keptOf_append]

theorem external_eq_ok {α : Type} {x : Except Unit α} {y : α} : external x = .ok y ↔ x = .ok y := by
  cases x with
  | error e => exact iff_of_false nofun nofun
  | ok z => exact Iff.intro (fun h => by cases h; rfl) fun h => by cases h; rfl

theorem decodeImage_eq_ok {blobs : String → Option B} {e : Int ⊕ (Int × I)}
    (h : decodeImage images blobs a = .ok e) (hleft : e.getLeft? = none) :
    ∃ raw image, blobs a.analyzeStorageKey = some raw ∧ images.decode raw = .ok (some image) ∧
      e = .inr (a.tripAttachmentId, image) := by
  unfold decodeImage at h
  split at h
  · cases h
  · rename_i raw hraw
    obtain ⟨decoded, hdecoded, h⟩ := except_bind_eq_ok.mp h
    cases decoded with
    | none =>
        cases h
        cases hleft
    | some image =>
        cases h
        exact ⟨raw, image, hraw, external_eq_ok.mp hdecoded, rfl⟩

/-- The images of a chunk are those of its photos. -/
theorem loadChunk_shows {tag : Nat × Nat} {decoded : List (Int × I)}
    (h : loadChunk images tag photos = .ok decoded) {e : Int × I} (he : e ∈ decoded) :
    ∃ a ∈ photos, a.tripAttachmentId = e.1 ∧ Shows images a e.2 := by
  obtain ⟨blobs, hblobs, h⟩ := except_bind_eq_ok.mp h
  obtain ⟨entries, hentries, h⟩ := except_bind_eq_ok.mp h
  split at h
  · rename_i hnone
    cases h
    obtain ⟨entry, hentry, hright⟩ := List.mem_filterMap.mp he
    obtain ⟨a, ha, hdecode⟩ := exists_left_of_forall₂ (mapM_eq_ok.mp hentries) hentry
    have hleft : entry.getLeft? = none := by
      cases entry with
      | inl id => cases hright
      | inr e => rfl
    obtain ⟨raw, image, hraw, hdecoded, rfl⟩ := decodeImage_eq_ok hdecode hleft
    cases hright
    exact ⟨a, ha, rfl, tag, _, blobs, raw, external_eq_ok.mp hblobs, hraw, hdecoded⟩
  · cases h

theorem imageOf_shows {tag : Nat × Nat} {decoded : List (Int × I)} {image : I}
    (hnodup : (photos.map StoryAttachment.tripAttachmentId).Nodup)
    (hload : loadChunk images tag photos = .ok decoded) (ha : a ∈ photos)
    (h : imageOf decoded a.tripAttachmentId = .ok image) : Shows images a image := by
  unfold imageOf at h
  split at h
  · rename_i e he
    cases h
    obtain ⟨a', ha', hid, hshows⟩ :=
      loadChunk_shows hload (List.mem_reverse.mp (List.mem_of_find?_eq_some he))
    have hfound : e.1 = a.tripAttachmentId := by simpa using List.find?_some he
    rwa [List.inj_on_of_nodup_map hnodup ha' ha (hid.trans hfound)] at hshows
  · cases h

/-- A round keeps what `greedy` keeps. -/
theorem judgeCandidate_outcome {decoded : List (Int × I)}
    (h : (judgeCandidate N images limits decoded retained a).outcome = .ok out) :
    ∃ image m, imageOf decoded a.tripAttachmentId = .ok image ∧ images.measure image = .ok m ∧
      out = retained ++ keptOf (judgePlace N limits retained [(a, m)]) := by
  unfold judgeCandidate at h
  simp only [Script.outcome_bind, Script.outcome_emit, Script.outcome_lift, except_ok_bind] at h
  obtain ⟨image, himage, h⟩ := except_bind_eq_ok.mp h
  obtain ⟨m, hm, h⟩ := except_bind_eq_ok.mp h
  refine ⟨image, m, himage, external_eq_ok.mp hm, ?_⟩
  rw [judgePlace, greedy_cons_eq, greedy, verdictOf]
  cases hbelow : belowMin N limits m.variance with
  | true =>
      rw [hbelow] at h
      cases h
      simp [keptOf]
  | false =>
      rw [hbelow, Bool.false_or] at h
      cases hfind : retained.find? fun other => withinMax limits other (a, m) with
      | none =>
          have hany : (retained.any fun other => withinMax limits other (a, m)) = false := by
            rw [List.any_eq_false]
            exact List.find?_eq_none.mp hfind
          rw [hany] at h
          cases h
          simp [keptOf]
      | some other =>
          have hany : (retained.any fun other => withinMax limits other (a, m)) = true := by
            have hwithin : withinMax limits other (a, m) = true := by
              simpa using List.find?_some hfind
            rw [List.any_eq_true]
            exact ⟨other, List.mem_of_find?_eq_some hfind, hwithin⟩
          rw [hany] at h
          cases h
          simp [keptOf]

/-- A chunk is judged as it would be without the others. -/
theorem foldlM_judgeCandidate {decoded : List (Int × I)} {tag : Nat × Nat}
    {chunk : List StoryAttachment} (hnodup : (chunk.map StoryAttachment.tripAttachmentId).Nodup)
    (hload : loadChunk images tag chunk = .ok decoded) (hphotos : photos ⊆ chunk)
    (h : (photos.foldlM (judgeCandidate N images limits decoded) retained).outcome = .ok out) :
    ∃ ms, List.Forall₂ (MeasuredAs images) photos ms ∧
      out = retained ++ keptOf (judgePlace N limits retained ms) := by
  induction photos generalizing retained with
  | nil =>
      cases h
      exact ⟨[], .nil, (List.append_nil _).symm⟩
  | cons a photos ih =>
      obtain ⟨ha, hrest⟩ := List.cons_subset.mp hphotos
      rw [List.foldlM_cons, Script.outcome_bind] at h
      obtain ⟨mid, hmid, h⟩ := except_bind_eq_ok.mp h
      obtain ⟨image, m, himage, hm, rfl⟩ := judgeCandidate_outcome hmid
      obtain ⟨ms, hms, rfl⟩ := ih hrest h
      refine ⟨(a, m) :: ms, .cons ⟨rfl, image, imageOf_shows hnodup hload ha himage, hm⟩ hms, ?_⟩
      rw [List.append_assoc]
      exact congrArg _ (keptOf_judgePlace_append [(a, m)] ms).symm

theorem foldlM_filterChunk {i : Nat} {chunks : List (List StoryAttachment × Nat)}
    (hnodup : ∀ chunk ∈ chunks, (chunk.1.map StoryAttachment.tripAttachmentId).Nodup)
    (h : (chunks.foldlM (filterChunk N images limits i) retained).outcome = .ok out) :
    ∃ ms, List.Forall₂ (MeasuredAs images) (chunks.flatMap Prod.fst) ms ∧
      out = retained ++ keptOf (judgePlace N limits retained ms) := by
  induction chunks generalizing retained with
  | nil =>
      cases h
      exact ⟨[], .nil, (List.append_nil _).symm⟩
  | cons chunk chunks ih =>
      obtain ⟨hchunk, hrest⟩ := List.forall_mem_cons.mp hnodup
      rw [List.foldlM_cons, Script.outcome_bind] at h
      obtain ⟨mid, hmid, h⟩ := except_bind_eq_ok.mp h
      simp only [filterChunk, Script.outcome_bind, Script.outcome_emit, Script.outcome_lift,
        except_ok_bind] at hmid
      obtain ⟨decoded, hload, hmid⟩ := except_bind_eq_ok.mp hmid
      obtain ⟨first, hfirst, rfl⟩ :=
        foldlM_judgeCandidate hchunk hload (List.Subset.refl _) hmid
      obtain ⟨ms, hms, rfl⟩ := ih hrest h
      refine ⟨first ++ ms, ?_, ?_⟩
      · rw [List.flatMap_cons]
        exact List.rel_append hfirst hms
      · rw [keptOf_judgePlace_append, List.append_assoc]

/-- What the chunks of a place come to. -/
theorem filterChunks_outcome {i : Nat}
    (hnodup : (place.attachments.map StoryAttachment.tripAttachmentId).Nodup)
    (h : ((chunks 16 (sortOn takenOrder place.attachments)).zipIdx.foldlM
      (filterChunk N images limits i) []).outcome = .ok out) :
    ∃ ms, List.Forall₂ (MeasuredAs images) (sortOn takenOrder place.attachments) ms ∧
      out = keptOf (judgePlace N limits [] ms) := by
  have hsorted : ((sortOn takenOrder place.attachments).map
      StoryAttachment.tripAttachmentId).Nodup :=
    ((sortOn_perm _ _).map _).nodup_iff.mpr hnodup
  have hflat : (chunks 16 (sortOn takenOrder place.attachments)).zipIdx.flatMap Prod.fst =
      sortOn takenOrder place.attachments := by
    rw [List.flatMap_def, List.zipIdx_map_fst]
    exact flatten_chunks (by omega) _
  have hchunks : ∀ chunk ∈ (chunks 16 (sortOn takenOrder place.attachments)).zipIdx,
      (chunk.1.map StoryAttachment.tripAttachmentId).Nodup := by
    intro chunk hchunk
    refine hsorted.sublist (List.Sublist.map _ ?_)
    have hmem : chunk.1 ∈ chunks 16 (sortOn takenOrder place.attachments) :=
      List.fst_mem_of_mem_zipIdx hchunk
    have hsub := List.sublist_flatten_of_mem hmem
    rwa [flatten_chunks (by omega)] at hsub
  obtain ⟨ms, hms, hout⟩ := foldlM_filterChunk hchunks h
  rw [hflat] at hms
  exact ⟨ms, hms, hout⟩

/-- The error is not one of `failure`. -/
def Outside {α : Type} (x : Except StoryRaised α) : Prop :=
  ∀ code message reason id, x ≠ .error (.failure code message reason id)

theorem Outside.bind {α β : Type} {x : Except StoryRaised α} {f : α → Except StoryRaised β}
    (hx : Outside x) (hf : ∀ y, Outside (f y)) : Outside (x >>= f) := by
  intro code message reason id h
  rcases except_bind_eq_error.mp h with h | ⟨y, -, h⟩
  · exact hx _ _ _ _ h
  · exact hf y _ _ _ _ h

theorem Outside.foldlM {α γ : Type} {step : γ → α → Except StoryRaised γ}
    (h : ∀ s x, Outside (step s x)) (s : γ) (xs : List α) : Outside (xs.foldlM step s) := by
  intro code message reason id herror
  obtain ⟨s', x, -, hx⟩ := foldlM_eq_error herror
  exact h s' x _ _ _ _ hx

theorem outside_external {α : Type} (x : Except Unit α) : Outside (external x) := by
  intro code message reason id h
  cases x <;> cases h

theorem outside_loadChunk (tag : Nat × Nat) (chunk : List StoryAttachment) :
    Outside (loadChunk images tag chunk) := by
  refine (outside_external _).bind fun blobs => Outside.bind ?_ fun entries => ?_
  · intro code message reason id h
    obtain ⟨a, -, ha⟩ := mapM_eq_error h
    unfold decodeImage at ha
    split at ha
    · cases ha
    · refine ((outside_external _).bind fun decoded => ?_) _ _ _ _ ha
      cases decoded <;> exact nofun
  · intro code message reason id h
    split at h <;> cases h

/-- What the rounds raise is not that a place has no photo. -/
theorem outside_filterChunks (i : Nat) (retained : List Candidate)
    (chunks : List (List StoryAttachment × Nat)) :
    Outside (chunks.foldlM (filterChunk N images limits i) retained).outcome := by
  rw [Script.outcome_foldlM]
  refine Outside.foldlM (fun retained chunk => ?_) _ _
  simp only [filterChunk, Script.outcome_bind, Script.outcome_emit, Script.outcome_lift,
    except_ok_bind, Script.outcome_foldlM]
  refine (outside_loadChunk _ _).bind fun decoded => Outside.foldlM (fun retained a => ?_) _ _
  simp only [judgeCandidate, Script.outcome_bind, Script.outcome_emit, Script.outcome_lift,
    except_ok_bind]
  refine Outside.bind ?_ fun image => (outside_external _).bind fun m => ?_
  · intro code message reason id h
    unfold imageOf at h
    split at h <;> cases h
  · intro code message reason id h
    split at h <;> cases h

/-- **A place keeps what `greedy` keeps of its photos in order**, whether or not that suffices. -/
theorem filterPlace_outcome {i : Nat}
    (hnodup : (place.attachments.map StoryAttachment.tripAttachmentId).Nodup) :
    (∀ retained, (filterPlace N images limits i place).outcome = .ok retained →
      ∃ ms, List.Forall₂ (MeasuredAs images) (sortOn takenOrder place.attachments) ms ∧
        retained = (keptOf (judgePlace N limits [] ms)).map Prod.fst) ∧
    ∀ id, (filterPlace N images limits i place).outcome = .error (noUsablePhotos id) →
      id = place.tripPlaceId ∧
      ∃ ms, List.Forall₂ (MeasuredAs images) (sortOn takenOrder place.attachments) ms ∧
        keptOf (judgePlace N limits [] ms) = [] := by
  unfold filterPlace
  simp only [Script.outcome_bind]
  constructor
  · intro retained h
    obtain ⟨out, hout, h⟩ := except_bind_eq_ok.mp h
    obtain ⟨ms, hms, rfl⟩ := filterChunks_outcome hnodup hout
    split at h
    · cases h
    · cases h
      exact ⟨ms, hms, rfl⟩
  · intro id h
    rcases except_bind_eq_error.mp h with h | ⟨out, hout, h⟩
    · exact absurd h (outside_filterChunks _ _ _ _ _ _ _)
    · obtain ⟨ms, hms, rfl⟩ := filterChunks_outcome hnodup hout
      split at h
      · rename_i hnone
        cases h
        exact ⟨rfl, ms, hms, hnone⟩
      · cases h

/-! ### What FILTERING leaves -/

/-- A photo of a place as one of a folder, its time known. -/
structure Foldered (folder : String) (a : StoryAttachment) (p : PhotoState V) : Prop where
  id : p.id = a.tripAttachmentId
  placeId : p.placeId = some folder
  takenAt : p.takenAt.map AwareTime.instant = some a.takenAt.instant

/-- The photos of a place as one folder, in some order. -/
def AsFolder (place : StoryPlace) (folder : String) (photos : List (PhotoState V)) : Prop :=
  ∃ listed, listed.Perm photos ∧ List.Forall₂ (Foldered folder) place.attachments listed

/-- What is measured of the photos of a place are their metrics. -/
def SameMeasurements (images : StoryImages B I) (metrics : Int → Option PhotoMetrics)
    (place : StoryPlace) : Prop :=
  ∀ a ∈ place.attachments, ∀ c, MeasuredAs images a c → metrics a.tripAttachmentId = some c.2

/-- The photos without an issue, in order. -/
def withoutIssue (photos : List (PhotoState V)) : List (PhotoState V) :=
  (sortOn PhotoState.orderKey photos).filter fun p => p.issue.isNone

theorem Foldered.orderKey {folder : String} {p : PhotoState V} (h : Foldered folder a p) :
    p.orderKey = toLex (false, takenOrder a) := by
  have htime := h.takenAt
  unfold PhotoState.orderKey takenOrder
  cases htaken : p.takenAt with
  | none =>
      rw [htaken] at htime
      cases htime
  | some t =>
      rw [htaken, Option.map_some, Option.some.injEq] at htime
      rw [h.id, Option.map_some, Option.getD_some, htime]
      rfl

theorem orderKey_le_iff {folder : String} {a b : StoryAttachment} {p q : PhotoState V}
    (hp : Foldered folder a p) (hq : Foldered folder b q) :
    takenOrder a ≤ takenOrder b ↔ p.orderKey ≤ q.orderKey := by
  rw [hp.orderKey, hq.orderKey, Prod.Lex.toLex_le_toLex]
  constructor
  · intro hle
    exact .inr ⟨rfl, hle⟩
  · rintro (hlt | ⟨-, hle⟩)
    · exact absurd hlt (lt_irrefl _)
    · exact hle

/-- A finite variance is compared as it is in FILTERING. -/
theorem belowMin_of_valid {m : PhotoMetrics} (h : m.valid N = true) :
    belowMin N limits m.variance = decide (N.value m.variance < limits.blurVarMin) := by
  unfold PhotoMetrics.valid at h
  cases hvariance : m.variance with
  | finite repr => rfl
  | nan | inf | negInf =>
      rw [hvariance] at h
      cases h

/-- A candidate and the photo of the folder it is. -/
structure SamePhoto (N : Numerics V) (folder : String) (c : Candidate) (m : Measured V) : Prop where
  foldered : Foldered folder c.1 m.1
  metrics : c.2 = m.2
  valid : m.2.valid N = true

variable {metrics : Int → Option PhotoMetrics} {folder : String}
  {folderPhotos : List (PhotoState V)}
  {measured : List (Measured V)}

/-- Related candidates and photos meet related verdicts. -/
theorem judgePlace_rel {S : List (Measured V)} (h : List.Forall₂ (SamePhoto N folder) ms S) :
    List.Forall₂ (SamePhoto N folder) (keptOf (judgePlace N limits [] ms))
      (keptOf (greedy (blurry N limits) (nearDuplicate limits) [] S)) := by
  refine keptOf_rel (greedy_rel (fun c m hcm => ?_) (fun c m c' m' hcm hcm' => ?_) .nil h)
  · rw [hcm.metrics, belowMin_of_valid hcm.valid]
    rfl
  · unfold withinMax nearDuplicate
    rw [hcm.metrics, hcm'.metrics]

/-- The photos of a place in order are those of the folder in order. -/
theorem forall₂_sorted (hmeasures : Measures N metrics folderPhotos measured)
    (hfolder : AsFolder place folder folderPhotos) (hsame : SameMeasurements images metrics place)
    (hms : List.Forall₂ (MeasuredAs images) (sortOn takenOrder place.attachments) ms) :
    List.Forall₂ (SamePhoto N folder) ms (sortOn (fun m => m.1.orderKey) measured) := by
  obtain ⟨listed, hperm, hlisted⟩ := hfolder
  have hkeys : (listed.map PhotoState.orderKey).Nodup := by
    refine List.Nodup.of_map (fun key : OrderKey => (ofLex (ofLex key).2).2) ?_
    rw [List.map_map]
    exact (hperm.map _).nodup_iff.mpr hmeasures.nodup
  have hsorted : (sortOn (fun m : Measured V => m.1.orderKey) measured).map Prod.fst =
      sortOn PhotoState.orderKey listed := by
    have hfst : measured.map Prod.fst = folderPhotos :=
      (map_eq_of_forall₂ hmeasures.each fun p m hm => hm.1).trans (List.map_id _)
    have hmap : (sortOn (fun m : Measured V => m.1.orderKey) measured).map Prod.fst =
        sortOn PhotoState.orderKey (measured.map Prod.fst) := map_sortOn fun _ => rfl
    rw [hmap, hfst, sortOn_eq_of_perm hkeys hperm]
  have hpairs := forall₂_sortOn (fun a p b q hp hq => orderKey_le_iff hp hq) hlisted
  rw [← hsorted, List.forall₂_map_right_iff] at hpairs
  refine forall₂_trans ?_ (List.Forall₂.flip (forall₂_mem hms)) (forall₂_mem hpairs)
  rintro c a m ⟨hc, ha, -⟩ ⟨hm, -, hmem⟩
  have hfilterable := (hmeasures.photo_mem (mem_sortOn.mp hmem)).2
  have hmetric := hsame a (mem_sortOn.mp ha) c hc
  rw [← hm.id, hfilterable.metric, Option.some.injEq] at hmetric
  refine ⟨?_, hmetric.symm, hfilterable.valid⟩
  rw [hc.1]
  exact hm

/-- What is left of a folder are the photos kept of it. -/
theorem withoutIssue_filtered {result : List (PhotoState V) × List (Int × ℚ)}
    (hmeasures : Measures N metrics folderPhotos measured)
    (hone : ∀ p ∈ folderPhotos, p.placeId = some folder)
    (hfiltered : Filtered N limits folderPhotos measured result) :
    withoutIssue result.1 = (keptOf (judgeGroup N limits measured)).map fun m =>
      applyVerdict m.1 .kept := by
  have hplace : ∀ {m}, m ∈ measured → m.1.placeId = some folder := fun hm =>
    hone _ (hmeasures.photo_mem hm).1
  have hall : ∀ v ∈ judgeGroup N limits measured, v ∈ judgeAll N limits measured := by
    rintro ⟨m, v⟩ hv
    have hm : m ∈ measured := mem_sortOn.mp (mem_of_mem_greedy hv)
    have hgroup : groupOf measured m = measured := by
      rw [groupOf, List.filter_eq_self]
      intro k hk
      rw [decide_eq_true_eq, hplace hk, hplace hm]
    rw [mem_judgeAll, hgroup]
    exact ⟨hm, hv⟩
  have hkey : ∀ p : PhotoState V,
      (judged (judgeAll N limits measured) p).orderKey = p.orderKey := by
    intro p
    unfold judged
    split
    · exact orderKey_applyVerdict p _
    · rfl
  have hphotos : folderPhotos = measured.map Prod.fst :=
    ((map_eq_of_forall₂ hmeasures.each fun p m hm => hm.1).trans (List.map_id _)).symm
  have hsorted : (sortOn (fun m : Measured V => m.1.orderKey) measured).map
        (fun m => judged (judgeAll N limits measured) m.1) =
      sortOn PhotoState.orderKey (measured.map fun m => judged (judgeAll N limits measured) m.1) :=
    map_sortOn fun m => hkey m.1
  have hfst : (judgeGroup N limits measured).map Prod.fst =
      sortOn (fun m : Measured V => m.1.orderKey) measured := map_fst_greedy _ _ _ _
  rw [withoutIssue, hfiltered.photos_eq, hphotos, List.map_map]
  change (sortOn PhotoState.orderKey
    (measured.map fun m => judged (judgeAll N limits measured) m.1)).filter _ = _
  rw [← hsorted, ← hfst, List.map_map]
  have hverdicts : (judgeGroup N limits measured).map
        ((fun m : Measured V => judged (judgeAll N limits measured) m.1) ∘ Prod.fst) =
      (judgeGroup N limits measured).map fun v => applyVerdict v.1.1 v.2 :=
    List.map_congr_left fun v hv => hmeasures.judged_eq (hall v hv)
  rw [hverdicts, filter_map_verdicts]
  rintro ⟨m, v⟩ hv
  have hkept : keptIssue m.1.placeId = none := by
    rw [hplace (mem_sortOn.mp (mem_of_mem_greedy hv))]
    rfl
  cases v with
  | kept => exact iff_of_true (by dsimp only [applyVerdict]; rw [hkept]; rfl) rfl
  | skipped | like n => constructor <;> intro h <;> cases h

/-! ### The places -/

/-- Each place is filtered, and what it keeps is under its id. -/
theorem foldlM_filterInto {places : List (StoryPlace × Nat)}
    {groups groups' : Dict Int (List StoryAttachment)}
    (hnodup : (places.map fun p => p.1.tripPlaceId).Nodup)
    (h : (places.foldlM (filterInto N images limits) groups).outcome = .ok groups') :
    (∀ p ∈ places, ∃ retained, (filterPlace N images limits p.2 p.1).outcome = .ok retained ∧
      groups'.get? p.1.tripPlaceId = some retained) ∧
    ∀ id ∉ places.map fun p => p.1.tripPlaceId, groups'.get? id = groups.get? id := by
  induction places generalizing groups with
  | nil =>
      cases h
      exact ⟨fun p hp => absurd hp List.not_mem_nil, fun _ _ => rfl⟩
  | cons p places ih =>
      rw [List.map_cons, List.nodup_cons] at hnodup
      rw [List.foldlM_cons, Script.outcome_bind] at h
      obtain ⟨mid, hmid, h⟩ := except_bind_eq_ok.mp h
      rw [filterInto, Script.outcome_bind] at hmid
      obtain ⟨retained, hretained, hmid⟩ := except_bind_eq_ok.mp hmid
      cases hmid
      obtain ⟨hplaces, hothers⟩ := ih hnodup.2 h
      constructor
      · intro q hq
        rcases List.mem_cons.mp hq with rfl | hq
        · refine ⟨retained, hretained, ?_⟩
          rw [hothers _ hnodup.1, Dict.get?_set, if_pos rfl]
        · exact hplaces q hq
      · intro id hid
        rw [List.map_cons, List.mem_cons, not_or] at hid
        rw [hothers id hid.2, Dict.get?_set, if_neg hid.1]

theorem Checked.nodup (h : Checked request) (hplace : place ∈ request.places) :
    (place.attachments.map StoryAttachment.tripAttachmentId).Nodup :=
  (List.nodup_flatMap.mp h.ids).1 place hplace

/-- The error of a run that was not cancelled is its outcome. -/
theorem runFilter_error {cancelled : Nat → Bool} {e : StoryRaised} (hne : e ≠ .cancelled)
    (h : runFilter N images limits request cancelled = .error e) :
    (filterCandidates N images limits request).outcome = .error e := by
  unfold runFilter Script.execute at h
  split at h
  · rename_i e' hfound
    obtain ⟨i, -, hi⟩ := List.exists_of_findSome?_eq_some hfound
    cases h
    dsimp only at hi
    split at hi
    · cases hi
      exact absurd rfl hne
    · cases hi
  · exact h

theorem nodup_places (h : Checked request) :
    (request.places.zipIdx.map fun p => p.1.tripPlaceId).Nodup := by
  have hfst : request.places.zipIdx.map (fun p => p.1.tripPlaceId) =
      request.places.map StoryPlace.tripPlaceId := by
    conv_rhs => rw [← List.zipIdx_map_fst 0 request.places, List.map_map]
    rfl
  rw [hfst]
  exact h.places

/-- The place without a usable photo is one of the request. -/
theorem filterCandidates_error {id : Int}
    (h : (filterCandidates N images limits request).outcome = .error (noUsablePhotos id)) :
    ∃ p ∈ request.places.zipIdx,
      (filterPlace N images limits p.2 p.1).outcome = .error (noUsablePhotos id) := by
  rw [filterCandidates, Script.outcome_foldlM] at h
  obtain ⟨groups, p, hp, h⟩ := foldlM_eq_error h
  rw [filterInto, Script.outcome_bind] at h
  rcases except_bind_eq_error.mp h with h | ⟨retained, -, h⟩
  · exact ⟨p, hp, h⟩
  · cases h

/-- **What a place keeps is what FILTERING leaves of a folder of its photos**, and a place that
keeps nothing is one of which FILTERING leaves nothing. -/
theorem filterCandidates_agrees {cancelled : Nat → Bool}
    {result : List (PhotoState V) × List (Int × ℚ)} (hchecked : Checked request)
    (hplace : place ∈ request.places) (hfolder : AsFolder place folder folderPhotos)
    (hsame : SameMeasurements images metrics place)
    (hmeasures : Measures N metrics folderPhotos measured)
    (hfiltered : Filtered N limits folderPhotos measured result) :
    (∀ groups, runFilter N images limits request cancelled = .ok groups →
      ∃ retained, groups.get? place.tripPlaceId = some retained ∧ retained ⊆ place.attachments ∧
        List.Forall₂ (Foldered folder) retained (withoutIssue result.1)) ∧
    (runFilter N images limits request cancelled = .error (noUsablePhotos place.tripPlaceId) →
      withoutIssue result.1 = []) := by
  have hone : ∀ p ∈ folderPhotos, p.placeId = some folder := by
    obtain ⟨listed, hperm, hlisted⟩ := hfolder
    intro p hp
    obtain ⟨a, -, hap⟩ := exists_left_of_forall₂ hlisted (hperm.mem_iff.mpr hp)
    exact hap.placeId
  have hleft := withoutIssue_filtered hmeasures hone hfiltered
  obtain ⟨i, hi⟩ : ∃ i, (place, i) ∈ request.places.zipIdx := by
    rw [← List.zipIdx_map_fst 0 request.places] at hplace
    obtain ⟨p, hp, rfl⟩ := List.mem_map.mp hplace
    exact ⟨p.2, hp⟩
  constructor
  · intro groups hgroups
    have houtcome := (Script.execute_eq_ok.mp hgroups).2
    obtain ⟨retained, hretained, hget⟩ :=
      (foldlM_filterInto (nodup_places hchecked) houtcome).1 (place, i) hi
    obtain ⟨ms, hms, rfl⟩ := (filterPlace_outcome (hchecked.nodup hplace)).1 retained hretained
    refine ⟨_, hget, fun a ha => ?_, ?_⟩
    · obtain ⟨c, hc, rfl⟩ := List.mem_map.mp ha
      obtain ⟨a, ha, hca, -⟩ := exists_left_of_forall₂ hms (mem_of_mem_greedy (mem_keptOf.mp hc))
      rw [hca]
      exact mem_sortOn.mp ha
    rw [hleft, List.forall₂_map_left_iff, List.forall₂_map_right_iff]
    refine (judgePlace_rel (forall₂_sorted hmeasures hfolder hsame hms)).imp fun c m hcm => ?_
    exact ⟨hcm.foldered.id, hcm.foldered.placeId, hcm.foldered.takenAt⟩
  · intro herror
    obtain ⟨⟨place', j⟩, hp, herror⟩ := filterCandidates_error (runFilter_error nofun herror)
    have hplace' : place' ∈ request.places := List.fst_mem_of_mem_zipIdx hp
    obtain ⟨hid, ms, hms, hnone⟩ := (filterPlace_outcome (hchecked.nodup hplace')).2 _ herror
    obtain rfl := List.inj_on_of_nodup_map hchecked.places hplace hplace' hid
    have hkept : List.Forall₂ (SamePhoto N folder) (keptOf (judgePlace N limits [] ms))
        (keptOf (judgeGroup N limits measured)) :=
      judgePlace_rel (forall₂_sorted hmeasures hfolder hsame hms)
    rw [hnone, List.forall₂_nil_left_iff] at hkept
    rw [hleft, hkept]
    rfl

/-- **Both paths meet the specification.** What `filter_photos` returns has the verdicts it should
have, and a story place keeps what it leaves. -/
theorem filtering_on_both_paths {metrics : Int → Option PhotoMetrics} {photos : List (PhotoState V)}
    {blurVarMin phashMaxDist : Threshold} {result : List (PhotoState V) × List (Int × ℚ)}
    (h : filterPhotos N photos metrics blurVarMin phashMaxDist = .ok result) :
    ∃ limits : FilterLimits, blurVarMin.finite? N = some limits.blurVarMin ∧
      phashMaxDist = .int limits.phashMaxDist ∧ FilterMeets N limits metrics photos result.1 ∧
      ∀ (images : StoryImages B I) request cancelled, Checked request → ∀ place ∈ request.places,
        ∀ folder, AsFolder place folder photos → SameMeasurements images metrics place →
        (∀ groups, runFilter N images limits request cancelled = .ok groups →
          ∃ retained, groups.get? place.tripPlaceId = some retained ∧ retained ⊆ place.attachments ∧
            List.Forall₂ (Foldered folder) retained (withoutIssue result.1)) ∧
        (runFilter N images limits request cancelled = .error (noUsablePhotos place.tripPlaceId) →
          withoutIssue result.1 = []) := by
  obtain ⟨limits, measured, hblur, -, hdist, -, -, hmeasures, hfiltered⟩ := filterPhotos_eq_ok.mp h
  refine ⟨limits, hblur, hdist, ?_, ?_⟩
  · rw [hfiltered.photos_eq]
    exact hmeasures.meets
  · intro images request cancelled hchecked place hplace folder hfolder hsame
    exact filterCandidates_agrees hchecked hplace hfolder hsame hmeasures hfiltered

/-! ### Two photos alike -/

def sampleFiltered : List (PhotoState Unit) × List (Int × ℚ) :=
  (filterPhotos sampleNumerics sampleFolder (fun _ => some sampleMetrics) (.int 0)
    (.int 4)).toOption.getD ([], [])

def sampleImages : StoryImages Unit Unit where
  getMany := fun _ _ => .ok fun _ => some ()
  decode := fun _ => .ok (some ())
  measure := fun _ => .ok sampleMetrics

/-- The photos of the folder as a place of a story. -/
def samplePlace : StoryPlace := ⟨7, "", [⟨2, "b.jpg", ⟨2, 0⟩, none⟩, ⟨1, "a.jpg", ⟨1, 0⟩, none⟩]⟩

def sampleStory : StoryMessage := ⟨1, "e", "", ⟨0, 10⟩, .calm, [samplePlace]⟩

theorem filtering_on_both_paths_sampleStory : ∃ groups retained,
    runFilter sampleNumerics sampleImages ⟨0, 4⟩ sampleStory (fun _ => false) = .ok groups ∧
      groups.get? 7 = some retained ∧
      List.Forall₂ (Foldered "p1") retained (withoutIssue sampleFiltered.1) ∧
      (withoutIssue sampleFiltered.1).map PhotoState.id = [1] := by
  have hfiltered : (filterPhotos sampleNumerics sampleFolder (fun _ => some sampleMetrics) (.int 0)
      (.int 4)).toOption.isSome = true := by
    decide +kernel
  have hrun : (runFilter sampleNumerics sampleImages ⟨0, 4⟩ sampleStory
      fun _ => false).toOption.isSome = true := by
    decide +kernel
  have hfolder : AsFolder samplePlace "p1" sampleFolder :=
    ⟨sampleFolder, .refl _, .cons ⟨rfl, rfl, rfl⟩ (.cons ⟨rfl, rfl, rfl⟩ .nil)⟩
  have hsame : SameMeasurements sampleImages (fun _ => some sampleMetrics) samplePlace := by
    rintro a - c ⟨-, image, -, hmeasure⟩
    exact congrArg some (Except.ok.inj hmeasure)
  obtain ⟨limits, hblur, hdist, -, hstory⟩ :=
    filtering_on_both_paths (eq_ok_getD hfiltered ([], []))
  obtain rfl : limits = ⟨0, 4⟩ := by
    cases limits
    cases hblur
    cases hdist
    rfl
  obtain ⟨retained, hget, -, hretained⟩ := (hstory sampleImages sampleStory (fun _ => false)
    ⟨by decide, by decide⟩ samplePlace List.mem_cons_self "p1" hfolder hsame).1 _
      (eq_ok_getD hrun ∅)
  exact ⟨_, retained, eq_ok_getD hrun ∅, hget, hretained, by decide +kernel⟩

end Yeodam.Story
