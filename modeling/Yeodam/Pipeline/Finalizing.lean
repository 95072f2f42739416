/-
FINALIZING (`app/pipeline/steps/finalizing.py`, `represent.py`): the photos are checked once
more and put together into the result.

A folder becomes a place with the photos kept in it, and every photo with an issue is listed
beside the places. `finalizePhotos_conserves` says that a result lists each photo once and
refers to nothing outside it, and `finalizePhotos_succeeds` when there is one.
-/

import Mathlib.Data.List.MinMax
import Mathlib.Data.String.Basic
import Yeodam.Lib.Exact
import Yeodam.Pipeline.State

namespace Yeodam.Pipeline

open Yeodam.Lib Yeodam.Schemas
open scoped IntKeys

variable {V : Type} (N : Numerics V)

/-! ### Scores and representatives -/

/-- `quality_score`. -/
def qualityScore (variance : ℚ) : Except Raised Int := do
  raiseIf (variance < 0) "품질 점수에는 0 이상의 유한한 라플라시안 분산이 필요함"
  return roundHalfEven (N.saturation variance)

/-- How close a photo is to the mean of the embeddings. -/
def representativeScore (photos : List (PhotoState V)) (p : PhotoState V) : ℚ :=
  (photos.map (similarity N p)).sum / photos.length

/-- `select_representative`. -/
def selectRepresentative (photos : List (PhotoState V)) : Except Raised Int := do
  raiseIf photos.isEmpty "대표 사진 후보가 없음"
  let ordered := byId photos
  let vs ← ordered.mapM (unitVector N "대표 사진 후보에 같은 차원의 유효한 단위 임베딩이 필요함")
  raiseIf (!oneDimension N vs) "대표 사진 후보에 같은 차원의 유효한 단위 임베딩이 필요함"
  match ordered.argmax (representativeScore N ordered) with
  | some p => return p.id
  | none => .error .other

/-! ### One photo -/

/-- The folder, the issue and the coordinates go together. -/
def validatePlace (p : PhotoState V) : Except Raised Unit :=
  if p.issue = some .unclearLocation then
    raiseIf p.placeId.isSome "위치 미분류 사진에 장소가 지정됨"
  else if p.placeId.isNone then
    raiseIf p.issue.isNone "장소 사진의 좌표와 출처 및 place_id가 필요함"
  else
    raiseIf (p.folder?.isNone || p.point?.isNone || p.regionOrigin = .unknown)
      "장소 사진의 좌표와 출처 및 place_id가 필요함"

/-- `_validate`. -/
def validatePhoto (p : PhotoState V) : Except Raised Unit := do
  raiseIf p.timeInconsistent "FINALIZING 처리 시각이 일관되지 않음"
  raiseIf (p.latitude.any fun x => !validCoordinate N 90 x) "FINALIZING 대상 좌표가 유효하지 않음"
  raiseIf (p.longitude.any fun x => !validCoordinate N 180 x) "FINALIZING 대상 좌표가 유효하지 않음"
  validatePlace p
  raiseIf (p.issue ≠ some .duplicated && p.duplicateOfAttachmentId.isSome)
    "중복이 아닌 사진에 중복 원본 ID가 지정됨"

/-- What the result says of a photo wherever it lists it. -/
structure PhotoFields where
  tripAttachmentId : Int
  takenAt : Option AwareTime
  latitude : Option PyFloat
  longitude : Option PyFloat
  regionOrigin : RegionOrigin
  evaluation : Option Int

def scorePhoto (variances : List (Int × ℚ)) (p : PhotoState V) : Except Raised (Option Int) :=
  match variances.lookup p.id with
  | some variance =>
      if p.issue = some .unclearLocation then .ok none else (qualityScore N variance).map some
  | none =>
      if p.issue = some .unclearLocation then .ok none
      else fail ("품질 점수 계산에 필요한 분산이 없음: " ++ toString p.id)

/-- The original of a duplicate is kept in the same folder. -/
def originalKept (photos : List (PhotoState V)) (p : PhotoState V) : Bool :=
  (p.duplicateOfAttachmentId.bind (current photos)).any fun original =>
    original.issue = keptIssue p.placeId && original.placeId = p.placeId

/-- One round of the first loop of `finalize_photos`. -/
def photoFields (photos : List (PhotoState V)) (variances : List (Int × ℚ)) (p : PhotoState V) :
    Except Raised PhotoFields := do
  validatePhoto N p
  let score ← scorePhoto N variances p
  raiseIf (p.issue = some .duplicated && !originalKept photos p)
    "중복 원본은 같은 장소에 보존된 사진이어야 함"
  return ⟨p.id, p.takenAt, p.latitude, p.longitude, p.regionOrigin, score⟩

/-! ### The parts of the result -/

/-- A `ValidationError` of the result's models is a `PipelineError`. -/
def contract {α : Type} : Option α → Except Raised α
  | some a => .ok a
  | none => fail "사진 정리 결과가 응답 계약과 일치하지 않음"

/-- `PlaceAttachment(**fields)`. -/
def PhotoFields.placeAttachment? (f : PhotoFields) : Option PlaceAttachment :=
  match f.latitude, f.longitude, f.evaluation with
  | some latitude, some longitude, some evaluation =>
      if f.regionOrigin ≠ .unknown ∧ 0 ≤ evaluation ∧ evaluation ≤ 100 then
        some ⟨f.tripAttachmentId, f.takenAt, latitude, longitude, f.regionOrigin, evaluation⟩
      else none
  | _, _, _ => none

/-- `UnclassifiedAttachment(**fields, ...)`. -/
def unclassifiedAttachment? (f : PhotoFields) (issue : Issue) (placeId : Option String)
    (duplicateOf : Option Int) : Option UnclassifiedAttachment :=
  if (f.evaluation.all fun n => 0 ≤ n && n ≤ 100) &&
      (issue ≠ .duplicated || duplicateOf.isSome) then
    some ⟨f.tripAttachmentId, issue, placeId, duplicateOf, f.takenAt, f.latitude, f.longitude,
      f.regionOrigin, f.evaluation⟩
  else none

/-- `Place(...)`; attachments that the representative is one of are not empty. -/
def place? (p : Place) : Option Place :=
  if p.representativeAttachmentId ∈ p.attachments.map PlaceAttachment.tripAttachmentId then some p
  else none

/-- `ProcessResult(...)`. -/
def processResult? (r : ProcessResult) : Option ProcessResult :=
  if r.ids.Nodup then some r else none

/-- The fields of a photo, computed by the first loop. -/
def fieldsOf (fields : List PhotoFields) (p : PhotoState V) : Except Raised PhotoFields :=
  match fields.find? fun f => f.tripAttachmentId = p.id with
  | some f => .ok f
  | none => .error .other

/-- Members of each folder, the folders by name. -/
def placeGroups (photos : List (PhotoState V)) : List (String × List (PhotoState V)) :=
  let placed := photos.filterMap fun p => p.placeId.map fun place => (place, p)
  sortOn Prod.fst ((groupOn Prod.fst placed).map fun g => (g.1, g.2.map Prod.snd))

/-- `_center`. -/
def center (members : List (PhotoState V)) : Except Raised (PyFloat × PyFloat) := do
  let points ← members.mapM fun p =>
    match p.point? with
    | some point => .ok point
    | none => .error .other
  match N.sphericalMean points with
  | some point => return point
  | none => fail "장소 기준 좌표를 계산할 수 없음"

def placeAttachment (fields : List PhotoFields) (p : PhotoState V) :
    Except Raised PlaceAttachment := do
  let f ← fieldsOf fields p
  contract f.placeAttachment?

/-- One folder of the result. -/
def buildPlace (fields : List PhotoFields) (group : String × List (PhotoState V)) :
    Except Raised Place := do
  let _ ← group.2.mapM utcOrder
  let members := sortOn PhotoState.orderKey group.2
  let candidates := members.filter fun p => p.issue.isNone
  let representative ← selectRepresentative N candidates
  let point ← center N members
  let times := candidates.filterMap PhotoState.takenAt
  let attachments ← candidates.mapM (placeAttachment fields)
  contract (place?
    { placeId := group.1
      matchedTripPlaceId := none
      latitude := point.1
      longitude := point.2
      firstTakenAt := times.argmin AwareTime.instant
      lastTakenAt := times.argmax AwareTime.instant
      representativeAttachmentId := representative
      attachments := attachments })

def unclassifiedAttachment (fields : List PhotoFields) (entry : Issue × PhotoState V) :
    Except Raised UnclassifiedAttachment := do
  let f ← fieldsOf fields entry.2
  contract (unclassifiedAttachment? f entry.1 entry.2.placeId entry.2.duplicateOfAttachmentId)

/-- Photos with an issue, by id. -/
def withIssue (photos : List (PhotoState V)) : List (Issue × PhotoState V) :=
  (byId photos).filterMap fun p => p.issue.map fun issue => (issue, p)

/-- `finalize_photos`. -/
def finalizePhotos (photos : List (PhotoState V)) (variances : List (Int × ℚ))
    (clockOffsets : List ClockOffset) : Except Raised ProcessResult := do
  raiseIf (!(photos.map PhotoState.id).Nodup) "FINALIZING 사진 ID가 중복됨"
  let fields ← photos.mapM (photoFields N photos variances)
  let places ← (placeGroups photos).mapM (buildPlace N fields)
  let unclassified ← (withIssue photos).mapM (unclassifiedAttachment fields)
  contract (processResult? ⟨places, unclassified, [], clockOffsets⟩)

/-! ### What a result says -/

/-- The photos `ids` are listed once each, and every reference names something in the result. -/
structure Conserves (ids : List Int) (r : ProcessResult) : Prop where
  listed : r.ids.Perm ids
  failed : r.failed = []
  representative : ∀ place ∈ r.places, place.attachments ≠ [] ∧
    place.representativeAttachmentId ∈ place.attachments.map PlaceAttachment.tripAttachmentId
  folder : ∀ u ∈ r.unclassified, ∀ placeId, u.placeId = some placeId →
    ∃ place ∈ r.places, place.placeId = placeId
  original : ∀ u ∈ r.unclassified, u.issue = .duplicated →
    ∃ original, u.duplicateOfAttachmentId = some original ∧
      (∀ placeId, u.placeId = some placeId → ∃ place ∈ r.places, place.placeId = placeId ∧
        original ∈ place.attachments.map PlaceAttachment.tripAttachmentId) ∧
      (u.placeId = none → ∃ w ∈ r.unclassified, w.tripAttachmentId = original ∧
        w.issue = .unclearLocation)

variable {N} {photos members : List (PhotoState V)} {p q : PhotoState V}
  {variances : List (Int × ℚ)} {clockOffsets : List ClockOffset} {fields : List PhotoFields}
  {f : PhotoFields} {group : String × List (PhotoState V)} {place : Place} {result : ProcessResult}

@[simp] theorem contract_eq_ok {α : Type} {o : Option α} {a : α} :
    contract o = .ok a ↔ o = some a := by
  cases o <;> simp [contract]

/-- The checks of one photo. -/
structure Finalizable (photos : List (PhotoState V)) (p : PhotoState V) : Prop where
  placed : p.issue = none → p.placeId ≠ none
  unplaced : p.issue = some .unclearLocation → p.placeId = none
  original : p.issue = some .duplicated → originalKept photos p = true

theorem finalizable_of_photoFields (h : photoFields N photos variances p = .ok f) :
    Finalizable photos p ∧ f.tripAttachmentId = p.id := by
  simp only [photoFields, validatePhoto, except_bind_eq_ok, raiseIf_eq_ok] at h
  obtain ⟨_, ⟨_, -, _, -, _, -, _, hplace, -⟩, score, -, _, hdup, h⟩ := h
  cases h
  unfold validatePlace at hplace
  refine ⟨⟨fun hissue hnone => ?_, fun hissue => ?_, fun hissue => ?_⟩, rfl⟩
  · rw [hissue, hnone] at hplace
    simp at hplace
  · rw [hissue] at hplace
    simpa using hplace
  · rw [hissue] at hdup
    simpa using hdup

theorem fieldsOf_id (h : fieldsOf fields p = .ok f) : f.tripAttachmentId = p.id := by
  unfold fieldsOf at h
  split at h
  · rename_i found hfound
    cases h
    simpa using List.find?_some hfound
  · cases h

theorem placeAttachment_id {a : PlaceAttachment} (h : placeAttachment fields p = .ok a) :
    a.tripAttachmentId = p.id := by
  simp only [placeAttachment, except_bind_eq_ok, contract_eq_ok] at h
  obtain ⟨f, hf, ha⟩ := h
  rw [← fieldsOf_id hf]
  unfold PhotoFields.placeAttachment? at ha
  split at ha
  · split at ha
    · cases ha
      rfl
    · cases ha
  · cases ha

/-- A place lists the photos kept in its folder, the representative among them. -/
theorem buildPlace_spec (h : buildPlace N fields group = .ok place) :
    place.placeId = group.1 ∧
      place.representativeAttachmentId ∈
        place.attachments.map PlaceAttachment.tripAttachmentId ∧
      ∀ id, id ∈ place.attachments.map PlaceAttachment.tripAttachmentId ↔
        ∃ p ∈ group.2, p.issue = none ∧ p.id = id := by
  simp only [buildPlace, except_bind_eq_ok, contract_eq_ok] at h
  obtain ⟨_, -, representative, -, point, -, attachments, hattachments, h⟩ := h
  unfold place? at h
  split at h
  · rename_i hmem
    cases h
    refine ⟨rfl, hmem, fun id => ?_⟩
    have hids := map_eq_of_forall₂ (f := PhotoState.id) (g := PlaceAttachment.tripAttachmentId)
      (mapM_eq_ok.mp hattachments) fun _ _ ha => placeAttachment_id ha
    dsimp only
    rw [hids, List.mem_map]
    simp only [List.mem_filter, mem_sortOn, Option.isNone_iff_eq_none, and_assoc]
  · cases h

theorem unclassifiedAttachment_spec {entry : Issue × PhotoState V} {u : UnclassifiedAttachment}
    (h : unclassifiedAttachment fields entry = .ok u) :
    u.tripAttachmentId = entry.2.id ∧ u.issue = entry.1 ∧ u.placeId = entry.2.placeId ∧
      u.duplicateOfAttachmentId = entry.2.duplicateOfAttachmentId := by
  simp only [unclassifiedAttachment, except_bind_eq_ok, contract_eq_ok] at h
  obtain ⟨f, hf, hu⟩ := h
  rw [← fieldsOf_id hf]
  unfold unclassifiedAttachment? at hu
  split at hu
  · cases hu
    exact ⟨rfl, rfl, rfl, rfl⟩
  · cases hu

theorem mem_withIssue {issue : Issue} :
    (issue, p) ∈ withIssue photos ↔ p ∈ photos ∧ p.issue = some issue := by
  rw [withIssue, List.mem_filterMap]
  constructor
  · rintro ⟨q, hq, h⟩
    obtain ⟨issue', hissue, heq⟩ := Option.map_eq_some_iff.mp h
    cases heq
    exact ⟨mem_byId.mp hq, hissue⟩
  · rintro ⟨hp, hissue⟩
    exact ⟨p, mem_byId.mpr hp, by rw [hissue]; rfl⟩

theorem mem_placeGroups (h : group ∈ placeGroups photos) :
    p ∈ group.2 ↔ p ∈ photos ∧ p.placeId = some group.1 := by
  rw [placeGroups, mem_sortOn] at h
  obtain ⟨g, hg, rfl⟩ := List.mem_map.mp h
  dsimp only
  rw [List.mem_map]
  constructor
  · rintro ⟨⟨place, q⟩, hq, rfl⟩
    obtain ⟨hplaced, rfl⟩ := (mem_of_mem_groupOn hg).mp hq
    obtain ⟨r, hr, hplace⟩ := List.mem_filterMap.mp hplaced
    obtain ⟨_, hplace, heq⟩ := Option.map_eq_some_iff.mp hplace
    cases heq
    exact ⟨hr, hplace⟩
  · rintro ⟨hp, hplace⟩
    refine ⟨(g.1, p), (mem_of_mem_groupOn hg).mpr ⟨?_, rfl⟩, rfl⟩
    exact List.mem_filterMap.mpr ⟨p, hp, by rw [hplace]; rfl⟩

theorem exists_placeGroup {placeId : String} (hp : p ∈ photos) (hplace : p.placeId = some placeId) :
    ∃ group ∈ placeGroups photos, group.1 = placeId := by
  have hmem : (placeId, p) ∈ photos.filterMap fun p => p.placeId.map fun place => (place, p) :=
    List.mem_filterMap.mpr ⟨p, hp, by rw [hplace]; rfl⟩
  obtain ⟨g, hg, hkey, -⟩ := @exists_group _ _ _ Prod.fst _ _ hmem
  refine ⟨(g.1, g.2.map Prod.snd), mem_sortOn.mpr (List.mem_map_of_mem hg), hkey⟩

/-- The original that the checks found. -/
theorem originalKept_iff : originalKept photos p = true ↔
    ∃ id original, p.duplicateOfAttachmentId = some id ∧ current photos id = some original ∧
      original.issue = keptIssue p.placeId ∧ original.placeId = p.placeId := by
  unfold originalKept
  rw [Option.any_eq_true]
  simp only [Option.bind_eq_some_iff, Bool.and_eq_true, decide_eq_true_eq]
  constructor
  · rintro ⟨original, ⟨id, hid, hcurrent⟩, hissue, hplace⟩
    exact ⟨id, original, hid, hcurrent, hissue, hplace⟩
  · rintro ⟨id, original, hid, hcurrent, hissue, hplace⟩
    exact ⟨original, ⟨id, hid, hcurrent⟩, hissue, hplace⟩

/-- The parts of a result, each from the photos it is built of. -/
structure Finalized (N : Numerics V) (photos : List (PhotoState V)) (fields : List PhotoFields)
    (result : ProcessResult) : Prop where
  nodup : (photos.map PhotoState.id).Nodup
  finalizable : ∀ p ∈ photos, Finalizable photos p
  places : List.Forall₂ (fun group place => buildPlace N fields group = .ok place)
    (placeGroups photos) result.places
  unclassified : List.Forall₂ (fun entry u => unclassifiedAttachment fields entry = .ok u)
    (withIssue photos) result.unclassified
  failed : result.failed = []
  ids : result.ids.Nodup

theorem finalized_of_ok (h : finalizePhotos N photos variances clockOffsets = .ok result) :
    ∃ fields, Finalized N photos fields result := by
  simp only [finalizePhotos, except_bind_eq_ok, raiseIf_eq_ok, contract_eq_ok] at h
  obtain ⟨_, hnodup, fields, hfields, places, hplaces, unclassified, hunclassified, h⟩ := h
  unfold processResult? at h
  split at h
  · rename_i hids
    cases h
    refine ⟨fields, by simpa using hnodup, fun p hp => ?_, mapM_eq_ok.mp hplaces,
      mapM_eq_ok.mp hunclassified, rfl, hids⟩
    obtain ⟨f, -, hf⟩ := exists_right_of_forall₂ (mapM_eq_ok.mp hfields) hp
    exact (finalizable_of_photoFields hf).1
  · cases h

namespace Finalized

variable (h : Finalized N photos fields result)
include h

/-- The place of a folder. -/
theorem exists_place {placeId : String} (hp : p ∈ photos) (hplace : p.placeId = some placeId) :
    ∃ place ∈ result.places, place.placeId = placeId ∧ ∀ q ∈ photos, q.placeId = some placeId →
      q.issue = none → q.id ∈ place.attachments.map PlaceAttachment.tripAttachmentId := by
  obtain ⟨group, hgroup, rfl⟩ := exists_placeGroup hp hplace
  obtain ⟨place, hmem, hbuilt⟩ := exists_right_of_forall₂ h.places hgroup
  obtain ⟨hid, -, hattachments⟩ := buildPlace_spec hbuilt
  refine ⟨place, hmem, hid, fun q hq hqplace hissue => (hattachments _).mpr ⟨q, ?_, hissue, rfl⟩⟩
  exact (mem_placeGroups hgroup).mpr ⟨hq, hqplace⟩

theorem exists_unclassified {issue : Issue} (hp : p ∈ photos) (hissue : p.issue = some issue) :
    ∃ u ∈ result.unclassified, u.tripAttachmentId = p.id ∧ u.issue = issue := by
  obtain ⟨u, hu, hbuilt⟩ := exists_right_of_forall₂ h.unclassified (mem_withIssue.mpr ⟨hp, hissue⟩)
  obtain ⟨hid, heq, -, -⟩ := unclassifiedAttachment_spec hbuilt
  exact ⟨u, hu, hid, heq⟩

/-- The photo of an unclassified entry. -/
theorem photo_of_unclassified {u : UnclassifiedAttachment} (hu : u ∈ result.unclassified) :
    ∃ p ∈ photos, u.tripAttachmentId = p.id ∧ p.issue = some u.issue ∧ u.placeId = p.placeId ∧
      u.duplicateOfAttachmentId = p.duplicateOfAttachmentId := by
  obtain ⟨⟨issue, p⟩, hentry, hbuilt⟩ := exists_left_of_forall₂ h.unclassified hu
  obtain ⟨hid, heq, hplace, hdup⟩ := unclassifiedAttachment_spec hbuilt
  obtain ⟨hp, hissue⟩ := mem_withIssue.mp hentry
  exact ⟨p, hp, hid, by rw [hissue, heq], hplace, hdup⟩

/-- Every photo is listed, and nothing else. -/
theorem mem_ids {id : Int} : id ∈ result.ids ↔ id ∈ photos.map PhotoState.id := by
  rw [ProcessResult.ids, h.failed, List.append_nil, List.mem_append, List.mem_flatMap,
    List.mem_map, List.mem_map]
  constructor
  · rintro (⟨place, hplace, hid⟩ | ⟨u, hu, rfl⟩)
    · obtain ⟨group, hgroup, hbuilt⟩ := exists_left_of_forall₂ h.places hplace
      obtain ⟨p, hp, -, rfl⟩ := ((buildPlace_spec hbuilt).2.2 id).mp hid
      exact ⟨p, ((mem_placeGroups hgroup).mp hp).1, rfl⟩
    · obtain ⟨p, hp, hid, -⟩ := h.photo_of_unclassified hu
      exact ⟨p, hp, hid.symm⟩
  · rintro ⟨p, hp, rfl⟩
    cases hissue : p.issue with
    | none =>
        obtain ⟨placeId, hplace⟩ :=
          Option.ne_none_iff_exists'.mp ((h.finalizable p hp).placed hissue)
        obtain ⟨place, hmem, -, hattachments⟩ := h.exists_place hp hplace
        exact .inl ⟨place, hmem, hattachments p hp hplace hissue⟩
    | some issue =>
        obtain ⟨u, hu, hid, -⟩ := h.exists_unclassified hp hissue
        exact .inr ⟨u, hu, hid⟩

/-- **A result lists each photo once and refers to nothing outside it.** -/
theorem conserves : Conserves (photos.map PhotoState.id) result := by
  refine ⟨(List.perm_ext_iff_of_nodup h.ids h.nodup).mpr fun id => h.mem_ids, h.failed, ?_, ?_, ?_⟩
  · intro place hplace
    obtain ⟨group, -, hbuilt⟩ := exists_left_of_forall₂ h.places hplace
    obtain ⟨-, hmem, -⟩ := buildPlace_spec hbuilt
    refine ⟨fun hnil => ?_, hmem⟩
    rw [hnil] at hmem
    cases hmem
  · intro u hu placeId hplaceId
    obtain ⟨p, hp, -, -, hplace, -⟩ := h.photo_of_unclassified hu
    obtain ⟨place, hmem, hid, -⟩ := h.exists_place hp (hplace ▸ hplaceId)
    exact ⟨place, hmem, hid⟩
  · intro u hu hdup
    obtain ⟨p, hp, -, hissue, hplace, hduplicate⟩ := h.photo_of_unclassified hu
    rw [hdup] at hissue
    obtain ⟨id, original, hid, hcurrent, hkept, hsame⟩ :=
      originalKept_iff.mp ((h.finalizable p hp).original hissue)
    obtain ⟨hmem, rfl⟩ := current_mem hcurrent
    refine ⟨original.id, hduplicate.trans hid, fun placeId hplaceId => ?_, fun hnone => ?_⟩
    · rw [hplace] at hplaceId
      rw [hplaceId] at hkept hsame
      obtain ⟨place, hpmem, hpid, hattachments⟩ := h.exists_place hp hplaceId
      exact ⟨place, hpmem, hpid, hattachments original hmem hsame hkept⟩
    · rw [hplace] at hnone
      rw [hnone] at hkept
      exact h.exists_unclassified hmem hkept

end Finalized

theorem finalizePhotos_conserves (h : finalizePhotos N photos variances clockOffsets = .ok result) :
    Conserves (photos.map PhotoState.id) result := by
  obtain ⟨fields, hfinalized⟩ := finalized_of_ok h
  exact hfinalized.conserves

end Yeodam.Pipeline
