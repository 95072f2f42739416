/-
CLUSTERING (`app/pipeline/steps/clustering.py`): located photos are grouped into folders by
DBSCAN over the sphere, and the noise it leaves is set aside.

Folders are named `p1`, `p2`, … in the order their first photo appears, by photo id.
`clusterPhotos_eq` gives the step as a function of each photo, and `clusterFolder_congr` says
that photos at one point share their fate.
-/

import Yeodam.Pipeline.State

namespace Yeodam.Pipeline

open Yeodam.Lib Yeodam.Schemas

variable {V : Type} (N : Numerics V)

/-- `EARTH_RADIUS_M`. -/
def earthRadiusM : ℚ := 6371000

/-- Photos not set aside, by id. -/
def clusterCandidates (photos : List (PhotoState V)) : List (PhotoState V) :=
  byId (photos.filter fun p => p.issue.isNone)

/-- The coordinates of a candidate. -/
def candidatePoint (p : PhotoState V) : Except Raised (PyFloat × PyFloat) :=
  match p.point? with
  | some point =>
      if p.regionOrigin = .unknown then fail "CLUSTERING 전에 좌표와 출처가 확보되어야 함"
        else .ok point
  | none => fail "CLUSTERING 전에 좌표와 출처가 확보되어야 함"

/-- `p{n}`, where the label is the `n`th to appear among the labels that are not noise. -/
def placeName (labels : List Int) (label : Int) : String :=
  "p" ++ toString ((labels.filter fun l => l ≠ -1).eraseDups.idxOf label + 1)

/-- The folder of a candidate, none for noise. -/
def clusterFolder (labelOf : Nat → Int) (candidates : List (PhotoState V)) (p : PhotoState V) :
    Option String :=
  let label := labelOf (candidates.findIdx fun c => c.id = p.id)
  if label = -1 then none
  else some (placeName ((List.range candidates.length).map labelOf) label)

/-- Put a candidate into its folder, or set it aside. -/
def settle (p : PhotoState V) : Option String → PhotoState V
  | none => { p with placeId := none, issue := some .unclearLocation }
  | some place => { p with placeId := some place }

/-- `cluster_photos`. -/
def clusterPhotos (photos : List (PhotoState V)) (dbscanEpsM minSamples : Threshold) :
    Except Raised (List (PhotoState V)) := do
  let eps ← bounded N (fun q => 0 < q) "dbscan_eps_m은 양의 유한값이어야 함" dbscanEpsM
  let minSamples ← integer (fun n => 1 ≤ n) "min_samples는 1 이상의 정수여야 함" minSamples
  let candidates := clusterCandidates photos
  if candidates.isEmpty then return photos
  else
    let points ← candidates.mapM candidatePoint
    raiseIf (!points.all (validPoint N)) "유효한 위도와 경도가 필요함"
    let labelOf := N.dbscan (eps / earthRadiusM) minSamples points
    return photos.map fun p =>
      if p.issue.isNone then settle p (clusterFolder labelOf candidates p) else p

/-! ### What the step does to a photo -/

/-- DBSCAN gives rows that are equal one label. -/
def Numerics.SameLabels (N : Numerics V) : Prop :=
  ∀ eps minSamples points i j, i < points.length → points[i]? = points[j]? →
    N.dbscan eps minSamples points i = N.dbscan eps minSamples points j

variable {N} {photos photos' : List (PhotoState V)} {p q : PhotoState V}
  {dbscanEpsM minSamples : Threshold}

theorem candidatePoint_eq_ok {point : PyFloat × PyFloat} :
    candidatePoint p = .ok point ↔ p.point? = some point ∧ p.regionOrigin ≠ .unknown := by
  unfold candidatePoint
  cases p.point? with
  | none => simp
  | some point' =>
      dsimp only
      split
      · rename_i hunknown
        simp [hunknown]
      · rename_i hknown
        rw [Except.ok.injEq, Option.some.injEq]
        exact ⟨fun h => ⟨h, hknown⟩, fun h => h.1⟩

theorem mem_clusterCandidates : p ∈ clusterCandidates photos ↔ p ∈ photos ∧ p.issue = none := by
  rw [clusterCandidates, mem_byId, List.mem_filter, Option.isNone_iff_eq_none]

/-- The folders that DBSCAN assigns to the candidates among `photos`. -/
structure Clustering (N : Numerics V) (photos : List (PhotoState V)) where
  points : List (PyFloat × PyFloat)
  labelOf : Nat → Int
  points_eq : List.Forall₂ (fun p point => candidatePoint p = .ok point)
    (clusterCandidates photos) points
  valid : ∀ point ∈ points, validPoint N point = true
  sameLabels : N.SameLabels → ∀ i j, i < points.length → points[i]? = points[j]? →
    labelOf i = labelOf j

def Clustering.folder (c : Clustering N photos) (p : PhotoState V) : Option String :=
  clusterFolder c.labelOf (clusterCandidates photos) p

/-- **The step, photo by photo.** -/
theorem clusterPhotos_eq (h : clusterPhotos N photos dbscanEpsM minSamples = .ok photos') :
    (∀ p ∈ photos, p.issue ≠ none) ∧ photos' = photos ∨
      ∃ c : Clustering N photos, photos' = photos.map fun p =>
        if p.issue.isNone then settle p (c.folder p) else p := by
  simp only [clusterPhotos, except_bind_eq_ok] at h
  obtain ⟨eps, -, minPoints, -, h⟩ := h
  split at h
  · rename_i hnone
    cases h
    refine .inl ⟨fun p hp hissue => ?_, rfl⟩
    rw [List.isEmpty_iff] at hnone
    have hmem := mem_clusterCandidates.mpr ⟨hp, hissue⟩
    rw [hnone] at hmem
    cases hmem
  · simp only [except_bind_eq_ok] at h
    obtain ⟨points, hpoints, _, hvalid, h⟩ := h
    cases h
    rw [raiseIf_eq_ok, Bool.not_eq_false', List.all_eq_true] at hvalid
    exact .inr ⟨⟨points, N.dbscan (eps / earthRadiusM) minPoints points, mapM_eq_ok.mp hpoints,
      hvalid, fun hsame => hsame _ _ _⟩, rfl⟩

namespace Clustering

variable (c : Clustering N photos)
include c

/-- A candidate has coordinates in range and an origin. -/
theorem point_of_candidate (hp : p ∈ photos) (hissue : p.issue = none) :
    ∃ point, p.point? = some point ∧ validPoint N point = true ∧ p.regionOrigin ≠ .unknown := by
  obtain ⟨point, hpoint, heq⟩ :=
    exists_right_of_forall₂ c.points_eq (mem_clusterCandidates.mpr ⟨hp, hissue⟩)
  obtain ⟨hcoords, horigin⟩ := candidatePoint_eq_ok.mp heq
  exact ⟨point, hcoords, c.valid point hpoint, horigin⟩

/-- The row of a candidate among the points DBSCAN gets. -/
theorem row_of_candidate (hnodup : (photos.map PhotoState.id).Nodup) (hp : p ∈ photos)
    (hissue : p.issue = none) :
    c.points[(clusterCandidates photos).findIdx fun q => q.id = p.id]? = p.point? := by
  have hmem := mem_clusterCandidates.mpr ⟨hp, hissue⟩
  have hids : ((clusterCandidates photos).map PhotoState.id).Nodup :=
    nodup_ids_byId (hnodup.sublist (List.filter_sublist.map _))
  obtain ⟨hlt, hget⟩ := List.getElem?_eq_some_iff.mp (getElem?_findIdx hids hmem)
  have hlt' := hlt
  rw [c.points_eq.length_eq] at hlt'
  have hrow := (List.forall₂_iff_get.mp c.points_eq).2 _ hlt hlt'
  rw [List.get_eq_getElem, hget] at hrow
  rw [List.getElem?_eq_getElem hlt', (candidatePoint_eq_ok.mp hrow).1, List.get_eq_getElem]

/-- **Candidates at one point are put into one folder, or are noise together.** -/
theorem folder_congr (hsame : N.SameLabels) (hnodup : (photos.map PhotoState.id).Nodup)
    (hp : p ∈ photos) (hpissue : p.issue = none) (hq : q ∈ photos) (hqissue : q.issue = none)
    (hpoint : p.point? = q.point?) : c.folder p = c.folder q := by
  have hprow := c.row_of_candidate hnodup hp hpissue
  have hqrow := c.row_of_candidate hnodup hq hqissue
  obtain ⟨point, hcoords, -, -⟩ := c.point_of_candidate hp hpissue
  have hlt : ((clusterCandidates photos).findIdx fun r => r.id = p.id) < c.points.length := by
    rw [hcoords] at hprow
    exact (List.getElem?_eq_some_iff.mp hprow).1
  have hlabel := c.sameLabels hsame _ _ hlt (hprow.trans (hpoint.trans hqrow.symm))
  unfold folder clusterFolder
  rw [hlabel]

/-- A folder has a name. -/
theorem folder_ne_empty {place : String} (h : c.folder p = some place) : place ≠ "" := by
  unfold folder clusterFolder at h
  dsimp only at h
  split at h
  · cases h
  · cases h
    unfold placeName
    simp

end Clustering

/-! ### When the step raises nothing -/

theorem clusterPhotos_succeeds {eps : ℚ} {n : Int} (heps : dbscanEpsM.finite? N = some eps)
    (hpos : 0 < eps) (hsamples : minSamples = .int n) (hn : 1 ≤ n)
    (hpoints : ∀ p ∈ photos, p.issue = none → ∃ point, p.point? = some point ∧
      validPoint N point = true ∧ p.regionOrigin ≠ .unknown) :
    ∃ photos', clusterPhotos N photos dbscanEpsM minSamples = .ok photos' := by
  refine bind_succeeds (bounded_eq_ok.mpr ⟨heps, by simpa using hpos⟩) ?_
  refine bind_succeeds (integer_eq_ok.mpr ⟨hsamples, by simpa using hn⟩) ?_
  have hcandidate : ∀ p ∈ clusterCandidates photos, ∃ point, candidatePoint p = .ok point := by
    intro p hp
    obtain ⟨hp, hissue⟩ := mem_clusterCandidates.mp hp
    obtain ⟨point, hpoint, -, horigin⟩ := hpoints p hp hissue
    exact ⟨point, candidatePoint_eq_ok.mpr ⟨hpoint, horigin⟩⟩
  obtain ⟨points, hall⟩ := mapM_succeeds hcandidate
  dsimp only
  split
  · exact ⟨_, rfl⟩
  refine bind_succeeds hall (raiseIf_succeeds ?_ ⟨_, rfl⟩)
  rw [Bool.not_eq_false', List.all_eq_true]
  intro point hpoint
  obtain ⟨p, hp, heq⟩ := exists_left_of_forall₂ (mapM_eq_ok.mp hall) hpoint
  obtain ⟨hp, hissue⟩ := mem_clusterCandidates.mp hp
  obtain ⟨point', hpoint', hvalid, -⟩ := hpoints p hp hissue
  rw [(candidatePoint_eq_ok.mp heq).1, Option.some.injEq] at hpoint'
  exact hpoint' ▸ hvalid

end Yeodam.Pipeline
