/-
LOCATING (`app/pipeline/steps/locating.py`): photos outside the period are set aside, and of
the others those without GPS take the coordinates of the GPS photo they resemble most.

`Located` lists what the step can do to a photo, `locatePhotos_located` says that it does
nothing else, and `locatePhotos_succeeds` when it raises no error.
-/

import Mathlib.Data.List.MinMax
import Yeodam.Pipeline.State

namespace Yeodam.Pipeline

open Yeodam.Lib Yeodam.Schemas

variable {V : Type} (N : Numerics V)

/-- The checks of CLOCK's verdict. -/
def checkJudged (p : PhotoState V) : Except Raised Unit :=
  match p.timeStatus with
  | .pending => fail "LOCATING 전에 CLOCK 판정이 필요함"
  | .unknown => raiseIf p.takenAt.isSome "UNKNOWN 시각은 None이어야 함"
  | .original | .corrected =>
      raiseIf p.takenAt.isNone "확정 시각에는 시간대가 있는 taken_at이 필요함"

/-- What the first loop makes of a photo. -/
inductive LocationRole where
  /-- It has an issue already. -/
  | settled
  | outside
  | anchor
  | target
deriving DecidableEq

def locationRole (period : Period) (p : PhotoState V) : Except Raised LocationRole :=
  if p.issue.isSome then .ok .settled
  else do
    let inside ← inPeriod N period p
    if !inside then return .outside
    else if p.source.hasGps then return .anchor
    else return .target

def applyRole (p : PhotoState V) : LocationRole → PhotoState V
  | .settled => p
  | .outside => { p with issue := some .unclearLocation }
  | .anchor =>
      { p with
        latitude := p.source.latitude, longitude := p.source.longitude, regionOrigin := .exif }
  | .target => { p with latitude := none, longitude := none, regionOrigin := .unknown }

/-- The coordinates of the anchor the photo resembles most, if it resembles it enough. -/
def inheritLocation (anchors : List (PhotoState V)) (minSim : ℚ) (p : PhotoState V) :
    PhotoState V :=
  match anchors.argmax fun a => clip (similarity N a p) with
  | none => p
  | some best =>
      if clip (similarity N best p) < minSim then { p with issue := some .unclearLocation }
      else
        { p with
          latitude := best.source.latitude
          longitude := best.source.longitude
          regionOrigin := .inferred }

/-- The photos of one role, as the first loop leaves them. -/
def withRole (role : LocationRole) (roled : List (LocationRole × PhotoState V)) :
    List (PhotoState V) :=
  (roled.filter fun r => r.1 = role).map Prod.snd

/-- Write to the targets. -/
def updateTargets (f : PhotoState V → PhotoState V) (roled : List (LocationRole × PhotoState V)) :
    List (PhotoState V) :=
  roled.map fun r => if r.1 = .target then f r.2 else r.2

/-- `locate_photos`. -/
def locatePhotos (photos : List (PhotoState V)) (period : Period) (inheritMinSim : Threshold) :
    Except Raised (List (PhotoState V)) := do
  let minSim ← bounded N (fun q => -1 ≤ q && q ≤ 1)
    "inherit_min_sim은 -1 이상 1 이하의 유한값이어야 함" inheritMinSim
  raiseIf (period.endDate < period.startDate) "여행 시작일은 종료일보다 늦을 수 없음"
  photos.forM checkJudged
  let roled ← photos.mapM fun p => do
    let role ← locationRole N period p
    return (role, applyRole p role)
  let anchors := byId (withRole .anchor roled)
  let targets := withRole .target roled
  if targets.isEmpty then return roled.map Prod.snd
  else if anchors.isEmpty then
    return updateTargets (fun p => { p with issue := some .unclearLocation }) roled
  else
    let vs ← (anchors ++ targets).mapM fun p =>
      unitVector N ("사진 " ++ toString p.id ++ "의 단위 임베딩이 필요함") p
    raiseIf (!oneDimension N vs) "위치 상속에 사용하는 임베딩의 차원이 다름"
    return updateTargets (inheritLocation N anchors minSim) roled

/-! ### What the step does to a photo -/

/-- `q` is what LOCATING makes of the photo `p`, one of `photos`. -/
inductive Located (N : Numerics V) (period : Period) (photos : List (PhotoState V)) :
    PhotoState V → PhotoState V → Prop where
  | settled {p : PhotoState V} (hissue : p.issue.isSome = true) : Located N period photos p p
  | outside {p : PhotoState V} (hissue : p.issue = none) (hout : inPeriod N period p = .ok false) :
      Located N period photos p { p with issue := some .unclearLocation }
  | anchor {p : PhotoState V} (hissue : p.issue = none) (hin : inPeriod N period p = .ok true)
      (hgps : p.source.hasGps = true) :
      Located N period photos p
        { p with
          latitude := p.source.latitude
          longitude := p.source.longitude
          regionOrigin := .exif }
  | unclear {p : PhotoState V} (hissue : p.issue = none) (hin : inPeriod N period p = .ok true)
      (hgps : p.source.hasGps = false) :
      Located N period photos p
        { p with
          latitude := none
          longitude := none
          regionOrigin := .unknown
          issue := some .unclearLocation }
  /-- The coordinates of the anchor `a`. -/
  | inherited {p a : PhotoState V} (hissue : p.issue = none)
      (hin : inPeriod N period p = .ok true) (hgps : p.source.hasGps = false) (ha : a ∈ photos)
      (haissue : a.issue = none) (hain : inPeriod N period a = .ok true)
      (hagps : a.source.hasGps = true) :
      Located N period photos p
        { p with
          latitude := a.source.latitude
          longitude := a.source.longitude
          regionOrigin := .inferred }

variable {N} {period : Period} {photos photos' : List (PhotoState V)} {p q : PhotoState V}
  {role : LocationRole} {inheritMinSim : Threshold}

theorem Located.source (h : Located N period photos p q) : q.source = p.source := by
  cases h <;> rfl

/-- The role of a photo without an issue. -/
theorem locationRole_of_free (hissue : p.issue = none) (h : locationRole N period p = .ok role) :
    ∃ inside, inPeriod N period p = .ok inside ∧
      role = if !inside then .outside else if p.source.hasGps then .anchor else .target := by
  rw [locationRole, hissue] at h
  simp only [Option.isSome_none, Bool.false_eq_true, if_false, except_bind_eq_ok] at h
  obtain ⟨inside, hinside, h⟩ := h
  refine ⟨inside, hinside, ?_⟩
  cases inside
  · cases h
    rfl
  · cases hgps : p.source.hasGps
    · rw [hgps] at h
      cases h
      rfl
    · rw [hgps] at h
      cases h
      rfl

/-- Anchors and targets are inside the period, and GPS tells them apart. -/
theorem locationRole_inside (h : locationRole N period p = .ok role)
    (hrole : role = .anchor ∨ role = .target) :
    p.issue = none ∧ inPeriod N period p = .ok true ∧
      p.source.hasGps = decide (role = .anchor) := by
  cases hissue : p.issue with
  | some issue =>
      rw [locationRole, hissue] at h
      cases h
      rcases hrole with h | h <;> cases h
  | none =>
      obtain ⟨inside, hinside, rfl⟩ := locationRole_of_free hissue h
      cases inside
      · rcases hrole with h | h <;> cases h
      · cases hgps : p.source.hasGps
        · exact ⟨rfl, hinside, rfl⟩
        · exact ⟨rfl, hinside, rfl⟩

/-- The first loop settles every photo that is not a target. -/
theorem located_of_role (h : locationRole N period p = .ok role) (hrole : role ≠ .target) :
    Located N period photos p (applyRole p role) := by
  cases hissue : p.issue with
  | some issue =>
      rw [locationRole, hissue] at h
      cases h
      exact .settled (by rw [hissue]; rfl)
  | none =>
      obtain ⟨inside, hinside, rfl⟩ := locationRole_of_free hissue h
      cases inside
      · exact .outside hissue hinside
      · cases hgps : p.source.hasGps
        · rw [hgps] at hrole
          exact absurd rfl hrole
        · exact .anchor hissue hinside hgps

/-- A photo beside its role. -/
def Roled (N : Numerics V) (period : Period) (p : PhotoState V) (r : LocationRole × PhotoState V) :
    Prop :=
  locationRole N period p = .ok r.1 ∧ r.2 = applyRole p r.1

/-- The first loop, as a relation. -/
theorem roled_of_mapM {roled : List (LocationRole × PhotoState V)}
    (h : (photos.mapM fun p => do
      let role ← locationRole N period p
      return (role, applyRole p role)) = .ok roled) :
    List.Forall₂ (Roled N period) photos roled := by
  refine (mapM_eq_ok.mp h).imp fun p r hr => ?_
  obtain ⟨role, hrole, hr⟩ := except_bind_eq_ok.mp hr
  cases hr
  exact ⟨hrole, rfl⟩

/-- The last loops settle the targets. -/
theorem located_updateTargets {roled : List (LocationRole × PhotoState V)}
    {f : PhotoState V → PhotoState V} (hroled : List.Forall₂ (Roled N period) photos roled)
    (hf : ∀ p ∈ photos, locationRole N period p = .ok .target →
      Located N period photos p (f (applyRole p .target))) :
    List.Forall₂ (Located N period photos) photos (updateTargets f roled) := by
  have hmem : ∀ p ∈ photos, p ∈ photos := fun _ hp => hp
  rw [updateTargets, List.forall₂_map_right_iff]
  refine ((List.forall₂_and_left _ _).mpr ⟨hmem, hroled⟩).imp ?_
  rintro p r ⟨hp, hrole, hphoto⟩
  rw [hphoto]
  split
  · rename_i heq
    rw [heq] at hrole ⊢
    exact hf p hp hrole
  · rename_i hne
    exact located_of_role hrole hne

theorem mem_withRole {roled : List (LocationRole × PhotoState V)}
    (hroled : List.Forall₂ (Roled N period) photos roled) (h : q ∈ withRole role roled) :
    ∃ p ∈ photos, locationRole N period p = .ok role ∧ q = applyRole p role := by
  obtain ⟨r, hr, rfl⟩ := List.mem_map.mp h
  obtain ⟨hr, hrole⟩ := List.mem_filter.mp hr
  rw [decide_eq_true_eq] at hrole
  obtain ⟨p, hp, hlocated, hphoto⟩ := exists_left_of_forall₂ hroled hr
  rw [hrole] at hlocated hphoto
  exact ⟨p, hp, hlocated, hphoto⟩

theorem located_inheritLocation {anchors : List (PhotoState V)} {minSim : ℚ}
    (hp : locationRole N period p = .ok .target)
    (hanchors : ∀ q ∈ anchors, ∃ a ∈ photos, locationRole N period a = .ok .anchor ∧
      q = applyRole a .anchor) (hne : anchors ≠ []) :
    Located N period photos p (inheritLocation N anchors minSim (applyRole p .target)) := by
  obtain ⟨hissue, hin, hgps⟩ := locationRole_inside hp (.inr rfl)
  unfold inheritLocation
  split
  · rename_i hnone
    exact absurd (List.argmax_eq_none.mp hnone) hne
  · rename_i best hbest
    obtain ⟨a, ha, harole, rfl⟩ := hanchors best (List.argmax_mem hbest)
    obtain ⟨haissue, hain, hagps⟩ := locationRole_inside harole (.inl rfl)
    split
    · exact .unclear hissue hin hgps
    · exact .inherited (a := a) hissue hin hgps ha haissue hain hagps

/-- **LOCATING sets aside, anchors or locates a photo, and changes nothing else of it.** -/
theorem locatePhotos_located (h : locatePhotos N photos period inheritMinSim = .ok photos') :
    List.Forall₂ (Located N period photos) photos photos' := by
  rw [locatePhotos, except_bind_eq_ok] at h
  obtain ⟨minSim, -, h⟩ := h
  simp only [except_bind_eq_ok] at h
  obtain ⟨_, -, _, -, roled, hroled, h⟩ := h
  have hroled := roled_of_mapM hroled
  split at h
  · -- No target: every photo is as the first loop left it.
    rename_i htargets
    rw [List.isEmpty_iff] at htargets
    cases h
    have hnone : ∀ p ∈ photos, locationRole N period p ≠ .ok .target := by
      intro p hp hrole
      obtain ⟨r, hr, hlocated, -⟩ := exists_right_of_forall₂ hroled hp
      rw [hrole, Except.ok.injEq] at hlocated
      have hmem : r.2 ∈ withRole .target roled :=
        List.mem_map.mpr ⟨r, List.mem_filter.mpr ⟨hr, decide_eq_true hlocated.symm⟩, rfl⟩
      rw [htargets] at hmem
      cases hmem
    rw [List.forall₂_map_right_iff]
    refine ((List.forall₂_and_left _ _).mpr ⟨hnone, hroled⟩).imp ?_
    rintro p r ⟨hp, hrole, hphoto⟩
    rw [hphoto]
    exact located_of_role hrole fun heq => hp (heq ▸ hrole)
  split at h
  · cases h
    apply located_updateTargets hroled
    intro p hp hrole
    obtain ⟨hissue, hin, hgps⟩ := locationRole_inside hrole (.inr rfl)
    exact .unclear hissue hin hgps
  · rename_i hanchors
    simp only [except_bind_eq_ok] at h
    obtain ⟨_, -, _, -, h⟩ := h
    cases h
    apply located_updateTargets hroled
    intro p hp hrole
    refine located_inheritLocation hrole (fun q hq => ?_) (by simpa using hanchors)
    exact mem_withRole hroled (mem_byId.mp hq)

/-! ### When the step raises nothing -/

theorem checkJudged_succeeds (hjudged : p.timeStatus ≠ .pending)
    (hunknown : p.timeStatus = .unknown ↔ p.takenAt = none) : checkJudged p = .ok () := by
  have hknown : p.timeStatus ≠ .unknown → p.takenAt.isNone = false := by
    intro hstatus
    cases htime : p.takenAt with
    | none => exact absurd (hunknown.mpr htime) hstatus
    | some t => rfl
  unfold checkJudged
  cases hstatus : p.timeStatus with
  | pending => exact absurd hstatus hjudged
  | unknown =>
      have htime := hunknown.mp hstatus
      simp [htime]
  | original =>
      rw [hstatus] at hknown
      exact raiseIf_eq_ok.mpr (hknown nofun)
  | corrected =>
      rw [hstatus] at hknown
      exact raiseIf_eq_ok.mpr (hknown nofun)

theorem locationRole_succeeds (period : Period) (hzone : ∀ utc, |N.seoulOffset utc| < secondsPerDay)
    (haway : TimesAway photos) (hp : p ∈ photos) : ∃ role, locationRole N period p = .ok role := by
  obtain ⟨inside, hinside⟩ := inPeriod_succeeds period hzone haway hp
  unfold locationRole
  split
  · exact ⟨_, rfl⟩
  · cases inside
    · exact ⟨.outside, except_bind_eq_ok.mpr ⟨false, hinside, rfl⟩⟩
    · cases hgps : p.source.hasGps
      · exact ⟨.target, except_bind_eq_ok.mpr ⟨true, hinside, rfl⟩⟩
      · exact ⟨.anchor, except_bind_eq_ok.mpr ⟨true, hinside, rfl⟩⟩

/-- No role touches the embedding. -/
theorem embedded_applyRole {d : Nat} (h : p.Embedded N d) : (applyRole p role).Embedded N d := by
  cases role <;> exact h

/-- **LOCATING raises nothing** on judged photos with embeddings of one dimension and times away
from the ends. -/
theorem locatePhotos_succeeds {d : Nat} {minSim : ℚ}
    (hsim : inheritMinSim.finite? N = some minSim) (hbounds : -1 ≤ minSim ∧ minSim ≤ 1)
    (hperiod : period.startDate ≤ period.endDate)
    (hzone : ∀ utc, |N.seoulOffset utc| < secondsPerDay)
    (hjudged : ∀ p ∈ photos, p.timeStatus ≠ .pending ∧
      (p.timeStatus = .unknown ↔ p.takenAt = none))
    (haway : TimesAway photos) (hembedded : ∀ p ∈ photos, p.Embedded N d) :
    ∃ photos', locatePhotos N photos period inheritMinSim = .ok photos' := by
  refine bind_succeeds (bounded_eq_ok.mpr ⟨hsim, by simpa using hbounds⟩) ?_
  apply raiseIf_succeeds (by simpa using hperiod)
  refine bind_succeeds (a := ()) (forM_eq_ok.mpr fun p hp => ?_) ?_
  · exact checkJudged_succeeds (hjudged p hp).1 (hjudged p hp).2
  have hroles : ∀ p ∈ photos, ∃ r, (do
      let role ← locationRole N period p
      return (role, applyRole p role)) = Except.ok (ε := Raised) r := by
    intro p hp
    obtain ⟨role, hrole⟩ := locationRole_succeeds period hzone haway hp
    exact bind_succeeds hrole ⟨_, rfl⟩
  obtain ⟨roled, hroled⟩ := mapM_succeeds hroles
  apply bind_succeeds hroled
  have hvectors : ∀ q ∈ byId (withRole .anchor roled) ++ withRole .target roled,
      q.Embedded N d := by
    have hrole : ∀ {role q}, q ∈ withRole role roled → q.Embedded N d := by
      intro role q hq
      obtain ⟨p, hp, -, rfl⟩ := mem_withRole (roled_of_mapM hroled) hq
      exact embedded_applyRole (hembedded p hp)
    intro q hq
    rcases List.mem_append.mp hq with hq | hq
    · exact hrole (mem_byId.mp hq)
    · exact hrole hq
  dsimp only
  split
  · exact ⟨_, rfl⟩
  split
  · exact ⟨_, rfl⟩
  · obtain ⟨vs, hvs, hdim⟩ := unitVectors_succeed
      (fun p => "사진 " ++ toString p.id ++ "의 단위 임베딩이 필요함") hvectors
    refine bind_succeeds hvs (raiseIf_succeeds ?_ ⟨_, rfl⟩)
    rw [hdim]
    rfl

end Yeodam.Pipeline
