/-
CLOCK, LOCATING and CLUSTERING one after the other: where the coordinates of a photo in a
folder come from.

Coordinates are first inherited from a similar photo, folders then come from DBSCAN, and more
photos are put into them by time and by similarity. `Folders` is what holds of the photos and
their folders from CLUSTERING on: each folder has a GPS photo, and a photo without GPS is at
the point of one in its own folder. DBSCAN makes it hold (`clustered_folders`), each placing
keeps it (`Placing.folders`), and so it holds after the rules (`rules_folders`).
-/

import Yeodam.Pipeline.Assigning
import Yeodam.Pipeline.Clock
import Yeodam.Pipeline.Clustering
import Yeodam.Pipeline.Locating

namespace Yeodam.Pipeline

open Yeodam.Lib Yeodam.Schemas

variable {V : Type} {N : Numerics V} {period : Period}
  {photos photos' timed located clustered : List (PhotoState V)} {p q : PhotoState V}
  {place : String}
  {targets : List Int}

/-! ### Photos of a request -/

/-- The photos of a request as EMBEDDING leaves them: only embeddings are filled in. -/
def OfRequest (request : ProcessRequest) (photos : List (PhotoState V)) : Prop :=
  photos.map (fun p => ({ p with embedding := none } : PhotoState V)) = buildPhotoStates request

/-- The origin says EXIF of the photos with GPS only, and these are at the point of their own
EXIF. -/
structure Sourced (p : PhotoState V) : Prop where
  gps : p.source.hasGps = true →
    p.regionOrigin = .exif ∧ p.latitude = p.source.latitude ∧ p.longitude = p.source.longitude
  noGps : p.source.hasGps = false → p.regionOrigin ≠ .exif

/-- No step after EMBEDDING has written to the photo. -/
structure Fresh (p : PhotoState V) : Prop where
  sourced : Sourced p
  noPlace : p.placeId = none
  noIssue : p.issue = none
  notDuplicate : p.duplicateOfAttachmentId = none
  unlocated : p.source.hasGps = false → p.latitude = none ∧ p.longitude = none

theorem fresh_buildPhotoState (a : ProcessAttachment) :
    Fresh (buildPhotoState a : PhotoState V) := by
  unfold buildPhotoState
  dsimp only
  split
  · rename_i hgps
    refine ⟨⟨fun _ => ⟨rfl, rfl, rfl⟩, fun hno => ?_⟩, rfl, rfl, rfl, fun hno => ?_⟩
    · exact absurd (hgps.symm.trans hno) nofun
    · exact absurd (hgps.symm.trans hno) nofun
  · rename_i hgps
    refine ⟨⟨fun h => absurd h hgps, fun _ => nofun⟩, rfl, rfl, rfl, fun _ => ⟨rfl, rfl⟩⟩

theorem OfRequest.fresh {request : ProcessRequest} (h : OfRequest request photos)
    (hp : p ∈ photos) :
    Fresh p := by
  have hmem : ({ p with embedding := none } : PhotoState V) ∈ buildPhotoStates request := by
    unfold OfRequest at h
    rw [← h]
    exact List.mem_map.mpr ⟨p, hp, rfl⟩
  obtain ⟨a, -, ha⟩ := List.mem_map.mp hmem
  have hfresh := fresh_buildPhotoState (V := V) a
  rw [ha] at hfresh
  exact ⟨⟨hfresh.sourced.gps, hfresh.sourced.noGps⟩, hfresh.noPlace, hfresh.noIssue,
    hfresh.notDuplicate, hfresh.unlocated⟩

theorem Timed.fresh (h : Timed p q) (hp : Fresh p) : Fresh q := by
  rw [h.same]
  exact ⟨⟨hp.sourced.gps, hp.sourced.noGps⟩, hp.noPlace, hp.noIssue, hp.notDuplicate, hp.unlocated⟩

/-! ### After LOCATING -/

/-- A photo LOCATING has gone through: one without an issue is in the period and at the point of
a GPS photo without an issue, itself if it has GPS. -/
structure LocatedIn (N : Numerics V) (period : Period) (located : List (PhotoState V))
    (q : PhotoState V) : Prop where
  sourced : Sourced q
  noPlace : q.placeId = none
  issue : q.issue = none ∨ q.issue = some .unclearLocation
  inside : q.issue = none → inPeriod N period q = .ok true
  origin : q.issue = none → ∃ a ∈ located, a.issue = none ∧ a.regionOrigin = .exif ∧
    a.latitude = q.latitude ∧ a.longitude = q.longitude

/-- The period looks at the time only. -/
theorem inPeriod_congr (h : q.takenAt = p.takenAt) : inPeriod N period q = inPeriod N period p := by
  unfold inPeriod
  rw [h]

theorem locatedIn (hfresh : ∀ p ∈ timed, Fresh p)
    (h : List.Forall₂ (Located N period timed) timed located) :
    ∀ q ∈ located, LocatedIn N period located q := by
  -- A GPS photo in the period is among the located ones, at its own point.
  have hanchor : ∀ a ∈ timed, inPeriod N period a = .ok true → a.source.hasGps = true →
      ∃ a' ∈ located, a'.issue = none ∧ a'.regionOrigin = .exif ∧
        a'.latitude = a.source.latitude ∧ a'.longitude = a.source.longitude := by
    intro a ha hin hgps
    obtain ⟨a', ha', hlocated⟩ := exists_right_of_forall₂ h ha
    refine ⟨a', ha', ?_⟩
    cases hlocated with
    | settled hissue => simp [(hfresh a ha).noIssue] at hissue
    | outside _ hout => cases hout.symm.trans hin
    | anchor hissue => exact ⟨hissue, rfl, rfl, rfl⟩
    | unclear _ _ hno => cases hno.symm.trans hgps
    | inherited _ _ hno => cases hno.symm.trans hgps
  intro q hq
  obtain ⟨p, hp, hlocated⟩ := exists_left_of_forall₂ h hq
  have hp' := hfresh p hp
  cases hlocated with
  | settled hissue => simp [hp'.noIssue] at hissue
  | outside _ hout =>
      exact ⟨⟨hp'.sourced.gps, hp'.sourced.noGps⟩, hp'.noPlace, .inr rfl, nofun, nofun⟩
  | anchor hissue hin hgps =>
      refine ⟨⟨fun _ => ⟨rfl, rfl, rfl⟩, fun hno => ?_⟩, hp'.noPlace, .inl hissue, fun _ => hin,
        fun _ => hanchor p hp hin hgps⟩
      cases hgps.symm.trans hno
  | unclear hissue hin hgps =>
      refine ⟨⟨fun h => ?_, fun _ => nofun⟩, hp'.noPlace, .inr rfl, nofun, nofun⟩
      cases hgps.symm.trans h
  | @inherited a hissue hin hgps ha haissue hain hagps =>
      refine ⟨⟨fun h => ?_, fun _ => nofun⟩, hp'.noPlace, .inl hissue, fun _ => hin,
        fun _ => hanchor a ha hain hagps⟩
      cases hgps.symm.trans h

/-! ### Folders -/

/-- Every folder has a GPS photo in the period, and a photo without GPS is in a folder at the
point of one of these. -/
structure Folders (N : Numerics V) (period : Period) (photos : List (PhotoState V)) : Prop where
  nodup : (photos.map PhotoState.id).Nodup
  sourced : ∀ p ∈ photos, Sourced p
  inside : ∀ p ∈ photos, ∀ place, p.folder? = some place → inPeriod N period p = .ok true
  origin : ∀ p ∈ photos, ∀ place, p.folder? = some place →
    ∃ a ∈ photos, a.folder? = some place ∧ a.regionOrigin = .exif ∧
      p.latitude = a.latitude ∧ p.longitude = a.longitude

theorem Folders.anchored (h : Folders N period photos) : Anchored photos := by
  refine ⟨h.nodup, fun p hp place hplace => ?_⟩
  obtain ⟨a, ha, haplace, horigin, -⟩ := h.origin p hp place hplace
  obtain ⟨haplace, hne⟩ := folder?_eq_some.mp haplace
  exact ⟨hne, a, ha, haplace, horigin⟩

/-- `q` is `p` at the same time and point, from the same source. -/
structure SameOrigin (p q : PhotoState V) : Prop where
  source : q.source = p.source
  takenAt : q.takenAt = p.takenAt
  origin : q.regionOrigin = p.regionOrigin
  latitude : q.latitude = p.latitude
  longitude : q.longitude = p.longitude

theorem SameOrigin.sourced (h : SameOrigin p q) (hp : Sourced p) : Sourced q := by
  constructor
  · rw [h.source, h.origin, h.latitude, h.longitude]
    exact hp.gps
  · rw [h.source, h.origin]
    exact hp.noGps

/-- What CLUSTERING makes of a photo. -/
def Clustering.write (c : Clustering N photos) (p : PhotoState V) : PhotoState V :=
  if p.issue.isNone then settle p (c.folder p) else p

theorem Clustering.write_keeps (c : Clustering N photos) (p : PhotoState V) :
    SameOrigin p (c.write p) := by
  unfold Clustering.write
  split
  · cases c.folder p <;> exact ⟨rfl, rfl, rfl, rfl, rfl⟩
  · exact ⟨rfl, rfl, rfl, rfl, rfl⟩

theorem Clustering.folder?_write (c : Clustering N photos) (hplace : p.placeId = none) :
    (c.write p).folder? = some place ↔ p.issue = none ∧ c.folder p = some place := by
  rw [folder?_eq_some, Clustering.write]
  cases hissue : p.issue with
  | some issue => simp [hplace]
  | none =>
      cases hfolder : c.folder p with
      | none => simp [settle]
      | some place' =>
          have hne := c.folder_ne_empty hfolder
          simp only [Option.isNone_none, if_true, settle, Option.some.injEq, true_and]
          exact ⟨fun h => h.1, fun h => ⟨h, h ▸ hne⟩⟩

/-- **DBSCAN puts photos at one point together**, so a photo that inherited its point is in the
folder of the photo it has it from. -/
theorem clustered_folders {dbscanEpsM minSamples : Threshold} (hsame : N.SameLabels)
    (hnodup : (located.map PhotoState.id).Nodup)
    (hlocated : ∀ q ∈ located, LocatedIn N period located q)
    (h : clusterPhotos N located dbscanEpsM minSamples = .ok clustered) :
    Folders N period clustered := by
  obtain ⟨hnone, rfl⟩ | ⟨c, rfl⟩ := clusterPhotos_eq h
  · have hfolder : ∀ p ∈ clustered, p.folder? = none := by
      intro p hp
      rw [PhotoState.folder?, (hlocated p hp).noPlace]
      rfl
    refine ⟨hnodup, fun p hp => (hlocated p hp).sourced, ?_, ?_⟩
    · intro p hp place hplace
      rw [hfolder p hp] at hplace
      cases hplace
    · intro p hp place hplace
      rw [hfolder p hp] at hplace
      cases hplace
  refine ⟨?_, ?_, ?_, ?_⟩
  · rw [List.map_map]
    have hids : located.map (PhotoState.id ∘ c.write) = located.map PhotoState.id :=
      List.map_congr_left fun p _ => congrArg PhotoSource.tripAttachmentId (c.write_keeps p).source
    exact hids ▸ hnodup
  · intro q hq
    obtain ⟨p, hp, rfl⟩ := List.mem_map.mp hq
    exact (c.write_keeps p).sourced (hlocated p hp).sourced
  · intro q hq place hplace
    obtain ⟨p, hp, rfl⟩ := List.mem_map.mp hq
    change inPeriod N period (c.write p) = .ok true
    rw [inPeriod_congr (c.write_keeps p).takenAt]
    exact (hlocated p hp).inside ((c.folder?_write (hlocated p hp).noPlace).mp hplace).1
  · intro q hq place hplace
    obtain ⟨p, hp, rfl⟩ := List.mem_map.mp hq
    obtain ⟨hissue, hfolder⟩ := (c.folder?_write (hlocated p hp).noPlace).mp hplace
    obtain ⟨a, ha, haissue, haorigin, halat, halon⟩ := (hlocated p hp).origin hissue
    have hpoint : a.point? = p.point? := by
      rw [PhotoState.point?, PhotoState.point?, halat, halon]
    have hafolder := c.folder_congr hsame hnodup ha haissue hp hissue hpoint
    have hkeeps := c.write_keeps a
    have hpkeeps := c.write_keeps p
    refine ⟨c.write a, List.mem_map_of_mem ha, ?_, hkeeps.origin.trans haorigin, ?_, ?_⟩
    · exact (c.folder?_write (hlocated a ha).noPlace).mpr ⟨haissue, hafolder.trans hfolder⟩
    · exact hpkeeps.latitude.trans (halat.symm.trans hkeeps.latitude.symm)
    · exact hpkeeps.longitude.trans (halon.symm.trans hkeeps.longitude.symm)

/-! ### Placings -/

/-- The targets are in the period and have no GPS. -/
def Targets (N : Numerics V) (period : Period) (targets : List Int) (photos : List (PhotoState V)) :
    Prop :=
  ∀ p ∈ photos, p.id ∈ targets → inPeriod N period p = .ok true ∧ p.source.hasGps = false

/-- **A placing keeps the folders as they have to be.** -/
theorem Placing.folders {move : Int × String}
    (hphotos : Folders N period photos ∧ Targets N period targets photos)
    (h : Placing targets photos move photos') :
    Folders N period photos' ∧ Targets N period targets photos' := by
  have hkeeps : ∀ a ∈ photos, ∀ place, a.folder? = some place → a ∈ photos' := by
    intro a ha place haplace
    exact h.mem_of_placed hphotos.1.nodup ha (by rw [haplace]; rfl)
  have hids := h.ids
  obtain ⟨hfolders, htargets⟩ := hphotos
  obtain ⟨photo, anchor, hby, rfl⟩ := h
  have hanchor : anchor.folder? = some move.2 := folder?_eq_some.mpr ⟨hby.anchor_place, hby.named⟩
  refine ⟨⟨?_, ?_, ?_, ?_⟩, ?_⟩
  · rw [hids]
    exact hfolders.nodup
  · intro q hq
    obtain ⟨p, hp, rfl⟩ := mem_updatePhoto.mp hq
    split
    · rename_i hid
      obtain ⟨-, hgps⟩ := htargets p hp (hid ▸ hby.target)
      exact ⟨fun h => absurd (h.symm.trans hgps) nofun, fun _ => nofun⟩
    · exact hfolders.sourced p hp
  · intro q hq place hplace
    obtain ⟨p, hp, rfl⟩ := mem_updatePhoto.mp hq
    split at hplace
    · rename_i hid
      rw [if_pos hid]
      exact (htargets p hp (hid ▸ hby.target)).1
    · rename_i hid
      rw [if_neg hid]
      exact hfolders.inside p hp place hplace
  · intro q hq place hplace
    obtain ⟨p, hp, rfl⟩ := mem_updatePhoto.mp hq
    split at hplace
    · rename_i hid
      rw [folder?_eq_some.mpr ⟨rfl, hby.named⟩, Option.some.injEq] at hplace
      rw [if_pos hid]
      exact ⟨anchor, hkeeps anchor hby.anchor_mem _ hanchor, hplace ▸ hanchor, hby.anchor_origin,
        rfl, rfl⟩
    · rename_i hid
      rw [if_neg hid]
      obtain ⟨a, ha, haplace, hrest⟩ := hfolders.origin p hp place hplace
      exact ⟨a, hkeeps a ha place haplace, haplace, hrest⟩
  · intro q hq hid
    obtain ⟨p, hp, rfl⟩ := mem_updatePhoto.mp hq
    split
    · rename_i heq
      exact htargets p hp (heq ▸ hby.target)
    · rename_i hne
      rw [if_neg hne] at hid
      exact htargets p hp hid

theorem run_folders {moves : List (Int × String)}
    (hphotos : Folders N period photos ∧ Targets N period targets photos)
    (h : Run (Placing targets) photos moves photos') : Folders N period photos' :=
  (h.preserves (P := fun photos => Folders N period photos ∧ Targets N period targets photos)
    (fun _ _ _ hphotos hmove => Placing.folders hphotos hmove) hphotos).1

theorem assignTargets_targets {targets : List (PhotoState V)}
    (hnodup : (photos.map PhotoState.id).Nodup)
    (h : assignTargets N period photos = .ok targets) :
    Targets N period (targets.map PhotoState.id) photos := by
  intro p hp hid
  obtain ⟨q, hq, hqid⟩ := List.mem_map.mp hid
  obtain ⟨hqmem, -, hgps, hin⟩ := (mem_assignTargets h).mp hq
  obtain rfl := eq_of_id hnodup hqmem hp hqid
  exact ⟨hin, hgps⟩

theorem assignUnlocated_folders {inheritMinSim interpolateMaxGapMin : Threshold}
    {state : Assigned V} (hphotos : Folders N period photos)
    (h : assignUnlocated N photos period inheritMinSim interpolateMaxGapMin = .ok state) :
    Folders N period state.photos := by
  obtain ⟨targets, moves, htargets, hrun, -⟩ := assignUnlocated_placings h
  exact run_folders ⟨hphotos, assignTargets_targets hphotos.nodup htargets⟩ hrun

/-! ### The error that cannot come -/

theorem bounded_error {ok : ℚ → Bool} {message : String} {t : Threshold} {e : Raised}
    (h : bounded N ok message t = .error e) : e = .pipeline (.failed message) := by
  unfold bounded at h
  split at h
  · split at h
    · cases h
    · cases h
      rfl
  · cases h
    rfl

theorem inPeriod_error {e : Raised} (h : inPeriod N period p = .error e) : e = .other := by
  unfold inPeriod at h
  split at h
  · cases h
  · rcases except_bind_eq_error.mp h with h | ⟨_, -, h⟩
    · unfold kstDate at h
      rcases except_bind_eq_error.mp h with h | ⟨_, -, h⟩
      · unfold astimezoneUtc at h
        split at h <;> cases h
        rfl
      · dsimp only at h
        split at h <;> cases h
        rfl
    · cases h

/-- **`_place` finds a GPS photo in every folder a rule names**: the step does not raise that
there is none. -/
theorem assignUnlocated_ne_fail {inheritMinSim interpolateMaxGapMin : Threshold}
    (hphotos : Anchored photos) (place : String) :
    assignUnlocated N photos period inheritMinSim interpolateMaxGapMin ≠
      fail ("폴더 " ++ place ++ "에 GPS 사진이 없음") := by
  have hmessage : ∀ message : String, message.toList.head? ≠ some '폴' →
      Raised.pipeline (.failed ("폴더 " ++ place ++ "에 GPS 사진이 없음")) ≠
        .pipeline (.failed message) := by
    intro message hhead heq
    cases heq
    apply hhead
    rw [String.append_assoc, String.toList_append]
    rfl
  intro h
  rcases except_bind_eq_error.mp h with h | ⟨minSim, -, h⟩
  · exact hmessage _ (by decide) (bounded_error h)
  rcases except_bind_eq_error.mp h with h | ⟨maxGap, -, h⟩
  · exact hmessage _ (by decide) (bounded_error h)
  rcases except_bind_eq_error.mp h with h | ⟨targets, -, h⟩
  · obtain ⟨p, -, h⟩ := filterOk_error h
    cases inPeriod_error h
  split at h
  · cases h
  rcases except_bind_eq_error.mp h with h | ⟨_, -, h⟩
  · unfold raiseIf at h
    split at h
    · rw [fail, Except.error.injEq] at h
      exact hmessage _ (by decide) h.symm
    · cases h
  rcases except_bind_eq_error.mp h with h | ⟨gap, -, h⟩
  · unfold timedeltaMinutes at h
    dsimp only at h
    split at h <;> cases h
  · have hpasses : unplaced (targets.map PhotoState.id) photos < targets.length + 1 := by
      have hle := unplaced_le (targets.map PhotoState.id) hphotos.nodup
      rw [List.length_map] at hle
      exact Nat.lt_succ_of_le hle
    have hends : ∃ state, assignPasses N (targets.map PhotoState.id) minSim gap (targets.length + 1)
        ⟨photos, 0⟩ = .ok state := assignPasses_succeeds hphotos hpasses
    obtain ⟨state, hstate⟩ := hends
    rw [hstate] at h
    cases h

/-! ### The rules as a whole -/

/-- What a run of the rules leaves: every folder has a photo at the point of its own EXIF, an
inferred point is that of such a photo in the same folder and in the period, photos with GPS keep
their point, and a photo outside the period has no folder. -/
structure RulesKeep (N : Numerics V) (period : Period) (photos : List (PhotoState V)) : Prop where
  anchored : ∀ p ∈ photos, ∀ place, p.folder? = some place →
    ∃ a ∈ photos, a.folder? = some place ∧ a.regionOrigin = .exif ∧ a.source.hasGps = true ∧
      a.latitude = a.source.latitude ∧ a.longitude = a.source.longitude
  inferred : ∀ p ∈ photos, ∀ place, p.folder? = some place → p.regionOrigin = .inferred →
    ∃ a ∈ photos, a.folder? = some place ∧ a.regionOrigin = .exif ∧
      inPeriod N period a = .ok true ∧ p.latitude = a.latitude ∧ p.longitude = a.longitude
  exif : ∀ p ∈ photos, p.source.hasGps = true →
    p.regionOrigin = .exif ∧ p.latitude = p.source.latitude ∧ p.longitude = p.source.longitude
  outside : ∀ p ∈ photos, inPeriod N period p = .ok false → p.folder? = none

theorem Folders.rulesKeep (h : Folders N period photos) : RulesKeep N period photos := by
  constructor
  · intro p hp place hplace
    obtain ⟨a, ha, haplace, horigin, -⟩ := h.origin p hp place hplace
    have hgps : a.source.hasGps = true := by
      by_contra hno
      exact (h.sourced a ha).noGps (by simpa using hno) horigin
    exact ⟨a, ha, haplace, horigin, hgps, ((h.sourced a ha).gps hgps).2⟩
  · intro p hp place hplace _
    obtain ⟨a, ha, haplace, horigin, hlat, hlon⟩ := h.origin p hp place hplace
    exact ⟨a, ha, haplace, horigin, h.inside a ha place haplace, hlat, hlon⟩
  · exact fun p hp => (h.sourced p hp).gps
  · intro p hp hout
    cases hplace : p.folder? with
    | none => rfl
    | some place => cases (h.inside p hp place hplace).symm.trans hout

/-- The thresholds of the steps up to the rules. -/
structure RuleThresholds where
  pairMinSim : Threshold
  minPairs : Threshold
  offsetTolerance : Threshold
  inheritMinSim : Threshold
  dbscanEpsM : Threshold
  minSamples : Threshold
  interpolateMaxGapMin : Threshold

/-- CLOCK, LOCATING and CLUSTERING up to the end of the rules. -/
def ruleSteps (N : Numerics V) (request : ProcessRequest) (t : RuleThresholds)
    (photos : List (PhotoState V)) : Except Raised (Assigned V × List ClockOffset) := do
  let (timed, offsets) ← correctClocks N photos t.pairMinSim t.minPairs t.offsetTolerance
  let located ← locatePhotos N timed request.period t.inheritMinSim
  let clustered ← clusterPhotos N located t.dbscanEpsM t.minSamples
  let assigned ←
    assignUnlocated N clustered request.period t.inheritMinSim t.interpolateMaxGapMin
  return (assigned, offsets)

section Request

variable {request : ProcessRequest} {pairMinSim minPairs offsetTolerance inheritMinSim dbscanEpsM
  minSamples interpolateMaxGapMin : Threshold} {clocked : List (PhotoState V) × List ClockOffset}

theorem clustered_folders_of_request (hsame : N.SameLabels) (hrequest : OfRequest request photos)
    (hnodup : (photos.map PhotoState.id).Nodup)
    (hclock : correctClocks N photos pairMinSim minPairs offsetTolerance = .ok clocked)
    (hlocate : locatePhotos N clocked.1 request.period inheritMinSim = .ok located)
    (hcluster : clusterPhotos N located dbscanEpsM minSamples = .ok clustered) :
    Folders N request.period clustered := by
  have htimed := correctClocks_timed hclock
  have hlocated := locatePhotos_located hlocate
  have hfresh : ∀ p ∈ clocked.1, Fresh p := by
    intro q hq
    obtain ⟨p, hp, htime⟩ := exists_left_of_forall₂ htimed hq
    exact htime.fresh (hrequest.fresh hp)
  have hids : located.map PhotoState.id = photos.map PhotoState.id := by
    have hsource : ∀ {p q : PhotoState V}, q.source = p.source → q.id = p.id :=
      fun h => congrArg PhotoSource.tripAttachmentId h
    calc located.map PhotoState.id = clocked.1.map PhotoState.id :=
          map_eq_of_forall₂ hlocated fun _ _ h => hsource h.source
      _ = photos.map PhotoState.id := map_eq_of_forall₂ htimed fun _ _ h => hsource h.source
  exact clustered_folders hsame (hids ▸ hnodup) (locatedIn hfresh hlocated) hcluster

theorem ruleSteps_folders {t : RuleThresholds} {state : Assigned V} {offsets : List ClockOffset}
    (hsame : N.SameLabels) (hrequest : OfRequest request photos)
    (hnodup : (photos.map PhotoState.id).Nodup)
    (h : ruleSteps N request t photos = .ok (state, offsets)) :
    Folders N request.period state.photos := by
  obtain ⟨clocked, hclock, h⟩ := except_bind_eq_ok.mp h
  obtain ⟨located, hlocate, h⟩ := except_bind_eq_ok.mp h
  obtain ⟨clustered, hcluster, h⟩ := except_bind_eq_ok.mp h
  obtain ⟨assigned, hassign, h⟩ := except_bind_eq_ok.mp h
  cases h
  exact assignUnlocated_folders
    (clustered_folders_of_request hsame hrequest hnodup hclock hlocate hcluster) hassign

end Request

/-- **Every folder is anchored** once CLOCK, LOCATING and CLUSTERING have gone through the photos
of a request, so `_place` always finds a GPS photo. -/
theorem rules_anchored {request : ProcessRequest} {pairMinSim minPairs offsetTolerance inheritMinSim
      dbscanEpsM minSamples interpolateMaxGapMin : Threshold}
    {clocked : List (PhotoState V) × List ClockOffset} (hsame : N.SameLabels)
    (hrequest : OfRequest request photos) (hnodup : (photos.map PhotoState.id).Nodup)
    (hclock : correctClocks N photos pairMinSim minPairs offsetTolerance = .ok clocked)
    (hlocate : locatePhotos N clocked.1 request.period inheritMinSim = .ok located)
    (hcluster : clusterPhotos N located dbscanEpsM minSamples = .ok clustered) :
    (∀ state, assignUnlocated N clustered request.period inheritMinSim interpolateMaxGapMin =
        .ok state → RulesKeep N request.period state.photos) ∧
    ∀ place, assignUnlocated N clustered request.period inheritMinSim interpolateMaxGapMin ≠
      fail ("폴더 " ++ place ++ "에 GPS 사진이 없음") := by
  have hfolders := clustered_folders_of_request hsame hrequest hnodup hclock hlocate hcluster
  exact ⟨fun state h => (assignUnlocated_folders hfolders h).rulesKeep,
    assignUnlocated_ne_fail hfolders.anchored⟩

/-- A photo with GPS, and one without that resembles it. -/
def sampleRequest : ProcessRequest :=
  { executionId := none, tripName := "", period := ⟨0, 10⟩
    regions := [⟨.finite "37.5", .finite "127.0"⟩]
    attachments :=
      [⟨1, "a.jpg", some ⟨0, 0⟩, some (.finite "37.5"), some (.finite "127.0"), none⟩,
        ⟨2, "b.jpg", none, none, none, none⟩]
    existingPlaces := [] }

def samplePhotos : List (PhotoState Unit) :=
  (buildPhotoStates sampleRequest).map fun p : PhotoState Unit => { p with embedding := some () }

def sampleClocked : List (PhotoState Unit) × List ClockOffset :=
  (correctClocks sampleNumerics samplePhotos (.int 0) (.int 1) (.int 60)).toOption.getD ([], [])

def sampleLocated : List (PhotoState Unit) :=
  (locatePhotos sampleNumerics sampleClocked.1 sampleRequest.period (.int 0)).toOption.getD []

def sampleClustered : List (PhotoState Unit) :=
  (clusterPhotos sampleNumerics sampleLocated (.int 1) (.int 1)).toOption.getD []

theorem sampleNumerics_sameLabels : sampleNumerics.SameLabels := fun _ _ _ _ _ _ _ => rfl

theorem rules_anchored_samplePhotos :
    (∀ state, assignUnlocated sampleNumerics sampleClustered sampleRequest.period
      (.int 0) (.int 30) =
        .ok state → RulesKeep sampleNumerics sampleRequest.period state.photos) ∧
    ∀ place, assignUnlocated sampleNumerics sampleClustered sampleRequest.period
      (.int 0) (.int 30) ≠
      fail ("폴더 " ++ place ++ "에 GPS 사진이 없음") :=
  rules_anchored sampleNumerics_sameLabels (rfl : OfRequest sampleRequest samplePhotos) (by decide)
    (eq_ok_getD (by decide +kernel) ([], [])) (eq_ok_getD (by decide +kernel) [])
    (eq_ok_getD (by decide +kernel) [])

/-- The photo without GPS joins the folder of the one it has its point from. -/
example : sampleClustered.map PhotoState.placeId = [some "p1", some "p1"] := by decide +kernel

end Yeodam.Pipeline
