/-
Assigning unlocated photos (`app/pipeline/steps/assigning.py`): photos without GPS that
CLUSTERING left out are put into folders, by the time between two photos of one folder and by
the photos they resemble, until neither rule places another one.

What one rule does is a `Placing`: one target without a folder joins the folder of a GPS
photo and takes its coordinates. `assignUnlocated_placings` says that the step is a run of
such placings, one for each photo counted, and `assignUnlocated_succeeds` that it ends and
raises nothing where every folder has a GPS photo.
-/

import Mathlib.Data.List.MinMax
import Mathlib.Data.Prod.Lex
import Yeodam.Lib.Exact
import Yeodam.Lib.Run
import Yeodam.Pipeline.State

namespace Yeodam.Pipeline

open Yeodam.Lib Yeodam.Schemas

variable {V : Type} (N : Numerics V)

/-! ### The rules -/

/-- A photo with a folder and a time. -/
structure TrackEntry where
  instant : Int
  id : Int
  place : String

def trackEntry (p : PhotoState V) : Option TrackEntry :=
  match p.folder?, p.takenAt with
  | some place, some t => some ⟨t.instant, p.id, place⟩
  | _, _ => none

/-- Photos with a folder in the order they were taken. -/
def track (photos : List (PhotoState V)) : List TrackEntry :=
  sortOn (fun e => toLex (e.instant, e.id)) ((byId photos).filterMap trackEntry)

/-- The folder of the entry just before `t` and of the entry just after it, where both are the
same and near enough. -/
def timeFolder (entries : List TrackEntry) (gap t : Int) : Option String :=
  match (entries.filter fun e => e.instant ≤ t).getLast?,
      (entries.filter fun e => t ≤ e.instant).head? with
  | some before, some after =>
      if before.place = after.place ∧ t - before.instant ≤ gap ∧ after.instant - t ≤ gap then
        some before.place
      else none
  | _, _ => none

/-- The folders of the other photos that resemble `photo` enough. -/
def similarFolders (minSim : ℚ) (photos : List (PhotoState V)) (photo : PhotoState V) :
    List String :=
  ((byId photos).filterMap fun other =>
    if other.id ≠ photo.id ∧ minSim ≤ similarity N other photo then other.folder?
    else none).eraseDups

/-- GPS photos of a folder, by id. -/
def folderAnchors (photos : List (PhotoState V)) (place : String) : List (PhotoState V) :=
  (byId photos).filter fun other => other.placeId = some place && other.regionOrigin = .exif

/-- `_place`. -/
def placePhoto (photos : List (PhotoState V)) (photo : PhotoState V) (place : String) :
    Except Raised (List (PhotoState V)) :=
  match (folderAnchors photos place).argmax fun other => similarity N other photo with
  | none => fail ("폴더 " ++ place ++ "에 GPS 사진이 없음")
  | some nearest =>
      .ok (updatePhoto photo.id
        (PhotoState.putInto place nearest.latitude nearest.longitude) photos)

/-! ### The loops -/

/-- The photos, and how many were put into a folder. -/
structure Assigned (V : Type) where
  photos : List (PhotoState V)
  assigned : Nat

/-- One round of a loop over the targets: place the photo in the folder the rule names, unless
it has one. -/
def assignBy (rule : List (PhotoState V) → PhotoState V → Option String) (state : Assigned V)
    (id : Int) : Except Raised (Assigned V) :=
  match current state.photos id with
  | none => .ok state
  | some photo =>
      match photo.folder?, rule state.photos photo with
      | none, some place => do
          let photos ← placePhoto N state.photos photo place
          return ⟨photos, state.assigned + 1⟩
      | _, _ => .ok state

/-- The track is the one of the start of the pass. -/
def timeRule (entries : List TrackEntry) (gap : Int) (_ : List (PhotoState V))
    (photo : PhotoState V) : Option String :=
  photo.takenAt.bind fun t => timeFolder entries gap t.instant

/-- The folders are the current ones. -/
def similarityRule (minSim : ℚ) (photos : List (PhotoState V)) (photo : PhotoState V) :
    Option String :=
  match similarFolders N minSim photos photo with
  | [place] => some place
  | _ => none

/-- One pass of the `while` loop. -/
def assignPass (targets : List Int) (minSim : ℚ) (gap : Int) (state : Assigned V) :
    Except Raised (Assigned V) := do
  let timed ← targets.foldlM (assignBy N (timeRule (track state.photos) gap)) state
  targets.foldlM (assignBy N (similarityRule N minSim)) timed

/-- `while changed`, for at most so many passes: `assignPasses_succeeds` says how many are
enough. -/
def assignPasses (targets : List Int) (minSim : ℚ) (gap : Int) :
    Nat → Assigned V → Except Raised (Assigned V)
  | 0, _ => .error .other
  | passes + 1, state => do
      let next ← assignPass N targets minSim gap state
      if next.assigned = state.assigned then return next
      else assignPasses targets minSim gap passes next

/-- `timedelta(minutes=minutes)` in microseconds; `OverflowError` beyond 999999999 days. -/
def timedeltaMinutes (minutes : ℚ) : Except Raised Int :=
  let micros := roundHalfEven (minutes * 60000000)
  if micros / microsPerDay ≤ 999999999 then .ok micros else .error .other

/-- Photos without GPS in the period that have no location. -/
def assignTargets (period : Period) (photos : List (PhotoState V)) :
    Except Raised (List (PhotoState V)) :=
  filterOk (inPeriod N period) ((byId photos).filter fun p =>
    p.issue = some .unclearLocation && !p.source.hasGps)

/-- `assign_unlocated`. -/
def assignUnlocated (photos : List (PhotoState V)) (period : Period)
    (inheritMinSim interpolateMaxGapMin : Threshold) : Except Raised (Assigned V) := do
  let minSim ← bounded N (fun q => -1 ≤ q && q ≤ 1)
    "inherit_min_sim은 -1 이상 1 이하의 유한값이어야 함" inheritMinSim
  let maxGap ← bounded N (fun q => 0 ≤ q) "interpolate_max_gap_min은 0 이상의 유한값이어야 함"
    interpolateMaxGapMin
  let targets ← assignTargets N period photos
  if targets.isEmpty then return ⟨photos, 0⟩
  else
    let targetIds := targets.map PhotoState.id
    raiseIf (photos.any fun p => (p.folder?.isSome || p.id ∈ targetIds) && p.embedding.isNone)
      "규칙 배정에는 임베딩이 필요함"
    let gap ← timedeltaMinutes maxGap
    assignPasses N targetIds minSim gap (targets.length + 1) ⟨photos, 0⟩

/-! ### Placings -/

/-- One of the targets, without a folder, joins the folder of the GPS photo `anchor`. -/
structure PlacedBy (targets : List Int) (photos : List (PhotoState V)) (id : Int) (place : String)
    (photo anchor : PhotoState V) : Prop where
  target : id ∈ targets
  named : place ≠ ""
  photo_current : current photos id = some photo
  unplaced : photo.folder? = none
  anchor_mem : anchor ∈ photos
  anchor_place : anchor.placeId = some place
  anchor_origin : anchor.regionOrigin = .exif

/-- The step relation of the rules; the label is the photo placed and its folder. -/
def Placing (targets : List Int) (photos : List (PhotoState V)) (move : Int × String)
    (photos' : List (PhotoState V)) : Prop :=
  ∃ photo anchor, PlacedBy targets photos move.1 move.2 photo anchor ∧
    photos' = updatePhoto move.1 (PhotoState.putInto move.2 anchor.latitude anchor.longitude) photos

variable {N} {photos photos' : List (PhotoState V)} {photo p q : PhotoState V} {place : String}
  {targets : List Int} {state state' : Assigned V} {id : Int}

theorem mem_folderAnchors : q ∈ folderAnchors photos place ↔
    q ∈ photos ∧ q.placeId = some place ∧ q.regionOrigin = .exif := by
  rw [folderAnchors, List.mem_filter, mem_byId]
  simp

/-- `_place` takes the coordinates of a GPS photo of the folder. -/
theorem placePhoto_eq_ok (h : placePhoto N photos photo place = .ok photos') :
    ∃ anchor ∈ photos, anchor.placeId = some place ∧ anchor.regionOrigin = .exif ∧
      photos' = updatePhoto photo.id
        (PhotoState.putInto place anchor.latitude anchor.longitude) photos := by
  unfold placePhoto at h
  split at h
  · cases h
  · rename_i nearest hnearest
    cases h
    obtain ⟨hmem, hplace, horigin⟩ := mem_folderAnchors.mp (List.argmax_mem hnearest)
    exact ⟨nearest, hmem, hplace, horigin, rfl⟩

/-- A rule names no folder without a name. -/
def NamesFolders (rule : List (PhotoState V) → PhotoState V → Option String) : Prop :=
  ∀ photos photo place, rule photos photo = some place → place ≠ ""

/-- One round of a loop: nothing, or one placing. -/
theorem assignBy_run {rule : List (PhotoState V) → PhotoState V → Option String}
    (hnames : NamesFolders rule) (hid : id ∈ targets) (h : assignBy N rule state id = .ok state') :
    ∃ moves, Run (Placing targets) state.photos moves state'.photos ∧
      state'.assigned = state.assigned + moves.length := by
  unfold assignBy at h
  split at h
  · cases h
    exact ⟨[], .refl _, rfl⟩
  rename_i photo hphoto
  split at h
  · rename_i place hfolder hrule
    obtain ⟨photos', hplaced, h⟩ := except_bind_eq_ok.mp h
    cases h
    obtain ⟨anchor, hmem, hplace, horigin, rfl⟩ := placePhoto_eq_ok hplaced
    obtain ⟨-, rfl⟩ := current_mem hphoto
    refine ⟨[(photo.id, place)], .single ?_, rfl⟩
    exact ⟨photo, anchor, ⟨hid, hnames _ _ _ hrule, hphoto, hfolder, hmem, hplace, horigin⟩, rfl⟩
  · cases h
    exact ⟨[], .refl _, rfl⟩

/-- A loop over targets is a run of placings. -/
theorem foldlM_assignBy_run {rule : List (PhotoState V) → PhotoState V → Option String}
    {ids : List Int} (hnames : NamesFolders rule) (hids : ∀ id ∈ ids, id ∈ targets)
    (h : ids.foldlM (assignBy N rule) state = .ok state') :
    ∃ moves, Run (Placing targets) state.photos moves state'.photos ∧
      state'.assigned = state.assigned + moves.length := by
  refine foldlM_preserves
    (P := fun s => ∃ moves, Run (Placing targets) state.photos moves s.photos ∧
    s.assigned = state.assigned + moves.length) ?_ ⟨[], .refl _, rfl⟩ h
  rintro s ⟨moves, hrun, hcount⟩ id hid s' hs'
  obtain ⟨more, hmore, hcount'⟩ := assignBy_run hnames (hids id hid) hs'
  refine ⟨moves ++ more, hrun.append hmore, ?_⟩
  rw [hcount', hcount, List.length_append, Nat.add_assoc]

theorem place_of_mem_track {entry : TrackEntry} (h : entry ∈ track photos) :
    ∃ p ∈ photos, p.folder? = some entry.place := by
  rw [track, mem_sortOn] at h
  obtain ⟨p, hp, hentry⟩ := List.mem_filterMap.mp h
  unfold trackEntry at hentry
  split at hentry
  · rename_i hfolder htime
    cases hentry
    exact ⟨p, mem_byId.mp hp, hfolder⟩
  · cases hentry

/-- The time rule names the folder of a photo on the track. -/
theorem timeRule_eq_some {entries : List TrackEntry} {gap : Int}
    (h : timeRule entries gap photos photo = some place) : ∃ e ∈ entries, e.place = place := by
  obtain ⟨t, -, h⟩ := Option.bind_eq_some_iff.mp h
  unfold timeFolder at h
  split at h
  · rename_i before after hbefore hafter
    split at h
    · cases h
      exact ⟨before, (List.mem_filter.mp (List.mem_of_getLast? hbefore)).1, rfl⟩
    · cases h
  · cases h

/-- The similarity rule names the folder of a photo. -/
theorem similarityRule_eq_some {minSim : ℚ}
    (h : similarityRule N minSim photos photo = some place) :
    ∃ p ∈ photos, p.folder? = some place := by
  unfold similarityRule at h
  split at h
  · rename_i place' hfolders
    cases h
    have hmem : place ∈ similarFolders N minSim photos photo := by
      rw [hfolders]
      exact List.mem_singleton_self _
    obtain ⟨p, hp, hplace⟩ := List.mem_filterMap.mp (List.mem_eraseDups.mp hmem)
    split at hplace
    · exact ⟨p, mem_byId.mp hp, hplace⟩
    · cases hplace
  · cases h

theorem namesFolders_timeRule {gap : Int} :
    NamesFolders (timeRule (V := V) (track photos) gap) := by
  intro photos' photo place h
  obtain ⟨e, he, rfl⟩ := timeRule_eq_some h
  obtain ⟨p, -, hfolder⟩ := place_of_mem_track he
  exact (folder?_eq_some.mp hfolder).2

theorem namesFolders_similarityRule {minSim : ℚ} : NamesFolders (similarityRule N minSim) := by
  intro photos photo place h
  obtain ⟨p, -, hfolder⟩ := similarityRule_eq_some h
  exact (folder?_eq_some.mp hfolder).2

/-- A pass is a run of placings. -/
theorem assignPass_run {minSim : ℚ} {gap : Int}
    (h : assignPass N targets minSim gap state = .ok state') :
    ∃ moves, Run (Placing targets) state.photos moves state'.photos ∧
      state'.assigned = state.assigned + moves.length := by
  obtain ⟨timed, htimed, h⟩ := except_bind_eq_ok.mp h
  obtain ⟨moves, hrun, hcount⟩ :=
    foldlM_assignBy_run namesFolders_timeRule (fun _ hid => hid) htimed
  obtain ⟨more, hmore, hcount'⟩ :=
    foldlM_assignBy_run namesFolders_similarityRule (fun _ hid => hid) h
  refine ⟨moves ++ more, hrun.append hmore, ?_⟩
  rw [hcount', hcount, List.length_append, Nat.add_assoc]

theorem assignPasses_run {minSim : ℚ} {gap : Int} {passes : Nat}
    (h : assignPasses N targets minSim gap passes state = .ok state') :
    ∃ moves, Run (Placing targets) state.photos moves state'.photos ∧
      state'.assigned = state.assigned + moves.length := by
  induction passes generalizing state with
  | zero => cases h
  | succ passes ih =>
      obtain ⟨next, hnext, h⟩ := except_bind_eq_ok.mp h
      obtain ⟨moves, hrun, hcount⟩ := assignPass_run hnext
      split at h
      · cases h
        exact ⟨moves, hrun, hcount⟩
      · obtain ⟨more, hmore, hcount'⟩ := ih h
        refine ⟨moves ++ more, hrun.append hmore, ?_⟩
        rw [hcount', hcount, List.length_append, Nat.add_assoc]

/-- A target of the step: in the period, set aside and without GPS. -/
theorem mem_assignTargets {period : Period} {targets : List (PhotoState V)}
    (h : assignTargets N period photos = .ok targets) : p ∈ targets ↔
      p ∈ photos ∧ p.issue = some .unclearLocation ∧ p.source.hasGps = false ∧
        inPeriod N period p = .ok true := by
  rw [mem_filterOk h, List.mem_filter, mem_byId]
  simp [and_assoc]

/-- **The step is a run of placings**, one for each photo it counts. -/
theorem assignUnlocated_placings {period : Period} {inheritMinSim interpolateMaxGapMin : Threshold}
    (h : assignUnlocated N photos period inheritMinSim interpolateMaxGapMin = .ok state) :
    ∃ targets moves, assignTargets N period photos = .ok targets ∧
      Run (Placing (targets.map PhotoState.id)) photos moves state.photos ∧
      state.assigned = moves.length := by
  simp only [assignUnlocated, except_bind_eq_ok] at h
  obtain ⟨minSim, -, maxGap, -, targets, htargets, h⟩ := h
  split at h
  · cases h
    exact ⟨targets, [], htargets, .refl _, rfl⟩
  · simp only [except_bind_eq_ok] at h
    obtain ⟨_, -, gap, -, h⟩ := h
    obtain ⟨moves, hrun, hcount⟩ := assignPasses_run h
    refine ⟨targets, moves, htargets, hrun, ?_⟩
    rw [hcount]
    exact Nat.zero_add _

/-! ### What a placing keeps -/

theorem Placing.ids {move : Int × String} (h : Placing targets photos move photos') :
    photos'.map PhotoState.id = photos.map PhotoState.id := by
  obtain ⟨photo, anchor, -, rfl⟩ := h
  exact ids_updatePhoto fun _ => rfl

/-- The number of targets without a folder. -/
def unplaced (targets : List Int) (photos : List (PhotoState V)) : Nat :=
  photos.countP fun p => p.id ∈ targets && p.folder?.isNone

/-- Each placing leaves fewer targets without a folder. -/
theorem Placing.unplaced_lt {move : Int × String} (h : Placing targets photos move photos') :
    unplaced targets photos' < unplaced targets photos := by
  obtain ⟨photo, anchor, hby, rfl⟩ := h
  obtain ⟨hmem, hid⟩ := current_mem hby.photo_current
  have hplaced : ∀ p : PhotoState V,
      (p.putInto move.2 anchor.latitude anchor.longitude).folder? = some move.2 :=
    fun p => folder?_eq_some.mpr ⟨rfl, hby.named⟩
  unfold unplaced updatePhoto
  rw [List.countP_map]
  refine countP_lt_countP (fun p _ h => ?_) hmem ?_ ?_
  · simp only [Function.comp_apply] at h
    split at h
    · rw [hplaced, Bool.and_eq_true] at h
      cases h.2
    · exact h
  · rw [hby.unplaced, hid, decide_eq_true hby.target]
    rfl
  · simp only [Function.comp_apply]
    rw [if_pos hid, hplaced, Bool.and_eq_false_iff]
    exact .inr rfl

/-- There is a GPS photo in the folder. -/
def HasAnchor (photos : List (PhotoState V)) (place : String) : Prop :=
  place ≠ "" ∧ ∃ a ∈ photos, a.placeId = some place ∧ a.regionOrigin = .exif

/-- A photo that has a folder is not placed again. -/
theorem Placing.mem_of_placed {move : Int × String} (hnodup : (photos.map PhotoState.id).Nodup)
    (h : Placing targets photos move photos') (hp : p ∈ photos) (hplaced : p.folder?.isSome) :
    p ∈ photos' := by
  obtain ⟨photo, anchor, hby, rfl⟩ := h
  obtain ⟨hmem, hid⟩ := current_mem hby.photo_current
  refine mem_updatePhoto.mpr ⟨p, hp, ?_⟩
  split
  · rename_i heq
    rw [eq_of_id hnodup hp hmem (heq.trans hid.symm), hby.unplaced] at hplaced
    cases hplaced
  · rfl

theorem Placing.hasAnchor {move : Int × String} (hnodup : (photos.map PhotoState.id).Nodup)
    (h : Placing targets photos move photos') (hanchor : HasAnchor photos place) :
    HasAnchor photos' place := by
  obtain ⟨hne, a, ha, hplace, horigin⟩ := hanchor
  have hfolder : a.folder? = some place := folder?_eq_some.mpr ⟨hplace, hne⟩
  exact ⟨hne, a, h.mem_of_placed hnodup ha (by rw [hfolder]; rfl), hplace, horigin⟩

/-- Ids name photos, and every folder has a GPS photo. -/
structure Anchored (photos : List (PhotoState V)) : Prop where
  nodup : (photos.map PhotoState.id).Nodup
  anchor : ∀ p ∈ photos, ∀ place, p.folder? = some place → HasAnchor photos place

theorem Placing.anchored {move : Int × String} (hphotos : Anchored photos)
    (h : Placing targets photos move photos') : Anchored photos' := by
  constructor
  · rw [h.ids]
    exact hphotos.nodup
  intro q hq place hplace
  apply h.hasAnchor hphotos.nodup
  obtain ⟨photo, anchor, hby, rfl⟩ := h
  obtain ⟨p, hp, rfl⟩ := mem_updatePhoto.mp hq
  split at hplace
  · rw [folder?_eq_some.mpr ⟨rfl, hby.named⟩, Option.some.injEq] at hplace
    exact hplace ▸ ⟨hby.named, anchor, hby.anchor_mem, hby.anchor_place, hby.anchor_origin⟩
  · exact hphotos.anchor p hp place hplace

theorem run_anchored {moves : List (Int × String)} (hphotos : Anchored photos)
    (h : Run (Placing targets) photos moves photos') : Anchored photos' :=
  h.preserves (fun _ _ _ hphotos hmove => hmove.anchored hphotos) hphotos

/-- Folders keep their GPS photos through a run. -/
theorem run_hasAnchor {moves : List (Int × String)} (hphotos : Anchored photos)
    (h : Run (Placing targets) photos moves photos') (hanchor : HasAnchor photos place) :
    HasAnchor photos' place := by
  have hkeep : Anchored photos' ∧ HasAnchor photos' place :=
    h.preserves (P := fun photos => Anchored photos ∧ HasAnchor photos place)
      (fun _ _ _ hs hmove => ⟨hmove.anchored hs.1, hmove.hasAnchor hs.1.nodup hs.2⟩)
      ⟨hphotos, hanchor⟩
  exact hkeep.2

/-- There are no more photos without a folder among the targets than targets. -/
theorem unplaced_le (targets : List Int) (hnodup : (photos.map PhotoState.id).Nodup) :
    unplaced targets photos ≤ targets.length := by
  have hids : ((photos.filter fun p => p.id ∈ targets && p.folder?.isNone).map
      PhotoState.id).Nodup := hnodup.sublist (List.filter_sublist.map _)
  have hsub : (photos.filter fun p => p.id ∈ targets && p.folder?.isNone).map PhotoState.id ⊆
      targets := by
    intro id hid
    obtain ⟨p, hp, rfl⟩ := List.mem_map.mp hid
    exact of_decide_eq_true (Bool.and_eq_true_iff.mp (List.mem_filter.mp hp).2).1
  have hlen := List.Nodup.length_le_of_subset hids hsub
  rwa [List.length_map, ← List.countP_eq_length_filter] at hlen

/-- **Each placing is of another target**, so there are no more of them than targets. -/
theorem length_add_unplaced_le {moves : List (Int × String)}
    (h : Run (Placing targets) photos moves photos') :
    moves.length + unplaced targets photos' ≤ unplaced targets photos :=
  h.length_add_le (P := fun _ => True) (fun _ _ _ _ hmove => ⟨hmove.unplaced_lt, trivial⟩) trivial

/-! ### When the step raises nothing -/

/-- The rule only names folders that have a GPS photo. -/
def NamesAnchored (rule : List (PhotoState V) → PhotoState V → Option String)
    (photos : List (PhotoState V)) : Prop :=
  ∀ photo place, rule photos photo = some place → HasAnchor photos place

theorem assignBy_succeeds {rule : List (PhotoState V) → PhotoState V → Option String} (id : Int)
    (hrule : NamesAnchored rule state.photos) :
    ∃ state', assignBy N rule state id = .ok state' := by
  unfold assignBy
  split
  · exact ⟨_, rfl⟩
  rename_i photo hphoto
  split
  · rename_i place hfolder hplace
    obtain ⟨-, a, ha, haplace, horigin⟩ := hrule photo place hplace
    have hmem : a ∈ folderAnchors state.photos place :=
      mem_folderAnchors.mpr ⟨ha, haplace, horigin⟩
    unfold placePhoto
    split
    · rename_i hnone
      rw [List.argmax_eq_none.mp hnone] at hmem
      cases hmem
    · exact bind_succeeds rfl ⟨_, rfl⟩
  · exact ⟨_, rfl⟩

/-- A loop succeeds where its rule names anchored folders in every state the loop can reach. -/
theorem foldlM_assignBy_succeeds {rule : List (PhotoState V) → PhotoState V → Option String}
    (hnames : NamesFolders rule)
    (hrule : ∀ moves photos', Run (Placing targets) state.photos moves photos' →
      NamesAnchored rule photos') :
    ∃ state', targets.foldlM (assignBy N rule) state = .ok state' := by
  let P := fun s : Assigned V => ∃ moves, Run (Placing targets) state.photos moves s.photos
  have hround : ∀ s, P s → ∀ id ∈ targets, ∃ s', assignBy N rule s id = .ok s' ∧ P s' := by
    rintro s ⟨moves, hrun⟩ id hid
    obtain ⟨s', hs'⟩ := assignBy_succeeds id (hrule moves s.photos hrun)
    obtain ⟨more, hmore, -⟩ := assignBy_run hnames hid hs'
    exact ⟨s', hs', moves ++ more, hrun.append hmore⟩
  obtain ⟨state', hstate', -⟩ := foldlM_succeeds hround ⟨[], .refl _⟩
  exact ⟨state', hstate'⟩

theorem assignPass_succeeds (minSim : ℚ) (gap : Int) (hphotos : Anchored state.photos) :
    ∃ state', assignPass N targets minSim gap state = .ok state' := by
  have htime : ∀ moves photos', Run (Placing targets) state.photos moves photos' →
      NamesAnchored (timeRule (track state.photos) gap) photos' := by
    intro moves photos' hrun photo place hplace
    obtain ⟨e, he, rfl⟩ := timeRule_eq_some hplace
    obtain ⟨p, hp, hfolder⟩ := place_of_mem_track he
    exact run_hasAnchor hphotos hrun (hphotos.anchor p hp _ hfolder)
  obtain ⟨timed, htimed⟩ :=
    foldlM_assignBy_succeeds (N := N) namesFolders_timeRule htime
  refine bind_succeeds htimed (foldlM_assignBy_succeeds namesFolders_similarityRule ?_)
  intro moves photos' hrun photo place hplace
  obtain ⟨first, hfirst, -⟩ :=
    foldlM_assignBy_run namesFolders_timeRule (fun _ hid => hid) htimed
  obtain ⟨p, hp, hfolder⟩ := similarityRule_eq_some hplace
  exact (run_anchored hphotos (hfirst.append hrun)).anchor p hp place hfolder

/-- **The loop ends**: a pass that changes something leaves fewer targets without a folder. -/
theorem assignPasses_succeeds {minSim : ℚ} {gap : Int} {passes : Nat}
    (hphotos : Anchored state.photos) (hpasses : unplaced targets state.photos < passes) :
    ∃ state', assignPasses N targets minSim gap passes state = .ok state' := by
  induction passes generalizing state with
  | zero => omega
  | succ passes ih =>
      obtain ⟨next, hnext⟩ := assignPass_succeeds (N := N) minSim gap hphotos
      obtain ⟨moves, hrun, hcount⟩ := assignPass_run hnext
      apply bind_succeeds hnext
      split
      · exact ⟨_, rfl⟩
      · have hle := length_add_unplaced_le hrun
        exact ih (run_anchored hphotos hrun) (by omega)

/-- **Assigning raises nothing** where every folder has a GPS photo, every photo an embedding,
and the times are away from the ends. -/
theorem assignUnlocated_succeeds {period : Period} {inheritMinSim interpolateMaxGapMin : Threshold}
    {minSim maxGap : ℚ} {gap : Int} (hsim : inheritMinSim.finite? N = some minSim)
    (hbounds : -1 ≤ minSim ∧ minSim ≤ 1) (hgap : interpolateMaxGapMin.finite? N = some maxGap)
    (hnonneg : 0 ≤ maxGap) (hdelta : timedeltaMinutes maxGap = .ok gap)
    (hzone : ∀ utc, |N.seoulOffset utc| < secondsPerDay) (haway : TimesAway photos)
    (hembedded : ∀ p ∈ photos, p.embedding.isSome = true) (hphotos : Anchored photos) :
    ∃ state, assignUnlocated N photos period inheritMinSim interpolateMaxGapMin = .ok state := by
  refine bind_succeeds (bounded_eq_ok.mpr ⟨hsim, by simpa using hbounds⟩) ?_
  refine bind_succeeds (bounded_eq_ok.mpr ⟨hgap, by simpa using hnonneg⟩) ?_
  obtain ⟨targets, htargets⟩ : ∃ targets, assignTargets N period photos = .ok targets := by
    refine filterOk_succeeds fun p hp => inPeriod_succeeds period hzone haway ?_
    exact mem_byId.mp (List.mem_filter.mp hp).1
  apply bind_succeeds htargets
  split
  · exact ⟨_, rfl⟩
  refine raiseIf_succeeds ?_ (bind_succeeds hdelta (assignPasses_succeeds hphotos ?_))
  · rw [List.any_eq_false]
    intro p hp
    have hsome := hembedded p hp
    rw [Option.isSome_iff_exists] at hsome
    obtain ⟨v, hv⟩ := hsome
    simp [hv]
  · have hle := unplaced_le (targets.map PhotoState.id) hphotos.nodup
    rw [List.length_map] at hle
    exact Nat.lt_succ_of_le hle

end Yeodam.Pipeline
