/-
What the agent may do to a trip, and what it leaves as it was.

`TripKeeps` relates a trip to the photos it started from: photos are as they were but for
targets that were put into folders, every folder in use can give a photo its coordinates, and
whatever is in a folder is at the point of a GPS photo of the folder or of a candidate that
was checked. The three ways the agent changes a trip keep it (`TripKeeps.assign`,
`TripKeeps.addNewPlace`, `TripKeeps.mergeGroup`), and `TripKeeps.finish` is what it says of
the photos once the folders are numbered anew (`AgentKeeps`).

A folder a photo can be put into is `Grounded`, so `Trip.assign` does not fail.
-/

import Yeodam.Pipeline.Rules
import Yeodam.Pipeline.Tools
import Yeodam.Pipeline.Trip

namespace Yeodam.Pipeline

open Yeodam.Lib Yeodam.Schemas
open scoped IntKeys

variable {V : Type} {N : Numerics V} {period : Period} {checked : Candidate → Prop}
  {before : List (PhotoState V)} {trip trip' : Trip V} {photo p q : PhotoState V} {place : String}
  {latitude longitude : Option PyFloat}

/-! ### Targets -/

/-- A photo the agent may put into a folder: in the period, without GPS and without a place. -/
structure IsTarget (N : Numerics V) (period : Period) (p : PhotoState V) : Prop where
  inside : inPeriod N period p = .ok true
  noGps : p.source.hasGps = false
  noPlace : p.placeId = none
  unclear : p.issue = some .unclearLocation

/-- `q` is `p`, or `p` put into a folder as a target. -/
inductive Moved (N : Numerics V) (period : Period) (p : PhotoState V) : PhotoState V → Prop where
  | same : Moved N period p p
  | placed {place : String} {latitude longitude : Option PyFloat} : IsTarget N period p →
      place ≠ "" → Moved N period p (p.putInto place latitude longitude)

theorem Moved.id_eq (h : Moved N period p q) : q.id = p.id := by
  cases h <;> rfl

theorem Moved.inPeriod_eq (h : Moved N period p q) : inPeriod N period q = inPeriod N period p := by
  cases h
  · rfl
  · exact inPeriod_congr rfl

/-- A photo that has no place was not put anywhere. -/
theorem Moved.eq_of_noPlace (h : Moved N period p q) (hplace : q.placeId = none) : q = p := by
  cases h with
  | same => rfl
  | placed => cases hplace

theorem IsTarget.noFolder (h : IsTarget N period p) : p.folder? = none := by
  rw [PhotoState.folder?, h.noPlace]
  rfl

/-! ### Where the point of a photo comes from -/

/-- The folder can give a photo its coordinates: it has a GPS photo, or it was made for a
candidate. -/
def Trip.Grounded (trip : Trip V) (place : String) : Prop :=
  place ≠ "" ∧
    ((∃ a ∈ trip.view, a.regionOrigin = .exif ∧ trip.placeOf a = some place) ∨
      (trip.newPlaces.get? place).isSome = true)

/-- The point is that of a GPS photo of the folder, or of a candidate that was checked. -/
def Trip.PointFrom (trip : Trip V) (checked : Candidate → Prop) (place : String)
    (latitude longitude : Option PyFloat) : Prop :=
  (∃ a ∈ trip.view, a.regionOrigin = .exif ∧ trip.placeOf a = some place ∧
      a.latitude = latitude ∧ a.longitude = longitude) ∨
    ∃ c, checked c ∧ some c.latitude = latitude ∧ some c.longitude = longitude

/-- **What holds of the trip** between the nodes of the agent's graph, of the photos it started
from and the candidates that were checked so far. -/
structure TripKeeps (N : Numerics V) (period : Period) (checked : Candidate → Prop)
    (before : List (PhotoState V)) (trip : Trip V) : Prop where
  folders : Folders N period before
  moved : List.Forall₂ (Moved N period) before trip.photos
  members : ∀ p ∈ before, p.id ∈ trip.members ↔ inPeriod N period p = .ok true
  merges : trip.Merges
  grounded : ∀ p ∈ trip.view, ∀ place, trip.placeOf p = some place → trip.Grounded place
  mergedGrounded : ∀ place, (trip.merged.get? place).isSome = true →
    trip.Grounded (trip.canon place)
  newGrounded : ∀ place, (trip.newPlaces.get? place).isSome = true →
    trip.Grounded (trip.canon place)
  newChecked : ∀ place new, trip.newPlaces.get? place = some new →
    ∃ c, checked c ∧ c.latitude = new.latitude ∧ c.longitude = new.longitude
  origin : ∀ p ∈ trip.view, ∀ place, trip.placeOf p = some place →
    trip.PointFrom checked place p.latitude p.longitude

namespace TripKeeps

theorem mono {checked' : Candidate → Prop} (h : TripKeeps N period checked before trip)
    (hchecked : ∀ c, checked c → checked' c) : TripKeeps N period checked' before trip := by
  refine ⟨h.folders, h.moved, h.members, h.merges, h.grounded, h.mergedGrounded,
    h.newGrounded, ?_, ?_⟩
  · intro place new hnew
    obtain ⟨c, hc, hpoint⟩ := h.newChecked place new hnew
    exact ⟨c, hchecked c hc, hpoint⟩
  · intro p hp place hplace
    rcases h.origin p hp place hplace with ha | ⟨c, hc, hpoint⟩
    · exact .inl ha
    · exact .inr ⟨c, hchecked c hc, hpoint⟩

theorem ids (h : TripKeeps N period checked before trip) :
    trip.photos.map PhotoState.id = before.map PhotoState.id :=
  map_eq_of_forall₂ h.moved fun _ _ hmoved => hmoved.id_eq

theorem nodup (h : TripKeeps N period checked before trip) :
    (trip.photos.map PhotoState.id).Nodup := by
  rw [h.ids]
  exact h.folders.nodup

theorem eq_of_view (h : TripKeeps N period checked before trip) (hp : p ∈ trip.view)
    (hq : q ∈ trip.view) (hid : p.id = q.id) : p = q :=
  eq_of_id h.nodup (Trip.mem_view.mp hp).1 (Trip.mem_view.mp hq).1 hid

theorem inside (h : TripKeeps N period checked before trip) (hp : p ∈ trip.view) :
    inPeriod N period p = .ok true := by
  obtain ⟨hp, hmember⟩ := Trip.mem_view.mp hp
  obtain ⟨b, hb, hmoved⟩ := exists_left_of_forall₂ h.moved hp
  rw [hmoved.inPeriod_eq]
  exact (h.members b hb).mp (hmoved.id_eq ▸ hmember)

/-- The targets of the trip are targets among the photos it started from. -/
theorem isTarget (h : TripKeeps N period checked before trip) (hp : p ∈ trip.targets) :
    p ∈ before ∧ IsTarget N period p := by
  obtain ⟨hview, hplace, hissue, hgps⟩ := Trip.mem_targets.mp hp
  obtain ⟨b, hb, hmoved⟩ := exists_left_of_forall₂ h.moved (Trip.mem_view.mp hview).1
  refine ⟨?_, h.inside hview, hgps, hplace, hissue⟩
  rw [hmoved.eq_of_noPlace hplace]
  exact hb

theorem grounded_of_used (h : TripKeeps N period checked before trip)
    (hplace : trip.hasPlace place = true) : trip.Grounded place := by
  obtain ⟨p, hp, hplace⟩ := Trip.hasPlace_iff.mp hplace
  exact h.grounded p hp place hplace

theorem canon_of_used (h : TripKeeps N period checked before trip)
    (hplace : trip.hasPlace place = true) : trip.canon place = place := by
  obtain ⟨p, -, hplace⟩ := Trip.hasPlace_iff.mp hplace
  exact h.merges.canon_placeOf hplace

/-! ### Putting a photo into a folder -/

/-- **A grounded folder has coordinates to give.** -/
theorem coordinates (h : TripKeeps N period checked before trip) (hplace : trip.Grounded place) :
    ∃ point, trip.coordinates N photo place = .ok point ∧
      trip.PointFrom checked place point.1 point.2 := by
  unfold Trip.coordinates
  generalize hanchors : ((trip.membersOf place).filter fun p => p.regionOrigin = .exif) = anchors
  have hmem : ∀ a, a ∈ anchors ↔ (a ∈ trip.view ∧ trip.placeOf a = some place) ∧
      a.regionOrigin = .exif := by
    intro a
    rw [← hanchors, List.mem_filter, Trip.mem_membersOf, decide_eq_true_iff]
  dsimp only
  cases hnearest : anchors.argmax fun p => toLex (similarity N p photo, -p.id) with
  | some nearest =>
      obtain ⟨⟨hview, haplace⟩, horigin⟩ := (hmem nearest).mp (List.argmax_mem hnearest)
      exact ⟨_, rfl, .inl ⟨nearest, hview, horigin, haplace, rfl, rfl⟩⟩
  | none =>
      rcases hplace.2 with ⟨a, ha, horigin, haplace⟩ | hnew
      · have hin := (hmem a).mpr ⟨⟨ha, haplace⟩, horigin⟩
        rw [List.argmax_eq_none.mp hnearest] at hin
        cases hin
      · obtain ⟨new, hnew⟩ := Option.isSome_iff_exists.mp hnew
        obtain ⟨c, hc, hlatitude, hlongitude⟩ := h.newChecked place new hnew
        rw [hnew]
        exact ⟨_, rfl, .inr ⟨c, hc, congrArg some hlatitude, congrArg some hlongitude⟩⟩

theorem mem_view_put {point : Option PyFloat × Option PyFloat} :
    q ∈ (trip.put photo place point).view ↔
      ∃ p ∈ trip.view, q = if p.id = photo.id then p.putInto place point.1 point.2 else p := by
  rw [Trip.mem_view]
  change q ∈ updatePhoto photo.id _ trip.photos ∧ q.id ∈ trip.members ↔ _
  rw [mem_updatePhoto]
  constructor
  · rintro ⟨⟨p, hp, rfl⟩, hmember⟩
    refine ⟨p, Trip.mem_view.mpr ⟨hp, ?_⟩, rfl⟩
    split at hmember <;> exact hmember
  · rintro ⟨p, hp, rfl⟩
    obtain ⟨hp, hmember⟩ := Trip.mem_view.mp hp
    refine ⟨⟨p, hp, rfl⟩, ?_⟩
    split <;> exact hmember

section Put

variable {point : Option PyFloat × Option PyFloat} {other : String}

/-- A photo in a folder stays there. -/
theorem mem_view_put_of_placed (h : TripKeeps N period checked before trip)
    (hphoto : photo ∈ trip.view) (hno : photo.placeId = none) (hp : p ∈ trip.view)
    (hplace : trip.placeOf p = some other) : p ∈ (trip.put photo place point).view := by
  refine mem_view_put.mpr ⟨p, hp, ?_⟩
  rw [if_neg]
  intro hid
  obtain rfl := h.eq_of_view hp hphoto hid
  obtain ⟨⟨folder, hfolder, -⟩, -⟩ := Trip.placeOf_eq_some.mp hplace
  rw [(folder?_eq_some.mp hfolder).1] at hno
  cases hno

theorem grounded_put (h : TripKeeps N period checked before trip) (hphoto : photo ∈ trip.view)
    (hno : photo.placeId = none) (hother : trip.Grounded other) :
    (trip.put photo place point).Grounded other := by
  obtain ⟨hne, ⟨a, ha, horigin, haplace⟩ | hnew⟩ := hother
  · exact ⟨hne, .inl ⟨a, h.mem_view_put_of_placed hphoto hno ha haplace, horigin, haplace⟩⟩
  · exact ⟨hne, .inr hnew⟩

theorem pointFrom_put (h : TripKeeps N period checked before trip) (hphoto : photo ∈ trip.view)
    (hno : photo.placeId = none) (hother : trip.PointFrom checked other latitude longitude) :
    (trip.put photo place point).PointFrom checked other latitude longitude := by
  rcases hother with ⟨a, ha, horigin, haplace, hpoint⟩ | hc
  · exact .inl ⟨a, h.mem_view_put_of_placed hphoto hno ha haplace, horigin, haplace, hpoint⟩
  · exact .inr hc

/-- **A target is put into a folder** at a point that the folder or a checked candidate has. -/
theorem put (h : TripKeeps N period checked before trip) (hphoto : photo ∈ trip.targets)
    (hplace : trip.Grounded place) (hcanon : trip.canon place = place)
    (hpoint : trip.PointFrom checked place point.1 point.2) :
    TripKeeps N period checked before (trip.put photo place point) := by
  obtain ⟨-, htarget⟩ := h.isTarget hphoto
  have hno := htarget.noPlace
  have hview := (Trip.mem_targets.mp hphoto).1
  have hkeepGrounded : ∀ other, trip.Grounded other → (trip.put photo place point).Grounded other :=
    fun other => h.grounded_put hview hno
  -- The folder of a photo of the new view: the one it is put into, or that it has.
  have hcases : ∀ q ∈ (trip.put photo place point).view, ∀ other,
      trip.placeOf q = some other → other = place ∧ q = photo.putInto place point.1 point.2 ∨
        q ∈ trip.view := by
    intro q hq other hqplace
    obtain ⟨p, hp, rfl⟩ := mem_view_put.mp hq
    split at hqplace
    · rename_i hid
      obtain rfl := h.eq_of_view hp hview hid
      obtain ⟨⟨folder, hfolder, rfl⟩, -⟩ := Trip.placeOf_eq_some.mp hqplace
      rw [folder?_eq_some.mpr ⟨rfl, hplace.1⟩, Option.some.injEq] at hfolder
      rw [if_pos rfl, ← hfolder]
      exact .inl ⟨hcanon, rfl⟩
    · rename_i hid
      rw [if_neg hid]
      exact .inr hp
  refine ⟨h.folders, ?_, h.members, ⟨h.merges.settled, h.merges.named⟩, ?_, ?_, ?_,
    h.newChecked, ?_⟩
  · have hwrite : List.Forall₂ (fun p q => p ∈ trip.photos ∧
        q = if p.id = photo.id then p.putInto place point.1 point.2 else p) trip.photos
        (trip.put photo place point).photos := forall₂_map _ fun p hp => ⟨hp, rfl⟩
    refine forall₂_trans ?_ h.moved hwrite
    rintro b p q hmoved ⟨hp, rfl⟩
    split
    · rename_i hid
      obtain rfl := eq_of_id h.nodup hp (Trip.mem_view.mp hview).1 hid
      obtain rfl := hmoved.eq_of_noPlace hno
      exact .placed htarget hplace.1
    · exact hmoved
  · intro q hq other hqplace
    rcases hcases q hq other hqplace with ⟨rfl, -⟩ | hq
    · exact hkeepGrounded _ hplace
    · exact hkeepGrounded other (h.grounded q hq other hqplace)
  · exact fun other hother => hkeepGrounded _ (h.mergedGrounded other hother)
  · exact fun other hother => hkeepGrounded _ (h.newGrounded other hother)
  · intro q hq other hqplace
    rcases hcases q hq other hqplace with ⟨rfl, rfl⟩ | hq
    · exact h.pointFrom_put hview hno hpoint
    · exact h.pointFrom_put hview hno (h.origin q hq other hqplace)

/-- **`assign` does not fail** for a folder that can give coordinates, and keeps the trip as it
has to be. -/
theorem assign (h : TripKeeps N period checked before trip) (hphoto : photo ∈ trip.targets)
    (hplace : trip.Grounded (trip.canon place)) :
    ∃ point, trip.assign N photo place = .ok (trip.put photo (trip.canon place) point) ∧
      TripKeeps N period checked before (trip.put photo (trip.canon place) point) := by
  obtain ⟨point, hpoint, hfrom⟩ : ∃ point, trip.coordinates N photo (trip.canon place) = .ok point ∧
      trip.PointFrom checked (trip.canon place) point.1 point.2 := h.coordinates hplace
  refine ⟨point, ?_, h.put hphoto hplace h.merges.canon_canon hfrom⟩
  rw [Trip.assign, hpoint]
  rfl

end Put

/-! ### Opening a folder -/

section New

variable {c : Candidate}

/-- **A folder made for a checked candidate** can give coordinates, as every other one still can. -/
theorem addNewPlace (name : PyStr) (key : String) (h : TripKeeps N period checked before trip)
    (hc : checked c) :
    TripKeeps N period checked before (trip.addNewPlace name c.latitude c.longitude key).2 ∧
    (∀ place, trip.Grounded place →
      (trip.addNewPlace name c.latitude c.longitude key).2.Grounded place) ∧
    (trip.addNewPlace name c.latitude c.longitude key).2.Grounded
      (trip.canon (trip.addNewPlace name c.latitude c.longitude key).1) := by
  unfold Trip.addNewPlace
  split
  · rename_i e he
    have hnew : (trip.newPlaces.get? e.1).isSome = true :=
      Dict.mem_keys_iff.mp (List.mem_map_of_mem (List.mem_of_find?_eq_some he))
    refine ⟨h, fun _ hplace => hplace, ?_⟩
    rw [h.merges.canon_canon]
    exact h.newGrounded e.1 hnew
  · generalize hplace : "n" ++ toString (trip.newPlaces.entries.length + 1) = place
    dsimp only
    generalize htrip' : ({ trip with
      newPlaces := trip.newPlaces.set place ⟨name, c.latitude, c.longitude, key⟩ } : Trip V) = trip'
    have hne : place ≠ "" := by
      rw [← hplace]
      exact fun h => absurd (congrArg String.toList h) (by rw [String.toList_append]; nofun)
    have hget : ∀ other, trip'.newPlaces.get? other =
        if other = place then some ⟨name, c.latitude, c.longitude, key⟩
        else trip.newPlaces.get? other := by
      intro other
      rw [← htrip']
      exact Dict.get?_set
    have hsome : ∀ other, (trip.newPlaces.get? other).isSome = true →
        (trip'.newPlaces.get? other).isSome = true := by
      intro other hother
      rw [hget]
      split
      · rfl
      · exact hother
    have hcanon : trip'.canon = trip.canon := by rw [← htrip']; rfl
    have hplaceOf : trip'.placeOf = trip.placeOf := by rw [← htrip']; rfl
    have hview : trip'.view = trip.view := by rw [← htrip']; rfl
    have hkeep : ∀ other, trip.Grounded other → trip'.Grounded other := by
      rintro other ⟨hother, ⟨a, ha, horigin, haplace⟩ | hnew⟩
      · exact ⟨hother, .inl ⟨a, hview ▸ ha, horigin, hplaceOf ▸ haplace⟩⟩
      · exact ⟨hother, .inr (hsome other hnew)⟩
    have hthis : trip'.Grounded (trip.canon place) := by
      cases hmerged : trip.merged.get? place with
      | none =>
          rw [Trip.canon_of_none hmerged]
          refine ⟨hne, .inr ?_⟩
          rw [hget, if_pos rfl]
          rfl
      | some other => exact hkeep _ (h.mergedGrounded place (by rw [hmerged]; rfl))
    refine ⟨⟨h.folders, ?_, ?_, ?_, ?_, ?_, ?_, ?_, ?_⟩, hkeep, hthis⟩
    · rw [← htrip']
      exact h.moved
    · rw [← htrip']
      exact h.members
    · rw [← htrip']
      exact ⟨h.merges.settled, h.merges.named⟩
    · intro p hp other hother
      exact hkeep other (h.grounded p (hview ▸ hp) other (hplaceOf ▸ hother))
    · intro other hother
      rw [hcanon]
      refine hkeep _ (h.mergedGrounded other ?_)
      rwa [← htrip'] at hother
    · intro other hother
      rw [hcanon]
      rw [hget] at hother
      split at hother
      · rename_i heq
        exact heq ▸ hthis
      · exact hkeep _ (h.newGrounded other hother)
    · intro other new hother
      rw [hget] at hother
      split at hother
      · cases hother
        exact ⟨c, hc, rfl, rfl⟩
      · exact h.newChecked other new hother
    · intro p hp other hother
      rcases h.origin p (hview ▸ hp) other (hplaceOf ▸ hother) with
        ⟨a, ha, horigin, haplace, hpoint⟩ | hc
      · exact .inl ⟨a, hview ▸ ha, horigin, hplaceOf ▸ haplace, hpoint⟩
      · exact .inr hc

end New

/-! ### Merging folders -/

section Merging

variable {other first : String} {group : List String}

theorem grounded_redirect (h : TripKeeps N period checked before trip)
    (hred : trip.Redirects other first) (hplace : trip.Grounded place) :
    (trip.redirect other first).Grounded (Trip.renameTo other first place) := by
  have hmove : ∀ place, trip.Grounded place → place ≠ other →
      (trip.redirect other first).Grounded place := by
    rintro place ⟨hne, ⟨a, ha, horigin, haplace⟩ | hnew⟩ hother
    · refine ⟨hne, .inl ⟨a, ha, horigin, ?_⟩⟩
      rw [Trip.placeOf_redirect h.merges hred haplace, Trip.renameTo_of_ne hother]
    · exact ⟨hne, .inr hnew⟩
  by_cases hother : place = other
  · rw [hother, Trip.renameTo_self]
    exact hmove first (h.grounded_of_used hred.used) hred.ne.symm
  · rw [Trip.renameTo_of_ne hother]
    exact hmove place hplace hother

/-- **A merge keeps the trip as it has to be.** -/
theorem redirect (h : TripKeeps N period checked before trip) (hred : trip.Redirects other first) :
    TripKeeps N period checked before (trip.redirect other first) := by
  refine ⟨h.folders, h.moved, h.members, hred.merges h.merges, ?_, ?_, ?_, h.newChecked, ?_⟩
  · intro p hp place' hplace'
    obtain ⟨place, hplace, rfl⟩ := (Trip.placeOf_redirect_iff h.merges hred).mp hplace'
    exact h.grounded_redirect hred (h.grounded p hp place hplace)
  · intro place hplace
    rw [Trip.canon_redirect h.merges hred]
    change ((trip.merged.set other first).get? place).isSome = true at hplace
    by_cases hother : place = other
    · rw [hother, Trip.canon_of_none hred.otherEnds, Trip.renameTo_self]
      have hfirst := h.grounded_redirect hred (h.grounded_of_used hred.used)
      rwa [Trip.renameTo_of_ne hred.ne.symm] at hfirst
    · rw [Dict.get?_set_ne hother] at hplace
      exact h.grounded_redirect hred (h.mergedGrounded place hplace)
  · intro place hplace
    rw [Trip.canon_redirect h.merges hred]
    exact h.grounded_redirect hred (h.newGrounded place hplace)
  · intro p hp place' hplace'
    obtain ⟨place, hplace, rfl⟩ := (Trip.placeOf_redirect_iff h.merges hred).mp hplace'
    rcases h.origin p hp place hplace with ⟨a, ha, horigin, haplace, hpoint⟩ | hc
    · exact .inl ⟨a, ha, horigin, Trip.placeOf_redirect h.merges hred haplace, hpoint⟩
    · exact .inr hc

/-- A folder that is in use stays in use under the name of what it is merged to. -/
theorem mergeGroups {groups : List (List String)} (h : TripKeeps N period checked before trip)
    (hgroups : ∀ group ∈ groups, ∀ place ∈ group, trip.hasPlace (trip.canon place) = true) :
    TripKeeps N period checked before (groups.foldl Trip.mergeGroup trip) := by
  induction groups generalizing trip with
  | nil => exact h
  | cons group groups ih =>
      obtain ⟨hgroup, hgroups⟩ := List.forall_mem_cons.mp hgroups
      let P := fun trip : Trip V => TripKeeps N period checked before trip ∧
        ∀ group ∈ groups, ∀ place ∈ group, trip.hasPlace (trip.canon place) = true
      have hstep : ∀ trip : Trip V, ∀ other first, trip.Merges → trip.Redirects other first →
          P trip → P (trip.redirect other first) := by
        rintro trip other first hmerges hred ⟨hkeeps, hused⟩
        refine ⟨hkeeps.redirect hred, fun group hgroup place hplace => ?_⟩
        obtain ⟨p, hp, hpplace⟩ := Trip.hasPlace_iff.mp (hused group hgroup place hplace)
        refine Trip.hasPlace_iff.mpr ⟨p, hp, ?_⟩
        rw [Trip.canon_redirect hmerges hred]
        exact Trip.placeOf_redirect hmerges hred hpplace
      obtain ⟨⟨hkeeps, hused⟩, -⟩ := Trip.mergeGroup_preserves h.merges hstep hgroup ⟨h, hgroups⟩
      exact ih hkeeps hused

end Merging

end TripKeeps

/-! ### What the step leaves -/

/-- **What the agent leaves of the photos it started from.** Folders are renamed, and two
photos in one folder stay together. Else only targets change: they are put into folders, with
an inferred point that is that of a GPS photo of the folder or of a checked candidate. -/
structure AgentKeeps (N : Numerics V) (period : Period) (checked : Candidate → Prop)
    (before after : List (PhotoState V)) : Prop where
  frame : ∃ rename : String → String, List.Forall₂ (fun p q => q = p.renamed rename ∨
    IsTarget N period p ∧ ∃ place latitude longitude, q = p.putInto place latitude longitude)
    before after
  gps : ∀ pair ∈ before.zip after, pair.1.source.hasGps = true →
    pair.2.regionOrigin = .exif ∧ pair.1.regionOrigin = .exif ∧
      pair.2.latitude = pair.1.latitude ∧ pair.2.longitude = pair.1.longitude
  together : ∀ pair ∈ before.zip after, ∀ pair' ∈ before.zip after, ∀ place,
    pair.1.folder? = some place → pair'.1.folder? = some place →
      ∃ place', pair.2.folder? = some place' ∧ pair'.2.folder? = some place'
  placed : ∀ pair ∈ before.zip after, ∀ place, IsTarget N period pair.1 →
    pair.2.placeId = some place → pair.2.regionOrigin = .inferred ∧
      ((∃ a ∈ after, a.regionOrigin = .exif ∧ a.placeId = some place ∧
          pair.2.latitude = a.latitude ∧ pair.2.longitude = a.longitude) ∨
        ∃ c, checked c ∧ pair.2.latitude = some c.latitude ∧ pair.2.longitude = some c.longitude)

namespace TripKeeps

variable {f : String → String}

/-- A photo outside the view has no folder, so writing to the view writes to all photos. -/
theorem mapFolders_photos (h : TripKeeps N period checked before trip) :
    (trip.mapFolders f).photos = trip.photos.map fun p => p.renamed f := by
  apply List.map_congr_left
  intro p hp
  by_cases hmember : p.id ∈ trip.members
  · rw [if_pos hmember]
  · obtain ⟨b, hb, hmoved⟩ := exists_left_of_forall₂ h.moved hp
    rw [if_neg hmember, Trip.renamed_of_none]
    have houtside : inPeriod N period b ≠ .ok true :=
      fun hin => hmember (hmoved.id_eq ▸ (h.members b hb).mpr hin)
    cases hmoved with
    | same =>
        cases hfolder : p.folder? with
        | none => rfl
        | some place => exact absurd (h.folders.inside p hb place hfolder) houtside
    | placed htarget => exact absurd htarget.inside houtside

/-- **Renaming folders keeps what has to be kept**, if those merged into one get one name. -/
theorem agentKeeps (h : TripKeeps N period checked before trip)
    (hname : ∀ place, place ≠ "" → f place ≠ "")
    (hcanon : ∀ place place', trip.canon place = trip.canon place' → f place = f place') :
    AgentKeeps N period checked before (trip.mapFolders f).photos := by
  rw [h.mapFolders_photos]
  generalize hafter : (trip.photos.map fun p => p.renamed f) = after
  have hmoved : List.Forall₂ (fun b q => b ∈ before ∧ ∃ p ∈ trip.photos, Moved N period b p ∧
      q = p.renamed f) before after := by
    have hwrite : List.Forall₂ (fun p q => q = p.renamed f) trip.photos after :=
      hafter ▸ forall₂_map _ fun _ _ => rfl
    exact forall₂_trans (fun b p q hb hq => ⟨hb.2.1, p, hb.2.2, hb.1, hq⟩)
      (forall₂_mem h.moved) hwrite
  have hpair : ∀ pair ∈ before.zip after, pair.1 ∈ before ∧ ∃ p ∈ trip.photos,
      Moved N period pair.1 p ∧ pair.2 = p.renamed f :=
    fun pair hpair => (List.forall₂_iff_zip.mp hmoved).2 hpair
  have hput : ∀ {p : PhotoState V} {place : String} {latitude longitude : Option PyFloat},
      place ≠ "" → (p.putInto place latitude longitude).renamed f =
        p.putInto (f place) latitude longitude := by
    intro p place latitude longitude hne
    rw [Trip.renamed_of_some (folder?_eq_some.mpr ⟨rfl, hne⟩)]
    rfl
  refine ⟨⟨f, hmoved.imp ?_⟩, ?_, ?_, ?_⟩
  · rintro b q ⟨-, p, -, hmoved, rfl⟩
    cases hmoved with
    | same => exact .inl rfl
    | placed htarget hne => exact .inr ⟨htarget, _, _, _, hput hne⟩
  · intro pair hmem hgps
    obtain ⟨hb, p, -, hmoved, hq⟩ := hpair pair hmem
    have horigin := ((h.folders.sourced _ hb).gps hgps).1
    cases hmoved with
    | same =>
        obtain ⟨hsame, hlatitude, hlongitude⟩ := Trip.origin_renamed (p := pair.1) (f := f)
        rw [hq, hsame]
        exact ⟨horigin, horigin, hlatitude, hlongitude⟩
    | placed htarget => cases hgps.symm.trans htarget.noGps
  · intro pair hmem pair' hmem' place hplace hplace'
    have hfolder : ∀ pair ∈ before.zip after, pair.1.folder? = some place →
        pair.2.folder? = some (f place) := by
      intro pair hmem hplace
      obtain ⟨-, p, -, hmoved, hq⟩ := hpair pair hmem
      cases hmoved with
      | same =>
          rw [hq]
          exact Trip.folder?_renamed (hname place (folder?_eq_some.mp hplace).2) hplace
      | placed htarget =>
          rw [htarget.noFolder] at hplace
          cases hplace
    exact ⟨f place, hfolder pair hmem hplace, hfolder pair' hmem' hplace'⟩
  · intro pair hmem place htarget hplace
    obtain ⟨hb, p, hp, hmoved, hq⟩ := hpair pair hmem
    cases hmoved with
    | same =>
        rw [hq, Trip.renamed_of_none htarget.noFolder, htarget.noPlace] at hplace
        cases hplace
    | @placed place₀ latitude longitude _ hne =>
        rw [hput hne] at hq
        rw [hq] at hplace ⊢
        obtain rfl : f place₀ = place := Option.some.inj hplace
        refine ⟨rfl, ?_⟩
        have hview : pair.1.putInto place₀ latitude longitude ∈ trip.view :=
          Trip.mem_view.mpr ⟨hp, (h.members _ hb).mpr htarget.inside⟩
        have hplaceOf : trip.placeOf (pair.1.putInto place₀ latitude longitude) =
            some (trip.canon place₀) :=
          Trip.placeOf_eq_some.mpr ⟨⟨place₀, folder?_eq_some.mpr ⟨rfl, hne⟩, rfl⟩,
            h.merges.named place₀ hne⟩
        rcases h.origin _ hview _ hplaceOf with ⟨a, ha, horigin, haplace, hlatitude, hlongitude⟩ |
          ⟨c, hc, hlatitude, hlongitude⟩
        · obtain ⟨⟨folder, hfolder, hsame⟩, -⟩ := Trip.placeOf_eq_some.mp haplace
          obtain ⟨hexif, halatitude, halongitude⟩ := Trip.origin_renamed (p := a) (f := f)
          refine .inl ⟨a.renamed f, ?_, hexif.trans horigin, ?_, ?_, ?_⟩
          · rw [← hafter]
            exact List.mem_map_of_mem (Trip.mem_view.mp ha).1
          · rw [Trip.renamed_of_some hfolder, ← hcanon folder place₀ hsame]
          · exact hlatitude.symm.trans halatitude.symm
          · exact hlongitude.symm.trans halongitude.symm
        · exact .inr ⟨c, hc, hlatitude.symm, hlongitude.symm⟩

/-- **What `finish` leaves.** -/
theorem finish (h : TripKeeps N period checked before trip) :
    AgentKeeps N period checked before trip.finish.photos := by
  obtain ⟨number, hnumber, hfinish⟩ := Trip.finish_eq h.merges
  rw [hfinish]
  refine h.agentKeeps (fun place _ => hnumber _) fun place place' heq => ?_
  rw [Function.comp_apply, Function.comp_apply, heq]

end TripKeeps

end Yeodam.Pipeline
