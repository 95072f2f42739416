/-
The trip the agent works on (`app/pipeline/agent/trip.py`): the photos in the period, the
places it added and the folders it merged.

`Trip.assign` puts a photo into a folder, `Trip.addNewPlace` opens one and `Trip.finish`
writes the merges to the photos and numbers the folders anew. `releaseUnshowableNewPlaces`
takes the photos out of a folder the agent made that has nothing to show.

Following the merges ends (`Trip.Merges`): a merge redirects one folder that is not merged to
another one, so it renames folders (`canon_redirect`).
-/

import Mathlib.Data.List.MinMax
import Mathlib.Data.Prod.Lex
import Yeodam.Lib.Dict
import Yeodam.Pipeline.State

namespace Yeodam.Pipeline

open Yeodam.Lib Yeodam.Schemas
open scoped IntKeys

variable {V : Type} (N : Numerics V)

structure NewPlace where
  name : PyStr
  latitude : PyFloat
  longitude : PyFloat
  candidateId : String

/-- `TripView`. -/
structure Trip (V : Type) where
  /-- All photos of the request. -/
  photos : List (PhotoState V)
  /-- The photos in the period: `self.photos`, by id. -/
  members : List Int
  fallbackCenter : PyFloat × PyFloat
  /-- In the order they were made. -/
  newPlaces : Dict String NewPlace := ∅
  merged : Dict String String := ∅

/-- The photo with its folder renamed, if it is in one. -/
def PhotoState.renamed (f : String → String) (p : PhotoState V) : PhotoState V :=
  match p.folder? with
  | some place => { p with placeId := some (f place) }
  | none => p

/-- `photo_ref`. -/
def photoRef (p : PhotoState V) : String := "S" ++ toString p.id

namespace Trip

/-- `TripView(photos, request)`. -/
def make (photos : List (PhotoState V)) (request : ProcessRequest) : Except Raised (Trip V) := do
  let inside ← filterOk (inPeriod N request.period) photos
  match request.regions with
  | [] => .error .other
  | first :: _ =>
      return { photos := photos, members := inside.map PhotoState.id,
               fallbackCenter := (first.latitude, first.longitude) }

variable (trip : Trip V)

/-- `self.photos`. -/
def view : List (PhotoState V) := byId (trip.photos.filter fun p => p.id ∈ trip.members)

/-- Follow `merged` for at most so many steps. -/
def follow (merged : Dict String String) : Nat → String → String
  | 0, place => place
  | n + 1, place =>
      match merged.get? place with
      | some next => follow merged n next
      | none => place

/-- `canon`. The fuel is the number of merges: no chain of an acyclic map is longer. -/
def canon (place : String) : String := follow trip.merged trip.merged.entries.length place

/-- `place_of`, where it is true. -/
def placeOf (p : PhotoState V) : Option String :=
  (p.folder?.map trip.canon).filter fun place => place ≠ ""

/-- `places()`: the photos of each folder. -/
def places : List (String × List (PhotoState V)) :=
  groupOn Prod.fst (trip.view.filterMap fun p => (trip.placeOf p).map fun place => (place, p))
    |>.map fun g => (g.1, g.2.map Prod.snd)

/-- `place in self.places()`. -/
def hasPlace (place : String) : Bool := trip.view.any fun p => trip.placeOf p = some place

/-- `self.places().get(place, [])`. -/
def membersOf (place : String) : List (PhotoState V) :=
  trip.view.filter fun p => trip.placeOf p = some place

/-- `targets()`. -/
def targets : List (PhotoState V) :=
  trip.view.filter fun p =>
    p.placeId.isNone && p.issue = some .unclearLocation && !p.source.hasGps

/-! ### Changes -/

/-- The coordinates a photo gets in a folder: those of the GPS photo it resembles most, the
smaller id first, or those of the candidate the folder was made for. -/
def coordinates (photo : PhotoState V) (place : String) :
    Except Raised (Option PyFloat × Option PyFloat) :=
  let anchors := (trip.membersOf place).filter fun p => p.regionOrigin = .exif
  match anchors.argmax fun p => toLex (similarity N p photo, -p.id) with
  | some nearest => .ok (nearest.latitude, nearest.longitude)
  | none =>
      match trip.newPlaces.get? place with
      | some new => .ok (some new.latitude, some new.longitude)
      | none => fail ("폴더 " ++ place ++ "에 좌표를 줄 사진이 없음")

/-- Write to one photo that it is in a folder, at a point. -/
def put (photo : PhotoState V) (place : String)
    (point : Option PyFloat × Option PyFloat) : Trip V :=
  { trip with
    photos := updatePhoto photo.id (PhotoState.putInto place point.1 point.2) trip.photos }

/-- `assign`. -/
def assign (photo : PhotoState V) (place : String) : Except Raised (Trip V) := do
  let point ← trip.coordinates N photo (trip.canon place)
  return trip.put photo (trip.canon place) point

/-- `add_new_place`. -/
def addNewPlace (name : PyStr) (latitude longitude : PyFloat) (candidateId : String) :
    String × Trip V :=
  match trip.newPlaces.entries.find? fun e => e.2.candidateId = candidateId with
  | some e => (trip.canon e.1, trip)
  | none =>
      let place := "n" ++ toString (trip.newPlaces.entries.length + 1)
      (place, { trip with
        newPlaces := trip.newPlaces.set place ⟨name, latitude, longitude, candidateId⟩ })

/-- `self.merged[other] = first` -/
def redirect (other first : String) : Trip V :=
  { trip with merged := trip.merged.set other first }

/-- Merge the folders of one group into its first. -/
def mergeGroup (group : List String) : Trip V :=
  match group.map trip.canon with
  | [] => trip
  | first :: others =>
      others.foldl (fun trip other =>
        if other ≠ trip.canon first then trip.redirect other (trip.canon first) else trip) trip

/-! ### The end of the step -/

/-- The number in a place id: `_place_order(place)[1]`. -/
def placeNumber (place : String) : Nat :=
  let digits := place.toList.drop 1
  if digits ≠ [] ∧ digits.all Char.isDigit then
    digits.foldl (fun n c => 10 * n + (c.toNat - 48)) 0
  else 0

/-- Write to the photos of the view that have a folder. -/
def mapFolders (f : String → String) : Trip V :=
  { trip with
    photos := trip.photos.map fun p => if p.id ∈ trip.members then p.renamed f else p }

/-- The folders in use: first those of CLUSTERING by number, then the new ones. -/
def usedPlaces : List String :=
  sortOn (fun place => toLex ((trip.newPlaces.get? place).isSome, placeNumber place))
    (trip.view.filterMap PhotoState.folder?).eraseDups

/-- `finish`. -/
def finish : Trip V :=
  let canonical := trip.mapFolders trip.canon
  canonical.mapFolders fun place => "p" ++ toString (canonical.usedPlaces.idxOf place + 1)

/-! ### Photos and folders -/

section Folders

variable {trip} {p q : PhotoState V} {place place' other first : String}
  {merged : Dict String String}

theorem mem_view : p ∈ trip.view ↔ p ∈ trip.photos ∧ p.id ∈ trip.members := by
  simp [view]

theorem mem_membersOf : p ∈ trip.membersOf place ↔ p ∈ trip.view ∧ trip.placeOf p = some place := by
  simp [membersOf]

theorem hasPlace_iff :
    trip.hasPlace place = true ↔ ∃ p ∈ trip.view, trip.placeOf p = some place := by
  simp [hasPlace]

theorem mem_targets : p ∈ trip.targets ↔ p ∈ trip.view ∧ p.placeId = none ∧
    p.issue = some .unclearLocation ∧ p.source.hasGps = false := by
  simp [targets, and_assoc]

theorem placeOf_eq_some :
    trip.placeOf p = some place ↔ (∃ folder, p.folder? = some folder ∧ trip.canon folder = place) ∧
      place ≠ "" := by
  rw [placeOf, Option.filter_eq_some_iff, Option.map_eq_some_iff]
  simp

/-- The entries of `places()`. -/
theorem mem_places {entry : String × List (PhotoState V)} (h : entry ∈ trip.places) :
    p ∈ entry.2 ↔ p ∈ trip.view ∧ trip.placeOf p = some entry.1 := by
  obtain ⟨g, hg, rfl⟩ := List.mem_map.mp h
  dsimp only
  have hmem : ∀ x ∈ g.2, x ∈ trip.view.filterMap
      (fun p => (trip.placeOf p).map fun place => (place, p)) ∧ x.1 = g.1 := fun x =>
    (mem_of_mem_groupOn hg).mp
  constructor
  · intro hp
    obtain ⟨⟨place, q⟩, hx, rfl⟩ := List.mem_map.mp hp
    obtain ⟨hx, hplace⟩ := hmem _ hx
    obtain ⟨r, hr, hrplace⟩ := List.mem_filterMap.mp hx
    obtain ⟨place', hplace', heq⟩ := Option.map_eq_some_iff.mp hrplace
    cases heq
    exact ⟨hr, hplace'.trans (congrArg some hplace)⟩
  · rintro ⟨hp, hplace⟩
    have hx : (g.1, p) ∈ trip.view.filterMap
        fun p => (trip.placeOf p).map fun place => (place, p) := by
      refine List.mem_filterMap.mpr ⟨p, hp, ?_⟩
      rw [hplace]
      rfl
    exact List.mem_map.mpr ⟨(g.1, p), (mem_of_mem_groupOn hg).mpr ⟨hx, rfl⟩, rfl⟩

/-! ### Following merges -/

theorem follow_of_none {n : Nat} (h : merged.get? place = none) :
    follow merged n place = place := by
  cases n with
  | zero => rfl
  | succ n => rw [follow, h]

/-- What a merge makes of a folder that is not merged. -/
def renameTo (other first place : String) : String := if place = other then first else place

theorem renameTo_self : renameTo other first other = first := if_pos rfl

theorem renameTo_of_ne (h : place ≠ other) : renameTo other first place = place := if_neg h

/-- One merge more takes one step more: the path is as before, and where it ended at the folder
merged it goes on to the other one. -/
theorem follow_set (hother : merged.get? other = none) (hfirst : merged.get? first = none)
    (hne : other ≠ first) {n : Nat} (hend : merged.get? (follow merged n place) = none) :
    follow (merged.set other first) (n + 1) place =
      renameTo other first (follow merged n place) := by
  have hfirst' : (merged.set other first).get? first = none := by
    rw [Dict.get?_set_ne hne.symm, hfirst]
  induction n generalizing place with
  | zero =>
      change merged.get? place = none at hend
      change follow (merged.set other first) 1 place = renameTo other first place
      by_cases hplace : place = other
      · rw [hplace, renameTo_self, follow, Dict.get?_set_self]
        rfl
      · rw [renameTo_of_ne hplace, follow_of_none]
        rw [Dict.get?_set_ne hplace, hend]
  | succ n ih =>
      cases hnext : merged.get? place with
      | none =>
          rw [follow_of_none hnext]
          by_cases hplace : place = other
          · rw [hplace, renameTo_self, follow, Dict.get?_set_self]
            exact follow_of_none hfirst'
          · rw [renameTo_of_ne hplace, follow_of_none]
            rw [Dict.get?_set_ne hplace, hnext]
      | some next =>
          have hplace : place ≠ other := by
            rintro rfl
            rw [hother] at hnext
            cases hnext
          have hstep : follow merged (n + 1) place = follow merged n next := by rw [follow, hnext]
          rw [hstep] at hend ⊢
          rw [follow, Dict.get?_set_ne hplace, hnext]
          exact ih hend

/-- Every path through the merges ends at a folder with a name that is not merged. -/
structure Merges (trip : Trip V) : Prop where
  settled : ∀ place, trip.merged.get? (trip.canon place) = none
  named : ∀ place, place ≠ "" → trip.canon place ≠ ""

theorem canon_of_none (h : trip.merged.get? place = none) : trip.canon place = place :=
  follow_of_none h

theorem Merges.canon_canon (h : trip.Merges) : trip.canon (trip.canon place) = trip.canon place :=
  canon_of_none (h.settled place)

theorem Merges.canon_placeOf (h : trip.Merges) (hplace : trip.placeOf p = some place) :
    trip.canon place = place := by
  obtain ⟨⟨folder, -, rfl⟩, -⟩ := placeOf_eq_some.mp hplace
  exact h.canon_canon

theorem merges_empty (h : trip.merged = ∅) : trip.Merges := by
  have hcanon : ∀ place, trip.canon place = place := fun place =>
    canon_of_none (by rw [h, Dict.get?_empty])
  constructor
  · intro place
    rw [h, Dict.get?_empty]
  · intro place hplace
    rwa [hcanon]

/-- The two folders of a merge: both are in use. -/
structure Redirects (trip : Trip V) (other first : String) : Prop where
  otherEnds : trip.merged.get? other = none
  firstEnds : trip.merged.get? first = none
  ne : other ≠ first
  used : trip.hasPlace first = true

/-- **A merge renames folders.** -/
theorem canon_redirect (hmerges : trip.Merges) (h : trip.Redirects other first) :
    (trip.redirect other first).canon place = renameTo other first (trip.canon place) := by
  have hlength : (trip.redirect other first).merged.entries.length =
      trip.merged.entries.length + 1 := Dict.length_set_of_absent h.otherEnds
  rw [canon, hlength]
  exact follow_set h.otherEnds h.firstEnds h.ne (hmerges.settled place)

theorem renameTo_ne_empty (hfirst : first ≠ "") (hplace : place ≠ "") :
    renameTo other first place ≠ "" := by
  unfold renameTo
  split
  · exact hfirst
  · exact hplace

theorem ne_empty_of_hasPlace (h : trip.hasPlace place = true) : place ≠ "" := by
  obtain ⟨p, -, hplace⟩ := hasPlace_iff.mp h
  exact (placeOf_eq_some.mp hplace).2

theorem Redirects.merges (h : trip.Redirects other first) (hmerges : trip.Merges) :
    (trip.redirect other first).Merges := by
  constructor
  · intro place
    rw [canon_redirect hmerges h]
    change (trip.merged.set other first).get? _ = none
    unfold renameTo
    split
    · rw [Dict.get?_set_ne h.ne.symm, h.firstEnds]
    · rename_i hne
      rw [Dict.get?_set_ne hne, hmerges.settled]
  · intro place hplace
    rw [canon_redirect hmerges h]
    exact renameTo_ne_empty (ne_empty_of_hasPlace h.used) (hmerges.named place hplace)

theorem placeOf_redirect (hmerges : trip.Merges) (h : trip.Redirects other first)
    (hplace : trip.placeOf p = some place) :
    (trip.redirect other first).placeOf p = some (renameTo other first place) := by
  obtain ⟨⟨folder, hfolder, rfl⟩, hne⟩ := placeOf_eq_some.mp hplace
  exact placeOf_eq_some.mpr ⟨⟨folder, hfolder, canon_redirect hmerges h⟩,
    renameTo_ne_empty (ne_empty_of_hasPlace h.used) hne⟩

theorem placeOf_redirect_iff (hmerges : trip.Merges) (h : trip.Redirects other first) :
    (trip.redirect other first).placeOf p = some place' ↔
      ∃ place, trip.placeOf p = some place ∧ renameTo other first place = place' := by
  constructor
  · intro hplace
    obtain ⟨⟨folder, hfolder, hcanon⟩, hne⟩ := placeOf_eq_some.mp hplace
    rw [canon_redirect hmerges h] at hcanon
    refine ⟨trip.canon folder, placeOf_eq_some.mpr ⟨⟨folder, hfolder, rfl⟩, ?_⟩, hcanon⟩
    exact hmerges.named folder (folder?_eq_some.mp hfolder).2
  · rintro ⟨place, hplace, rfl⟩
    exact placeOf_redirect hmerges h hplace

/-- **What merges of used folders preserve, a group preserves.** -/
theorem mergeGroup_preserves {P : Trip V → Prop} {group : List String} (hmerges : trip.Merges)
    (hredirect : ∀ trip : Trip V, ∀ other first, trip.Merges → trip.Redirects other first → P trip →
      P (trip.redirect other first))
    (hgroup : ∀ place ∈ group, trip.hasPlace (trip.canon place) = true) (hP : P trip) :
    P (trip.mergeGroup group) ∧ (trip.mergeGroup group).Merges := by
  unfold mergeGroup
  cases group with
  | nil => exact ⟨hP, hmerges⟩
  | cons x xs =>
      rw [List.map_cons]
      dsimp only
      have hfirst := hmerges.settled x
      have hused := hgroup x List.mem_cons_self
      have hothers : ∀ other ∈ xs.map trip.canon, trip.merged.get? other = none ∨
          trip.merged.get? other = some (trip.canon x) := by
        intro other hother
        obtain ⟨y, -, rfl⟩ := List.mem_map.mp hother
        exact .inl (hmerges.settled y)
      generalize trip.canon x = first at hfirst hused hothers
      generalize xs.map trip.canon = others at hothers
      clear hgroup
      induction others generalizing trip with
      | nil => exact ⟨hP, hmerges⟩
      | cons other others ih =>
          obtain ⟨hother, hothers⟩ := List.forall_mem_cons.mp hothers
          rw [List.foldl_cons, canon_of_none hfirst]
          by_cases hne : other ≠ first
          · rw [if_pos hne]
            rcases hother with hother | hother
            · have hred : trip.Redirects other first := ⟨hother, hfirst, hne, hused⟩
              obtain ⟨p, hp, hplace⟩ := hasPlace_iff.mp hused
              have hsame : renameTo other first first = first := renameTo_of_ne hne.symm
              refine ih (hred.merges hmerges) (hredirect trip other first hmerges hred hP) ?_ ?_ ?_
              · change (trip.merged.set other first).get? first = none
                rw [Dict.get?_set_ne hne.symm, hfirst]
              · refine hasPlace_iff.mpr ⟨p, hp, ?_⟩
                rw [placeOf_redirect hmerges hred hplace, hsame]
              · intro y hy
                change (trip.merged.set other first).get? y = none ∨
                  (trip.merged.set other first).get? y = some first
                rw [Dict.get?_set]
                split
                · exact .inr rfl
                · exact hothers y hy
            · -- Merged by an earlier round already: the entry is written once more.
              have hsame : trip.redirect other first = trip := by
                rw [redirect, Dict.set_of_get? hother]
              rw [hsame]
              exact ih hmerges hP hfirst hused hothers
          · rw [if_neg hne]
            exact ih hmerges hP hfirst hused hothers

/-! ### The folders numbered anew -/

variable {f g : String → String}

theorem id_renamed : (p.renamed f).id = p.id := by
  unfold PhotoState.renamed
  split <;> rfl

theorem renamed_of_none (h : p.folder? = none) : p.renamed f = p := by
  rw [PhotoState.renamed, h]

theorem renamed_of_some (h : p.folder? = some place) :
    p.renamed f = { p with placeId := some (f place) } := by
  rw [PhotoState.renamed, h]

theorem folder?_renamed (hf : f place ≠ "") (h : p.folder? = some place) :
    (p.renamed f).folder? = some (f place) := by
  rw [renamed_of_some h]
  exact folder?_eq_some.mpr ⟨rfl, hf⟩

theorem origin_renamed : (p.renamed f).regionOrigin = p.regionOrigin ∧
    (p.renamed f).latitude = p.latitude ∧ (p.renamed f).longitude = p.longitude := by
  unfold PhotoState.renamed
  split <;> exact ⟨rfl, rfl, rfl⟩

theorem renamed_id : p.renamed id = p := by
  cases h : p.folder? with
  | none => exact renamed_of_none h
  | some place =>
      rw [renamed_of_some h, id, ← (folder?_eq_some.mp h).1]

theorem renamed_renamed (hf : ∀ place, place ≠ "" → f place ≠ "") :
    (p.renamed f).renamed g = p.renamed (g ∘ f) := by
  cases h : p.folder? with
  | none => rw [renamed_of_none h, renamed_of_none h, renamed_of_none h]
  | some place =>
      have hne := hf place (folder?_eq_some.mp h).2
      rw [renamed_of_some (folder?_renamed hne h), renamed_of_some h, renamed_of_some h]
      rfl

theorem mapFolders_mapFolders (hf : ∀ place, place ≠ "" → f place ≠ "") :
    (trip.mapFolders f).mapFolders g = trip.mapFolders (g ∘ f) := by
  have hphotos : (trip.photos.map fun p => if p.id ∈ trip.members then p.renamed f else p).map
      (fun p : PhotoState V => if p.id ∈ trip.members then p.renamed g else p) =
      trip.photos.map fun p => if p.id ∈ trip.members then p.renamed (g ∘ f) else p := by
    rw [List.map_map]
    apply List.map_congr_left
    intro p _
    simp only [Function.comp_apply]
    by_cases hmember : p.id ∈ trip.members
    · rw [if_pos hmember, if_pos hmember, id_renamed, if_pos hmember]
      exact renamed_renamed hf
    · rw [if_neg hmember, if_neg hmember, if_neg hmember]
  rw [mapFolders, mapFolders, mapFolders, ← hphotos]

/-- **`finish` renames folders**, those merged into one alike. -/
theorem finish_eq (h : trip.Merges) : ∃ number : String → String, (∀ place, number place ≠ "") ∧
    trip.finish = trip.mapFolders (number ∘ trip.canon) := by
  refine ⟨fun place => "p" ++ toString ((trip.mapFolders trip.canon).usedPlaces.idxOf place + 1),
    fun place heq => ?_, mapFolders_mapFolders h.named⟩
  have hlist := congrArg String.toList heq
  rw [String.toList_append] at hlist
  cases hlist

end Folders

end Trip

/-! ### Folders with nothing to show -/

/-- No photo of the folder has GPS or is kept. -/
def unshowable (photos : List (PhotoState V)) (place : String) : Bool :=
  photos.all fun p => p.folder? ≠ some place || (p.regionOrigin ≠ .exif && p.issue.isSome)

/-- The photo is in a folder with nothing to show. -/
def isReleased (photos : List (PhotoState V)) (p : PhotoState V) : Bool :=
  p.folder?.any (unshowable photos)

/-- `release_unshowable_new_places`: the photos, and the ids of those released. -/
def releaseUnshowableNewPlaces (photos : List (PhotoState V)) : List (PhotoState V) × List Int :=
  (photos.map fun p =>
      if isReleased photos p then
        { p with placeId := none, latitude := none, longitude := none, regionOrigin := .unknown }
      else p,
    ((photos.filter (isReleased photos)).map PhotoState.id).insertionSort (· ≤ ·))

end Yeodam.Pipeline
