/-
The folders numbered anew (`TripView.finish` in `app/pipeline/agent/trip.py`).

Photos name folders by ids that the merges redirect; `finish` replaces each by a new one, in
one name space with the old. `Numbered` is what every trip the agent comes to keeps of the
names: those of CLUSTERING are `p1` to `pm` and stay in use, those of new places are `n1`,
`n2`, … as they were made, and the merges lead to such names. So the number in an id orders
the folders in use without ties, and their places in that order are a renaming
(`Trip.Renumbered`).
-/

import Mathlib.Data.Set.Function
import Yeodam.Lib.Permuted
import Yeodam.Pipeline.Merging

namespace Yeodam.Pipeline

open Yeodam.Lib Yeodam.Schemas

variable {V : Type} {N : Numerics V} {py : Python} {prompts : Prompts V} {start trip trip' : Trip V}
  {p q : PhotoState V} {place folder : String} {f : String → String} {m i j : Nat}

/-! ### Names -/

/-- A folder of CLUSTERING, and one of the result. -/
def clusterId (k : Nat) : String := "p" ++ toString k

/-- A folder the agent opened. -/
def newId (k : Nat) : String := "n" ++ toString k

/-- The digits of a number are read back. -/
theorem placeNumber_append {letter : String} (hletter : letter.toList.length = 1) (k : Nat) :
    Trip.placeNumber (letter ++ toString k) = k := by
  have hdrop : (letter ++ toString k).toList.drop 1 = Nat.toDigits 10 k := by
    have hrepr : (toString k).toList = Nat.toDigits 10 k := Nat.toList_repr
    rw [String.toList_append, ← hletter, List.drop_left, hrepr]
  unfold Trip.placeNumber
  rw [hdrop]
  dsimp only
  rw [if_pos]
  · exact Nat.ofDigitChars_ten_toDigits
  · refine ⟨?_, List.all_eq_true.mpr fun c hc => ?_⟩
    · exact Nat.toDigits_ne_nil
    · exact Nat.isDigit_of_mem_toDigits (by decide) (by decide) hc

@[simp] theorem placeNumber_clusterId (k : Nat) : Trip.placeNumber (clusterId k) = k :=
  placeNumber_append rfl k

@[simp] theorem placeNumber_newId (k : Nat) : Trip.placeNumber (newId k) = k :=
  placeNumber_append rfl k

theorem clusterId_injective : Function.Injective clusterId := fun i j h => by
  have hnumber := congrArg Trip.placeNumber h
  rwa [placeNumber_clusterId, placeNumber_clusterId] at hnumber

theorem newId_injective : Function.Injective newId := fun i j h => by
  have hnumber := congrArg Trip.placeNumber h
  rwa [placeNumber_newId, placeNumber_newId] at hnumber

theorem clusterId_ne_newId : clusterId i ≠ newId j := by
  intro h
  have hlist := congrArg (fun s => s.toList.head?) h
  simp [clusterId, newId, String.toList_append] at hlist

theorem clusterId_ne_empty (k : Nat) : clusterId k ≠ "" := by
  intro h
  have hlist := congrArg String.toList h
  rw [clusterId, String.toList_append] at hlist
  cases hlist

namespace Trip

/-! ### The names of a trip -/

/-- A folder of CLUSTERING, or one that was opened. -/
def Known (trip : Trip V) (m : Nat) (place : String) : Prop :=
  (∃ k, 1 ≤ k ∧ k ≤ m ∧ place = clusterId k) ∨ (trip.newPlaces.get? place).isSome = true

/-- **What the names of a trip keep**, of a clustering with the folders `p1` to `pm`. -/
structure Numbered (m : Nat) (trip : Trip V) : Prop where
  nodup : (trip.photos.map PhotoState.id).Nodup
  merges : trip.Merges
  opened : trip.newPlaces.entries.map Prod.fst =
    (List.range trip.newPlaces.entries.length).map fun i => newId (i + 1)
  folders : ∀ p ∈ trip.view, ∀ folder, p.folder? = some folder → trip.Known m folder
  merged : ∀ place next, trip.merged.get? place = some next → trip.Known m next
  covered : ∀ k, 1 ≤ k → k ≤ m → ∃ p ∈ trip.view, p.folder? = some (clusterId k)

/-- The trip as CLUSTERING left it: its folders are those of the photos in the period. -/
structure Clustered (m : Nat) (start : Trip V) : Prop where
  nodup : (start.photos.map PhotoState.id).Nodup
  unmerged : start.merged = ∅
  unopened : start.newPlaces = ∅
  folders : ∀ place, (∃ p ∈ start.view, p.folder? = some place) ↔
    ∃ k, 1 ≤ k ∧ k ≤ m ∧ place = clusterId k

theorem Clustered.numbered (h : start.Clustered m) : start.Numbered m where
  nodup := h.nodup
  merges := merges_empty h.unmerged
  opened := by
    rw [h.unopened]
    rfl
  folders := fun p hp folder hfolder => .inl ((h.folders folder).mp ⟨p, hp, hfolder⟩)
  merged := by
    intro place next hnext
    rw [h.unmerged, Dict.get?_empty] at hnext
    cases hnext
  covered := fun k hk hkm => (h.folders (clusterId k)).mpr ⟨k, hk, hkm, rfl⟩

/-- Followed merges lead to a name that is known. -/
theorem Numbered.known_canon (h : trip.Numbered m) (hplace : trip.Known m place) :
    trip.Known m (trip.canon place) := by
  have hfollow : ∀ n place, trip.Known m place → trip.Known m (follow trip.merged n place) := by
    intro n
    induction n with
    | zero => exact fun place hplace => hplace
    | succ n ih =>
        intro place hplace
        rw [follow]
        split
        · rename_i next hnext
          exact ih next (h.merged place next hnext)
        · exact hplace
  exact hfollow _ place hplace

theorem Numbered.known_of_used (h : trip.Numbered m) (hplace : trip.hasPlace place = true) :
    trip.Known m place := by
  obtain ⟨p, hp, hplace⟩ := hasPlace_iff.mp hplace
  obtain ⟨⟨folder, hfolder, rfl⟩, -⟩ := placeOf_eq_some.mp hplace
  exact h.known_canon (h.folders p hp folder hfolder)

/-! ### What each change keeps -/

/-- A new folder has a number no folder had. -/
theorem Numbered.get?_next (h : trip.Numbered m) :
    trip.newPlaces.get? (newId (trip.newPlaces.entries.length + 1)) = none := by
  cases hget : trip.newPlaces.get? (newId (trip.newPlaces.entries.length + 1)) with
  | none => rfl
  | some new =>
      have hmem := Dict.mem_keys_iff.mpr (hget ▸ rfl : (trip.newPlaces.get?
        (newId (trip.newPlaces.entries.length + 1))).isSome = true)
      rw [h.opened] at hmem
      obtain ⟨i, hi, heq⟩ := List.mem_map.mp hmem
      have hlt := List.mem_range.mp hi
      have hnumber := newId_injective heq
      omega

theorem Numbered.added (h : trip.Numbered m) (name : PyStr) (latitude longitude : PyFloat)
    (key : String) : (trip.addNewPlace name latitude longitude key).2.Numbered m := by
  unfold addNewPlace
  split
  · exact h
  · have hnext : trip.newPlaces.get? ("n" ++ toString (trip.newPlaces.entries.length + 1)) = none :=
      h.get?_next
    have hknown : ∀ place, trip.Known m place → Known { trip with
        newPlaces := trip.newPlaces.set ("n" ++ toString (trip.newPlaces.entries.length + 1))
          ⟨name, latitude, longitude, key⟩ } m place := by
      rintro place (hplace | hplace)
      · exact .inl hplace
      · refine .inr ?_
        change (Dict.get? (Dict.set _ _ _) place).isSome = true
        rw [Dict.get?_set]
        split
        · rfl
        · exact hplace
    refine ⟨h.nodup, h.merges.of_merged rfl, ?_, ?_, ?_, h.covered⟩
    · dsimp only
      rw [Dict.entries_set_of_absent hnext, List.map_append, h.opened, List.length_append,
        List.length_singleton, List.range_succ, List.map_append]
      rfl
    · exact fun p hp folder hfolder => hknown folder (h.folders p hp folder hfolder)
    · exact fun place next hget => hknown next (h.merged place next hget)

theorem Numbered.redirect {other first : String} (h : trip.Numbered m)
    (hred : trip.Redirects other first) : (trip.redirect other first).Numbered m := by
  refine ⟨h.nodup, hred.merges h.merges, h.opened, h.folders, ?_, h.covered⟩
  intro place next hnext
  change (trip.merged.set other first).get? place = some next at hnext
  rw [Dict.get?_set] at hnext
  split at hnext
  · cases hnext
    exact h.known_of_used hred.used
  · exact h.merged place next hnext

theorem Numbered.mergeGroups {groups : List (List String)} (h : trip.Numbered m)
    (hgroups : ∀ group ∈ groups, ∀ place ∈ group, trip.hasPlace (trip.canon place) = true) :
    (groups.foldl mergeGroup trip).Numbered m := by
  induction groups generalizing trip with
  | nil => exact h
  | cons group groups ih =>
      obtain ⟨hgroup, hgroups⟩ := List.forall_mem_cons.mp hgroups
      have hafter := (mergeGroup_preserves h.merges
        (fun trip other first _ hred (h : trip.Numbered m) => h.redirect hred) hgroup h).1
      exact ih hafter fun g hg place hplace =>
        (mergeGroup_used h.merges hgroup).2 place (hgroups g hg place hplace)

/-- A photo gets coordinates from a folder that is in use or was opened. -/
theorem known_of_coordinates {photo : PhotoState V} {point : Option PyFloat × Option PyFloat}
    (h : trip.Numbered m) (hpoint : trip.coordinates N photo place = .ok point) :
    trip.Known m place := by
  unfold coordinates at hpoint
  dsimp only at hpoint
  split at hpoint
  · rename_i nearest hnearest
    have hmem := List.mem_of_mem_filter (List.argmax_mem hnearest)
    exact h.known_of_used (hasPlace_iff.mpr ⟨nearest, mem_membersOf.mp hmem⟩)
  · split at hpoint
    · rename_i new hnew
      exact .inr (hnew ▸ rfl)
    · cases hpoint

theorem Numbered.assigned {photo : PhotoState V} (h : trip.Numbered m) (hview : photo ∈ trip.view)
    (hno : photo.placeId = none) (hassign : trip.assign N photo place = .ok trip') :
    trip'.Numbered m := by
  obtain ⟨point, hpoint, hassign⟩ := except_bind_eq_ok.mp hassign
  cases hassign
  have hknown := known_of_coordinates h hpoint
  generalize trip.canon place = folder at hknown
  refine ⟨?_, h.merges.of_merged rfl, h.opened, ?_, h.merged, ?_⟩
  · have hids : (trip.put photo folder point).photos.map PhotoState.id =
        trip.photos.map PhotoState.id := ids_updatePhoto fun _ => rfl
    rw [hids]
    exact h.nodup
  · intro q hq other hother
    obtain ⟨p, hp, rfl⟩ := TripKeeps.mem_view_put.mp hq
    split at hother
    · obtain ⟨heq, -⟩ := folder?_eq_some.mp hother
      cases heq
      exact hknown
    · exact h.folders p hp other hother
  · intro k hk hkm
    obtain ⟨p, hp, hfolder⟩ := h.covered k hk hkm
    refine ⟨p, TripKeeps.mem_view_put.mpr ⟨p, hp, ?_⟩, hfolder⟩
    rw [if_neg]
    intro hid
    obtain rfl := eq_of_id h.nodup (mem_view.mp hp).1 (mem_view.mp hview).1 hid
    rw [(folder?_eq_some.mp hfolder).1] at hno
    cases hno

theorem Step.numbered (hstep : Step N py prompts trip trip') (h : trip.Numbered m) :
    trip'.Numbered m := by
  cases hstep with
  | assigned hview hno hassign => exact h.assigned hview hno hassign
  | added => exact h.added ..
  | merged hmerge => exact h.mergeGroups (h.merges.used_of_merge hmerge)

theorem Reached.numbered (h : Reached N py prompts start trip) (hstart : start.Clustered m) :
    trip.Numbered m := by
  induction h with
  | refl => exact hstart.numbered
  | tail _ hstep ih => exact hstep.numbered ih

/-! ### The folders in use, in order -/

theorem mem_view_mapFolders : q ∈ (trip.mapFolders f).view ↔ ∃ p ∈ trip.view, q = p.renamed f := by
  rw [mem_view]
  change q ∈ trip.photos.map _ ∧ q.id ∈ trip.members ↔ _
  rw [List.mem_map]
  constructor
  · rintro ⟨⟨p, hp, rfl⟩, hmember⟩
    split at hmember
    · rename_i hid
      rw [if_pos hid]
      exact ⟨p, mem_view.mpr ⟨hp, hid⟩, rfl⟩
    · rename_i hid
      exact absurd hmember hid
  · rintro ⟨p, hp, rfl⟩
    obtain ⟨hp, hid⟩ := mem_view.mp hp
    refine ⟨⟨p, hp, if_pos hid⟩, ?_⟩
    rw [id_renamed]
    exact hid

theorem mapFolders_eq_self
    (hf : ∀ p ∈ trip.view, ∀ folder, p.folder? = some folder → f folder = folder) :
    trip.mapFolders f = trip := by
  have hphotos : (trip.photos.map fun p => if p.id ∈ trip.members then p.renamed f else p) =
      trip.photos := by
    refine (List.map_congr_left fun p hp => ?_).trans (List.map_id _)
    split
    · rename_i hid
      cases hfolder : p.folder? with
      | none => exact renamed_of_none hfolder
      | some folder =>
          rw [renamed_of_some hfolder, hf p (mem_view.mpr ⟨hp, hid⟩) folder hfolder,
            ← (folder?_eq_some.mp hfolder).1]
          rfl
    · rfl
  rw [mapFolders, hphotos]

/-- The folders `finish` numbers, in their order. -/
def order (trip : Trip V) : List String := (trip.mapFolders trip.canon).usedPlaces

/-- The new id of a folder. -/
def number (trip : Trip V) (place : String) : String := clusterId (trip.order.idxOf place + 1)

theorem finish_eq_mapFolders (h : trip.Merges) :
    trip.finish = trip.mapFolders (trip.number ∘ trip.canon) :=
  mapFolders_mapFolders h.named

theorem mem_order (h : trip.Merges) : place ∈ trip.order ↔ trip.hasPlace place = true := by
  rw [order, usedPlaces, mem_sortOn, List.mem_eraseDups, List.mem_filterMap, hasPlace_iff]
  constructor
  · rintro ⟨q, hq, hplace⟩
    obtain ⟨p, hp, rfl⟩ := mem_view_mapFolders.mp hq
    refine ⟨p, hp, ?_⟩
    cases hfolder : p.folder? with
    | none =>
        rw [renamed_of_none hfolder, hfolder] at hplace
        cases hplace
    | some folder =>
        rw [folder?_renamed (h.named folder (folder?_eq_some.mp hfolder).2) hfolder] at hplace
        cases hplace
        exact placeOf_of_folder h hfolder
  · rintro ⟨p, hp, hplace⟩
    obtain ⟨⟨folder, hfolder, rfl⟩, hne⟩ := placeOf_eq_some.mp hplace
    exact ⟨p.renamed trip.canon, mem_view_mapFolders.mpr ⟨p, hp, rfl⟩, folder?_renamed hne hfolder⟩

theorem nodup_order : trip.order.Nodup :=
  (sortOn_perm _ _).nodup_iff.mpr (nodup_eraseDups _)

/-- The order of the result: folders of CLUSTERING by their number, then the opened ones as they
were opened. -/
inductive Earlier (trip : Trip V) : String → String → Prop where
  | numbered {i j : Nat} : i < j → Earlier trip (clusterId i) (clusterId j)
  | opened {i : Nat} {place : String} : (trip.newPlaces.get? place).isSome = true →
      Earlier trip (clusterId i) place
  | later {i j : Nat} {place place' : String} : i < j →
      (trip.newPlaces.entries.map Prod.fst)[i]? = some place →
      (trip.newPlaces.entries.map Prod.fst)[j]? = some place' → Earlier trip place place'

/-- What the folders are sorted by. -/
def sortKey (trip : Trip V) (place : String) : Bool ×ₗ Nat :=
  toLex ((trip.newPlaces.get? place).isSome, placeNumber place)

theorem Numbered.opened_iff (h : trip.Numbered m) : (trip.newPlaces.get? place).isSome = true ↔
    ∃ i < trip.newPlaces.entries.length, place = newId (i + 1) := by
  rw [← Dict.mem_keys_iff, h.opened]
  simp [eq_comm]

theorem Numbered.not_opened (h : trip.Numbered m) (k : Nat) :
    (trip.newPlaces.get? (clusterId k)).isSome = false := by
  rw [Bool.eq_false_iff]
  intro hopened
  obtain ⟨i, -, heq⟩ := h.opened_iff.mp hopened
  exact clusterId_ne_newId heq

/-- **Names that are known differ in what they are sorted by**, and are sorted as they should be. -/
theorem Numbered.earlier (h : trip.Numbered m) {a b : String} (ha : trip.Known m a)
    (hb : trip.Known m b) (hne : a ≠ b) (hle : trip.sortKey a ≤ trip.sortKey b) :
    trip.Earlier a b := by
  rw [sortKey, sortKey, Prod.Lex.toLex_le_toLex] at hle
  dsimp only at hle
  rcases ha with ⟨i, -, -, rfl⟩ | ha
  · rcases hb with ⟨j, -, -, rfl⟩ | hb
    · rw [h.not_opened, h.not_opened, placeNumber_clusterId, placeNumber_clusterId] at hle
      refine .numbered ?_
      have hij : i ≠ j := fun heq => hne (congrArg clusterId heq)
      rcases hle with hlt | ⟨-, hle⟩
      · cases hlt
      · omega
    · exact .opened hb
  · rcases hb with ⟨j, -, -, rfl⟩ | hb
    · rw [ha, h.not_opened] at hle
      rcases hle with hlt | ⟨heq, -⟩
      · exact absurd hlt (by decide)
      · cases heq
    · obtain ⟨i, hi, rfl⟩ := h.opened_iff.mp ha
      obtain ⟨j, hj, rfl⟩ := h.opened_iff.mp hb
      rw [ha, hb, placeNumber_newId, placeNumber_newId] at hle
      have hij : i ≠ j := fun heq => hne (by rw [heq])
      have hget : ∀ {k}, k < trip.newPlaces.entries.length →
          (trip.newPlaces.entries.map Prod.fst)[k]? = some (newId (k + 1)) := by
        intro k hk
        rw [h.opened, List.getElem?_map, List.getElem?_range hk]
        rfl
      refine .later ?_ (hget hi) (hget hj)
      rcases hle with hlt | ⟨-, hle⟩
      · exact absurd hlt (lt_irrefl _)
      · omega

theorem Numbered.pairwise_order (h : trip.Numbered m) : trip.order.Pairwise trip.Earlier := by
  have hsorted : trip.order.Pairwise fun a b => trip.sortKey a ≤ trip.sortKey b :=
    pairwise_sortOn _ _
  have hnodup : trip.order.Nodup := nodup_order
  refine (hsorted.and hnodup).imp_of_mem fun {a b} ha hb hab => ?_
  exact h.earlier (h.known_of_used ((mem_order h.merges).mp ha))
    (h.known_of_used ((mem_order h.merges).mp hb)) hab.2 hab.1

/-! ### The renaming -/

/-- **What `finish` does**: photos get new folders by a function of their representative. -/
structure Renumbered (trip : Trip V) : Prop where
  finish : trip.finish = trip.mapFolders (trip.number ∘ trip.canon)
  /-- The folders in use are listed once each. -/
  used : trip.order.Nodup ∧ ∀ place, place ∈ trip.order ↔ trip.hasPlace place = true
  sorted : trip.order.Pairwise trip.Earlier
  /-- The k-th of them becomes `pk`. -/
  numbers : ∀ i place, trip.order[i]? = some place → trip.number place = clusterId (i + 1)
  bijective : Set.BijOn trip.number {place | trip.hasPlace place = true}
    {name | ∃ k, 1 ≤ k ∧ k ≤ trip.order.length ∧ name = clusterId k}
  /-- Two photos are in one folder if and only if they were. -/
  partition : ∀ p ∈ trip.view, ∀ q ∈ trip.view,
    (p.renamed (trip.number ∘ trip.canon)).folder? =
      (q.renamed (trip.number ∘ trip.canon)).folder? ↔
      trip.placeOf p = trip.placeOf q
  unplaced : ∀ p : PhotoState V, p.folder? = none → p.renamed (trip.number ∘ trip.canon) = p
  /-- Where nothing was merged and no new folder is in use, nothing changes. -/
  unchanged : trip.merged = ∅ →
    (∀ place, (trip.newPlaces.get? place).isSome = true → trip.hasPlace place = false) →
    trip.finish = trip

theorem number_of_getElem? {i : Nat} (h : trip.order[i]? = some place) :
    trip.number place = clusterId (i + 1) := by
  obtain ⟨hi, rfl⟩ := List.getElem?_eq_some_iff.mp h
  rw [number, nodup_order.idxOf_getElem]

theorem number_injOn (h : trip.Merges) :
    Set.InjOn trip.number {place | trip.hasPlace place = true} := by
  intro a ha b hb heq
  have ha' : a ∈ trip.order := (mem_order h).mpr ha
  have hnumber : trip.order.idxOf a + 1 = trip.order.idxOf b + 1 := clusterId_injective heq
  exact (List.idxOf_inj ha').mp (Nat.succ.inj hnumber)

theorem number_bijOn (h : trip.Merges) :
    Set.BijOn trip.number {place | trip.hasPlace place = true}
      {name | ∃ k, 1 ≤ k ∧ k ≤ trip.order.length ∧ name = clusterId k} := by
  refine ⟨?_, number_injOn h, ?_⟩
  · intro place hplace
    have hlt := List.idxOf_lt_length_of_mem ((mem_order h).mpr hplace)
    exact ⟨trip.order.idxOf place + 1, by omega, by omega, rfl⟩
  · rintro name ⟨k, hk, hle, rfl⟩
    obtain ⟨i, rfl⟩ := Nat.exists_eq_add_of_le' hk
    have hi : i < trip.order.length := by omega
    exact ⟨trip.order[i], (mem_order h).mp (List.getElem_mem hi),
      number_of_getElem? (List.getElem?_eq_getElem hi)⟩

theorem folder?_number (h : trip.Merges) (p : PhotoState V) :
    (p.renamed (trip.number ∘ trip.canon)).folder? = (trip.placeOf p).map trip.number := by
  cases hfolder : p.folder? with
  | none =>
      have hplace : trip.placeOf p = none := by
        rw [placeOf, hfolder]
        rfl
      rw [renamed_of_none hfolder, hfolder, hplace]
      rfl
  | some folder =>
      rw [placeOf_of_folder h hfolder]
      exact folder?_renamed (clusterId_ne_empty _) hfolder

theorem Numbered.lt_of_earlier (h : trip.Numbered m)
    (hearlier : trip.Earlier (clusterId i) (clusterId j)) :
    placeNumber (clusterId i) < placeNumber (clusterId j) := by
  generalize ha : clusterId i = a at hearlier ⊢
  generalize hb : clusterId j = b at hearlier ⊢
  cases hearlier with
  | numbered hij =>
      rw [placeNumber_clusterId, placeNumber_clusterId]
      exact hij
  | opened hopened =>
      rw [← hb, h.not_opened] at hopened
      cases hopened
  | later _ hget _ =>
      have hopened := Dict.mem_keys_iff.mp (List.mem_of_getElem? hget)
      rw [← ha, h.not_opened] at hopened
      cases hopened

/-- The folders of CLUSTERING alone are in use: their order is that of their numbers. -/
theorem Numbered.order_eq (h : trip.Numbered m) (hmerged : trip.merged = ∅)
    (hnew : ∀ place, (trip.newPlaces.get? place).isSome = true → trip.hasPlace place = false) :
    trip.order = (List.range m).map fun i => clusterId (i + 1) := by
  have hmem : ∀ place, place ∈ trip.order ↔
      place ∈ (List.range m).map fun i => clusterId (i + 1) := by
    intro place
    rw [mem_order h.merges]
    constructor
    · intro hplace
      rcases h.known_of_used hplace with ⟨k, hk, hkm, rfl⟩ | hopened
      · obtain ⟨i, rfl⟩ := Nat.exists_eq_add_of_le' hk
        exact List.mem_map.mpr ⟨i, List.mem_range.mpr (by omega), rfl⟩
      · rw [hnew place hopened] at hplace
        cases hplace
    · intro hplace
      obtain ⟨i, hi, rfl⟩ := List.mem_map.mp hplace
      have him := List.mem_range.mp hi
      obtain ⟨p, hp, hfolder⟩ := h.covered (i + 1) (by omega) (by omega)
      refine hasPlace_iff.mpr ⟨p, hp, ?_⟩
      rw [placeOf_of_folder h.merges hfolder, canon_of_none]
      rw [hmerged, Dict.get?_empty]
  have hnodup : ((List.range m).map fun i => clusterId (i + 1)).Nodup :=
    List.nodup_range.map fun i j hij => Nat.succ.inj (clusterId_injective hij)
  have hperm : trip.order.Perm ((List.range m).map fun i => clusterId (i + 1)) :=
    (List.perm_ext_iff_of_nodup nodup_order hnodup).mpr hmem
  -- Both are sorted by the number, without ties.
  have hsorted : trip.order.Pairwise fun a b => placeNumber a < placeNumber b := by
    refine h.pairwise_order.imp_of_mem fun {a b} ha hb hab => ?_
    obtain ⟨i, -, rfl⟩ := List.mem_map.mp ((hmem a).mp ha)
    obtain ⟨j, -, rfl⟩ := List.mem_map.mp ((hmem b).mp hb)
    exact h.lt_of_earlier hab
  have hrange : ((List.range m).map fun i => clusterId (i + 1)).Pairwise
      fun a b => placeNumber a < placeNumber b := by
    refine List.pairwise_map.mpr (List.pairwise_lt_range.imp fun {i j} hij => ?_)
    rw [placeNumber_clusterId, placeNumber_clusterId]
    omega
  exact hperm.eq_of_pairwise (fun a b _ _ hab hba => absurd hba (lt_asymm hab)) hsorted hrange

/-- **Renumbering keeps the partition**, in any trip the agent comes to. -/
theorem Numbered.renumbered (h : trip.Numbered m) : trip.Renumbered where
  finish := finish_eq_mapFolders h.merges
  used := ⟨nodup_order, fun _ => mem_order h.merges⟩
  sorted := h.pairwise_order
  numbers := fun _ _ => number_of_getElem?
  bijective := number_bijOn h.merges
  partition := by
    intro p hp q hq
    rw [folder?_number h.merges, folder?_number h.merges]
    cases hp' : trip.placeOf p with
    | none => cases trip.placeOf q <;> simp
    | some a =>
        cases hq' : trip.placeOf q with
        | none => simp
        | some b =>
            have ha := hasPlace_iff.mpr ⟨p, hp, hp'⟩
            have hb := hasPlace_iff.mpr ⟨q, hq, hq'⟩
            rw [Option.map_some, Option.map_some, Option.some.injEq, Option.some.injEq]
            exact (number_injOn h.merges).eq_iff ha hb
  unplaced := fun p => renamed_of_none
  unchanged := by
    intro hmerged hnew
    rw [finish_eq_mapFolders h.merges]
    apply mapFolders_eq_self
    intro p hp folder hfolder
    have hcanon : trip.canon folder = folder :=
      canon_of_none (by rw [hmerged, Dict.get?_empty])
    have hused : trip.hasPlace folder = true := by
      refine hasPlace_iff.mpr ⟨p, hp, ?_⟩
      rw [placeOf_of_folder h.merges hfolder, hcanon]
    rw [Function.comp_apply, hcanon]
    rcases h.folders p hp folder hfolder with ⟨k, hk, hkm, rfl⟩ | hopened
    · obtain ⟨i, rfl⟩ := Nat.exists_eq_add_of_le' hk
      refine number_of_getElem? ?_
      rw [h.order_eq hmerged hnew, List.getElem?_map, List.getElem?_range (by omega)]
      rfl
    · rw [hnew folder hopened] at hused
      cases hused

end Trip

/-- **`finish` preserves the partition**: in every trip the agent comes to from a clustering with
the folders `p1` to `pm`, whatever it merged and opened. -/
theorem finish_renumbers (hstart : start.Clustered m)
    (hreached : Trip.Reached N py prompts start trip) :
    trip.Renumbered :=
  (hreached.numbered hstart).renumbered

theorem threeFolders_clustered : threeFolders.Clustered 3 where
  nodup := by decide +kernel
  unmerged := rfl
  unopened := rfl
  folders := by
    intro place
    have hview : threeFolders.view.filterMap PhotoState.folder? =
        [clusterId 1, clusterId 2, clusterId 3] := by decide +kernel
    have hmem : (∃ p ∈ threeFolders.view, p.folder? = some place) ↔
        place ∈ [clusterId 1, clusterId 2, clusterId 3] := by
      rw [← hview, List.mem_filterMap]
    rw [hmem]
    constructor
    · intro h
      simp only [List.mem_cons, List.not_mem_nil, or_false] at h
      rcases h with rfl | rfl | rfl
      · exact ⟨1, by omega, by omega, rfl⟩
      · exact ⟨2, by omega, by omega, rfl⟩
      · exact ⟨3, by omega, by omega, rfl⟩
    · rintro ⟨k, hk, hle, rfl⟩
      interval_cases k <;> simp

theorem finish_renumbers_threeFolders :
    ([["p1", "p3"]].foldl Trip.mergeGroup threeFolders).Renumbered :=
  finish_renumbers threeFolders_clustered
    (.single (.merged (N := sampleNumerics) merge_threeFolders))

end Yeodam.Pipeline
