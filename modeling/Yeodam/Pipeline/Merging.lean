/-
Merged folders as classes (the merge node of `app/pipeline/agent/graph.py`).

`canon` follows the merges of a trip to a representative, so the classes of a trip are
`Setoid.ker canon`. A merge renames one representative to another, a group of folders is
merged into its first one by one, and an answer of the model is a list of groups that may
overlap: whatever it is, the classes afterwards are those before with every group joined
(`ker_mergeGroups`), and following the merges still ends.

`Trip.Reached` are the trips the agent can come to, whatever the model says.
-/

import Yeodam.Lib.Classes
import Yeodam.Pipeline.Agent

namespace Yeodam.Pipeline

open Yeodam.Lib Yeodam.Schemas

variable {V : Type} {N : Numerics V} {py : Python} {prompts : Prompts V} {start trip : Trip V}
  {p : PhotoState V} {place other first x y : String} {group : List String}
  {groups : List (List String)} {merged : Dict String String}

namespace Trip

/-! ### Following merges ends -/

/-- Once the path has ended, more steps go nowhere. -/
theorem follow_add {n : Nat} (hend : merged.get? (follow merged n place) = none) (k : Nat) :
    follow merged (n + k) place = follow merged n place := by
  induction n generalizing place with
  | zero => exact follow_of_none hend
  | succ n ih =>
      rw [Nat.succ_add]
      cases hnext : merged.get? place with
      | none => rw [follow_of_none hnext, follow_of_none hnext]
      | some next =>
          have hstep : ∀ m, follow merged (m + 1) place = follow merged m next := fun m => by
            rw [follow, hnext]
          rw [hstep] at hend ⊢
          rw [hstep]
          exact ih hend

/-- A path that ends is not on a cycle. -/
theorem acc_of_follow {n : Nat} (hend : merged.get? (follow merged n place) = none) :
    Acc (fun next place => merged.get? place = some next) place := by
  induction n generalizing place with
  | zero =>
      refine ⟨_, fun next hnext => ?_⟩
      change merged.get? place = none at hend
      rw [hend] at hnext
      cases hnext
  | succ n ih =>
      refine ⟨_, fun next hnext => ih ?_⟩
      rwa [follow, hnext] at hend

theorem Merges.acyclic (h : trip.Merges) :
    WellFounded fun next place => trip.merged.get? place = some next :=
  ⟨fun place => acc_of_follow (h.settled place)⟩

/-! ### The classes of a trip -/

theorem canon_of_get? (hother : trip.merged.get? other = some first)
    (hfirst : trip.merged.get? first = none) : trip.canon other = first := by
  have hmem : (other, first) ∈ trip.merged.entries := Dict.mem_entries_iff.mpr hother
  obtain ⟨n, hn⟩ := Nat.exists_eq_succ_of_ne_zero (List.length_pos_of_mem hmem).ne'
  rw [canon, hn, follow, hother]
  exact follow_of_none hfirst

theorem ker_redirect (hmerges : trip.Merges) (h : trip.Redirects other first) :
    Setoid.ker (trip.redirect other first).canon =
      Setoid.ker trip.canon ⊔ Relation.EqvGen.setoid fun x y => x = other ∧ y = first := by
  have hcanon : (trip.redirect other first).canon =
      fun place => if trip.canon place = other then first else trip.canon place :=
    funext fun place => canon_redirect hmerges h
  rw [hcanon]
  exact ker_rename (fun _ => hmerges.canon_canon) (canon_of_none h.otherEnds)
    (canon_of_none h.firstEnds)

/-- The folders of a group are merged into its first one after the other. One may have been
merged by an earlier turn already. -/
theorem ker_mergeInto {others : List String} (hmerges : trip.Merges)
    (hfirst : trip.merged.get? first = none) (hused : trip.hasPlace first = true)
    (hothers : ∀ other ∈ others, trip.merged.get? other = none ∨
      trip.merged.get? other = some first) :
    Setoid.ker (others.foldl (fun trip other =>
        if other ≠ trip.canon first then trip.redirect other (trip.canon first)
        else trip) trip).canon =
      Setoid.ker trip.canon ⊔ Relation.EqvGen.setoid fun x y => x ∈ others ∧ y = first := by
  induction others generalizing trip with
  | nil =>
      have hnone := eqvGen_of_eq (r := fun x y => x ∈ ([] : List String) ∧ y = first) (by simp)
      rw [hnone, sup_bot_eq]
      rfl
  | cons other others ih =>
      obtain ⟨hother, hothers⟩ := List.forall_mem_cons.mp hothers
      have hsplit : Relation.EqvGen.setoid (fun x y => x ∈ other :: others ∧ y = first) =
          Relation.EqvGen.setoid (fun x y => x = other ∧ y = first) ⊔
            Relation.EqvGen.setoid fun x y => x ∈ others ∧ y = first := by
        rw [← eqvGen_or]
        exact eqvGen_congr fun x y => by rw [List.mem_cons, or_and_right]
      rw [List.foldl_cons, canon_of_none hfirst, hsplit, ← sup_assoc]
      -- A folder of the class of the first already is joined to it once more.
      have hjoined : trip.canon other = first →
          Setoid.ker trip.canon ⊔ Relation.EqvGen.setoid (fun x y => x = other ∧ y = first) =
            Setoid.ker trip.canon := by
        intro hcanon
        refine sup_eq_left.mpr (Setoid.eqvGen_le ?_)
        rintro x y ⟨rfl, rfl⟩
        rw [Setoid.ker_def, hcanon, canon_of_none hfirst]
      by_cases hne : other ≠ first
      · rw [if_pos hne]
        rcases hother with hother | hother
        · have hred : trip.Redirects other first := ⟨hother, hfirst, hne, hused⟩
          obtain ⟨p, hp, hplace⟩ := hasPlace_iff.mp hused
          have hsame : renameTo other first first = first := renameTo_of_ne hne.symm
          rw [← ker_redirect hmerges hred]
          refine ih (hred.merges hmerges) ?_ ?_ ?_
          · change (trip.merged.set other first).get? first = none
            rw [Dict.get?_set_ne hne.symm, hfirst]
          · refine hasPlace_iff.mpr ⟨p, hp, ?_⟩
            rw [placeOf_redirect hmerges hred hplace, hsame]
          · intro y hy
            change (trip.merged.set other first).get? y = none ∨
              (trip.merged.set other first).get? y = some first
            rw [Dict.get?_set]
            split
            · exact .inr rfl
            · exact hothers y hy
        · have hsame : trip.redirect other first = trip := by
            rw [redirect, Dict.set_of_get? hother]
          rw [hsame, hjoined (canon_of_get? hother hfirst)]
          exact ih hmerges hfirst hused hothers
      · rw [if_neg hne, hjoined]
        · exact ih hmerges hfirst hused hothers
        · rw [not_not.mp hne]
          exact canon_of_none hfirst

/-- **A group joins its folders** and nothing else. -/
theorem ker_mergeGroup (hmerges : trip.Merges)
    (hgroup : ∀ place ∈ group, trip.hasPlace (trip.canon place) = true) :
    Setoid.ker (trip.mergeGroup group).canon =
      Setoid.ker trip.canon ⊔ Relation.EqvGen.setoid fun x y => x ∈ group ∧ y ∈ group := by
  unfold mergeGroup
  cases group with
  | nil =>
      have hnone := eqvGen_of_eq (r := fun x y => x ∈ ([] : List String) ∧ y ∈ ([] : List String))
        (by simp)
      rw [hnone, sup_bot_eq]
      rfl
  | cons x xs =>
      rw [List.map_cons]
      dsimp only
      have hothers : ∀ other ∈ xs.map trip.canon, trip.merged.get? other = none ∨
          trip.merged.get? other = some (trip.canon x) := by
        intro other hother
        obtain ⟨y, -, rfl⟩ := List.mem_map.mp hother
        exact .inl (hmerges.settled y)
      rw [ker_mergeInto hmerges (hmerges.settled x) (hgroup x List.mem_cons_self) hothers]
      -- Joining the representatives is joining the folders they stand for.
      have hcanon : ∀ {s : Setoid String}, Setoid.ker trip.canon ≤ s → ∀ y, s (trip.canon y) y :=
        fun hle y => hle (Setoid.ker_def.mpr hmerges.canon_canon)
      refine le_antisymm (sup_le le_sup_left (Setoid.eqvGen_le ?_))
        (sup_le le_sup_left (Setoid.eqvGen_le ?_))
      · rintro z _ ⟨hz, rfl⟩
        obtain ⟨y, hy, rfl⟩ := List.mem_map.mp hz
        have hxy : (Setoid.ker trip.canon ⊔
            Relation.EqvGen.setoid fun a b => a ∈ x :: xs ∧ b ∈ x :: xs) y x :=
          sup_eqvGen_apply.mpr
            (.rel _ _ (.inr ⟨List.mem_cons_of_mem _ hy, List.mem_cons_self⟩))
        exact Setoid.trans' _ (Setoid.trans' _ (hcanon le_sup_left y) hxy)
          (Setoid.symm' _ (hcanon le_sup_left x))
      · have hstar : ∀ y ∈ x :: xs, (Setoid.ker trip.canon ⊔
            Relation.EqvGen.setoid fun a b => a ∈ xs.map trip.canon ∧ b = trip.canon x) y
            (trip.canon x) := by
          intro y hy
          rcases List.mem_cons.mp hy with rfl | hy
          · exact Setoid.symm' _ (hcanon le_sup_left y)
          · apply Setoid.trans' _ (Setoid.symm' _ (hcanon le_sup_left y))
            exact sup_eqvGen_apply.mpr (.rel _ _ (.inr ⟨List.mem_map_of_mem hy, rfl⟩))
        rintro y z ⟨hy, hz⟩
        exact Setoid.trans' _ (hstar y hy) (Setoid.symm' _ (hstar z hz))

/-- Merges rename folders, and those in use stay in use. -/
theorem mergeGroup_used (hmerges : trip.Merges)
    (hgroup : ∀ place ∈ group, trip.hasPlace (trip.canon place) = true) :
    (trip.mergeGroup group).Merges ∧ ∀ place, trip.hasPlace (trip.canon place) = true →
      (trip.mergeGroup group).hasPlace ((trip.mergeGroup group).canon place) = true := by
  let P := fun after : Trip V => ∀ place, trip.hasPlace (trip.canon place) = true →
    after.hasPlace (after.canon place) = true
  have hstep : ∀ after : Trip V, ∀ other first, after.Merges → after.Redirects other first →
      P after → P (after.redirect other first) := by
    intro after other first hmerges hred hP place hplace
    obtain ⟨p, hp, hpplace⟩ := hasPlace_iff.mp (hP place hplace)
    refine hasPlace_iff.mpr ⟨p, hp, ?_⟩
    rw [canon_redirect hmerges hred]
    exact placeOf_redirect hmerges hred hpplace
  obtain ⟨hused, hafter⟩ := mergeGroup_preserves hmerges hstep hgroup fun _ hplace => hplace
  exact ⟨hafter, hused⟩

/-- **The groups of an answer**, in any order and however they overlap. -/
theorem ker_mergeGroups (hmerges : trip.Merges)
    (hgroups : ∀ group ∈ groups, ∀ place ∈ group, trip.hasPlace (trip.canon place) = true) :
    (groups.foldl mergeGroup trip).Merges ∧
    Setoid.ker (groups.foldl mergeGroup trip).canon =
      Setoid.ker trip.canon ⊔
        Relation.EqvGen.setoid fun x y => ∃ group ∈ groups, x ∈ group ∧ y ∈ group := by
  induction groups generalizing trip with
  | nil =>
      have hnone := eqvGen_of_eq
        (r := fun x y => ∃ group ∈ ([] : List (List String)), x ∈ group ∧ y ∈ group) (by simp)
      rw [hnone, sup_bot_eq]
      exact ⟨hmerges, rfl⟩
  | cons group groups ih =>
      obtain ⟨hgroup, hgroups⟩ := List.forall_mem_cons.mp hgroups
      obtain ⟨hafter, hused⟩ := mergeGroup_used hmerges hgroup
      obtain ⟨hrest, hker⟩ :=
        ih hafter fun g hg place hplace => hused place (hgroups g hg place hplace)
      refine ⟨hrest, ?_⟩
      have hsplit : Relation.EqvGen.setoid (fun x y => ∃ g ∈ group :: groups, x ∈ g ∧ y ∈ g) =
          Relation.EqvGen.setoid (fun x y => x ∈ group ∧ y ∈ group) ⊔
            Relation.EqvGen.setoid fun x y => ∃ g ∈ groups, x ∈ g ∧ y ∈ g := by
        rw [← eqvGen_or]
        exact eqvGen_congr fun x y => by simp
      rw [List.foldl_cons, hker, ker_mergeGroup hmerges hgroup, hsplit, sup_assoc]

/-! ### The entries of `places()` -/

theorem keys_places : (trip.places.map Prod.fst).Nodup := by
  rw [places, List.map_map]
  exact nodup_groupOn_keys _ _

theorem placeOf_of_folder (h : trip.Merges) {folder : String} (hfolder : p.folder? = some folder) :
    trip.placeOf p = some (trip.canon folder) :=
  placeOf_eq_some.mpr ⟨⟨folder, hfolder, rfl⟩, h.named folder (folder?_eq_some.mp hfolder).2⟩

/-- **A photo in a folder is in one entry**, under the representative of its folder. -/
theorem Merges.entry (h : trip.Merges) (hp : p ∈ trip.view) {folder : String}
    (hfolder : p.folder? = some folder) :
    (∃! entry, entry ∈ trip.places ∧ p ∈ entry.2) ∧
      ∀ entry ∈ trip.places, p ∈ entry.2 → entry.1 = trip.canon folder := by
  have hplace := placeOf_of_folder h hfolder
  have hkey : ∀ entry ∈ trip.places, p ∈ entry.2 → entry.1 = trip.canon folder := by
    intro entry hentry hmem
    have hthis := ((mem_places hentry).mp hmem).2
    rw [hplace, Option.some.injEq] at hthis
    exact hthis.symm
  refine ⟨?_, hkey⟩
  have hx : (trip.canon folder, p) ∈ trip.view.filterMap
      fun p => (trip.placeOf p).map fun place => (place, p) := by
    refine List.mem_filterMap.mpr ⟨p, hp, ?_⟩
    rw [hplace]
    rfl
  obtain ⟨g, hg, -, hpg⟩ : ∃ g ∈ groupOn Prod.fst (trip.view.filterMap
      fun p => (trip.placeOf p).map fun place => (place, p)), g.1 = trip.canon folder ∧
      (trip.canon folder, p) ∈ g.2 := exists_group hx
  have hentry : (g.1, g.2.map Prod.snd) ∈ trip.places := List.mem_map_of_mem hg
  refine ⟨(g.1, g.2.map Prod.snd), ⟨hentry, List.mem_map_of_mem hpg⟩, ?_⟩
  rintro entry ⟨hmem, hpentry⟩
  apply List.inj_on_of_nodup_map keys_places hmem hentry
  rw [hkey entry hmem hpentry, hkey _ hentry (List.mem_map_of_mem hpg)]

/-! ### Trips the agent comes to -/

variable (N py prompts) in
/-- One change of the trip, whatever the model says: a photo without a place is put into a
folder, a folder is opened, or the folders of an answer of `merge` are joined. -/
inductive Step : Trip V → Trip V → Prop where
  | assigned {trip trip' : Trip V} {photo : PhotoState V} {place : String} :
      photo ∈ trip.view → photo.placeId = none → trip.assign N photo place = .ok trip' →
      Step trip trip'
  | added (trip : Trip V) (name : PyStr) (latitude longitude : PyFloat) (key : String) :
      Step trip (trip.addNewPlace name latitude longitude key).2
  | merged {trip : Trip V} {world : World V} {groups : List (List String)} :
      (merge py trip prompts world).2 = .ok groups → Step trip (groups.foldl mergeGroup trip)

variable (N py prompts) in
/-- Trips that changes of the agent lead to. -/
abbrev Reached (start : Trip V) : Trip V → Prop := Relation.ReflTransGen (Step N py prompts) start

theorem Merges.of_merged {trip' : Trip V} (h : trip.Merges) (heq : trip'.merged = trip.merged) :
    trip'.Merges := by
  have hcanon : trip'.canon = trip.canon := by
    funext place
    rw [canon, canon, heq]
  refine ⟨fun place => ?_, fun place => ?_⟩
  · rw [hcanon, heq]
    exact h.settled place
  · rw [hcanon]
    exact h.named place

theorem Merges.used_of_merge (h : trip.Merges) {world : World V}
    (hmerge : (merge py trip prompts world).2 = .ok groups) :
    ∀ group ∈ groups, ∀ place ∈ group, trip.hasPlace (trip.canon place) = true := by
  intro group hgroup place hplace
  have hused := merge_used hmerge group hgroup place hplace
  obtain ⟨p, -, hp⟩ := hasPlace_iff.mp hused
  rwa [h.canon_placeOf hp]

theorem Step.merges {trip' : Trip V} (hstep : Step N py prompts trip trip') (h : trip.Merges) :
    trip'.Merges := by
  cases hstep with
  | assigned _ _ hassign =>
      obtain ⟨point, -, hassign⟩ := except_bind_eq_ok.mp hassign
      cases hassign
      exact h.of_merged rfl
  | added => exact h.of_merged (addNewPlace_same ..).1
  | merged hmerge => exact (ker_mergeGroups h (h.used_of_merge hmerge)).1

theorem Reached.merges (h : Reached N py prompts start trip) (hstart : start.Merges) :
    trip.Merges := by
  induction h with
  | refl => exact hstart
  | tail _ hstep ih => exact hstep.merges ih

theorem merges_make {photos : List (PhotoState V)} {request : ProcessRequest}
    (h : Trip.make N photos request = .ok trip) : trip.Merges := by
  obtain ⟨inside, -, h⟩ := except_bind_eq_ok.mp h
  split at h
  · cases h
  · cases h
    exact merges_empty rfl

/-- **Joined right**: what holds of the trip after the groups of an answer are merged. -/
structure Joined (before : Trip V) (groups : List (List String)) (after : Trip V) : Prop where
  /-- No path of parents comes back to where it started. -/
  acyclic : WellFounded fun next place => after.merged.get? place = some next
  /-- The loop of `canon` ends, at a folder that is not merged. -/
  ends : ∀ place n, after.merged.entries.length ≤ n →
    follow after.merged n place = after.canon place ∧ after.merged.get? (after.canon place) = none
  /-- Two folders have one representative if and only if they are connected. -/
  classes : ∀ x y, after.canon x = after.canon y ↔
    Relation.EqvGen (fun x y => before.canon x = before.canon y ∨ ∃ g ∈ groups, x ∈ g ∧ y ∈ g) x y
  /-- Every photo in a folder is in one entry of `places()`, under its representative. -/
  entries : ∀ p ∈ after.view, ∀ folder, p.folder? = some folder →
    (∃! entry, entry ∈ after.places ∧ p ∈ entry.2) ∧
      ∀ entry ∈ after.places, p ∈ entry.2 → entry.1 = after.canon folder ∧
        after.canon entry.1 = entry.1
  /-- No two entries have one key. -/
  keys : (after.places.map Prod.fst).Nodup

theorem joined_mergeGroups (h : trip.Merges)
    (hgroups : ∀ group ∈ groups, ∀ place ∈ group, trip.hasPlace (trip.canon place) = true) :
    Joined trip groups (groups.foldl mergeGroup trip) := by
  obtain ⟨hafter, hker⟩ := ker_mergeGroups h hgroups
  refine ⟨hafter.acyclic, fun place n hn => ⟨?_, hafter.settled place⟩, fun x y => ?_,
    ?_, keys_places⟩
  · obtain ⟨k, rfl⟩ := Nat.exists_eq_add_of_le hn
    exact follow_add (hafter.settled place) k
  · rw [← Setoid.ker_def, hker]
    exact sup_eqvGen_apply
  · intro p hp folder hfolder
    obtain ⟨hunique, hkey⟩ := hafter.entry hp hfolder
    refine ⟨hunique, fun entry hentry hpentry => ?_⟩
    have hrep := hkey entry hentry hpentry
    exact ⟨hrep, hrep ▸ hafter.canon_canon⟩

end Trip

/-! ### The graph changes the trip in these ways only -/

section Graph

variable {world : AgentWorld V} {keys : List (String × String)} {s s' : GraphState V}

theorem addNewPlace_view (trip : Trip V) (name : PyStr) (latitude longitude : PyFloat)
    (key : String) : (trip.addNewPlace name latitude longitude key).2.view = trip.view := by
  unfold Trip.addNewPlace
  split <;> rfl

theorem Applied.assign_reached {state state' : Applied V} {photo : PhotoState V}
    (hview : photo ∈ state.trip.view) (hno : photo.placeId = none)
    (h : state.assign N photo place = .ok state') :
    Trip.Reached N py prompts state.trip state'.trip := by
  obtain ⟨trip, hassign, h⟩ := except_bind_eq_ok.mp h
  cases h
  exact .single (.assigned hview hno hassign)

theorem applyProposal_reached {state state' : Applied V} {proposal : Proposal}
    (h : applyProposal N py state proposal = .ok state') :
    Trip.Reached N py prompts state.trip state'.trip := by
  unfold applyProposal at h
  split at h
  · cases h
  · rename_i photo hphoto
    split at h
    · cases h
      exact .refl
    · rename_i hno
      have hview := (byRef_mem hphoto).1
      have hnone : photo.placeId = none := by simpa using hno
      split at h
      · exact Applied.assign_reached hview hnone h
      · rename_i c name _
        unfold Applied.folderFor at h
        dsimp only at h
        split at h
        · exact Applied.assign_reached hview hnone h
        · refine .head (.added state.trip name c.latitude c.longitude
            (if c.candidateId ≠ "" then c.candidateId else py.normalize name))
            (Applied.assign_reached ?_ hnone h)
          exact (addNewPlace_view ..).symm ▸ hview
      · cases h

theorem nodeStep_reached {node : Node} {next : Option Node}
    (h : nodeStep N py prompts world keys s node = .ok (s', next)) :
    Trip.Reached N py prompts s.trip s'.trip := by
  cases node with
  | select =>
      cases h
      exact .refl
  | estimate =>
      obtain ⟨_, -, h⟩ := except_bind_eq_ok.mp h
      obtain ⟨estimates, -, h⟩ := except_bind_eq_ok.mp h
      cases h
      exact .refl
  | aggregate =>
      obtain ⟨accepted, -, h⟩ := except_bind_eq_ok.mp h
      obtain ⟨applied, happlied, h⟩ := except_bind_eq_ok.mp h
      cases h
      refine foldlM_preserves
        (P := fun state => Trip.Reached N py prompts s.trip state.trip) ?_ .refl
        happlied
      intro state hstate proposal _ state' hstep
      exact hstate.trans (applyProposal_reached hstep)
  | merge =>
      obtain ⟨groups, hgroups, h⟩ := except_bind_eq_ok.mp h
      cases h
      unfold mergeGroups at hgroups
      split at hgroups
      · obtain ⟨_, -, hgroups⟩ := except_bind_eq_ok.mp hgroups
        exact .single (.merged hgroups)
      · cases hgroups
        exact .refl

/-- Every trip of a run of the graph is one the agent can come to. -/
theorem graphRun_reached {fuel : Nat} {node : Node}
    (h : graphRun N py prompts world keys fuel node s = .ok s') :
    Trip.Reached N py prompts s.trip s'.trip := by
  induction fuel generalizing node s with
  | zero => cases h
  | succ fuel ih =>
      rw [graphRun] at h
      obtain ⟨⟨t, next⟩, hnode, h⟩ := except_bind_eq_ok.mp h
      have hstep : Trip.Reached N py prompts s.trip t.trip := nodeStep_reached hnode
      cases next with
      | none =>
          cases h
          exact hstep
      | some next => exact hstep.trans (ih h)

end Graph

/-- **Merging folders is a union-find**: in any trip the agent comes to, for whatever the model
answers, the groups `merge` returns are joined, and nothing else is. -/
theorem merge_joins {photos : List (PhotoState V)} {request : ProcessRequest}
    (hstart : Trip.make N photos request = .ok start)
    (hreached : Trip.Reached N py prompts start trip) {world : World V}
    (hgroups : (merge py trip prompts world).2 = .ok groups) :
    Trip.Joined trip groups (groups.foldl Trip.mergeGroup trip) := by
  have hmerges := hreached.merges (Trip.merges_make hstart)
  exact Trip.joined_mergeGroups hmerges (hmerges.used_of_merge hgroups)

/-! ### Two folders merged -/

/-- A photo with GPS in a folder. -/
def placedPhoto (id : Int) (place : String) : PhotoState Unit :=
  { source := ⟨id, "a.jpg", none, some (.finite "37.5"), some (.finite "127.0"), none⟩
    placeId := some place
    latitude := some (.finite "37.5")
    longitude := some (.finite "127.0")
    regionOrigin := .exif
    embedding := some () }

/-- The trip with a photo in each of three folders. -/
def threeFolders : Trip Unit :=
  (Trip.make sampleNumerics [placedPhoto 1 "p1", placedPhoto 2 "p2", placedPhoto 3 "p3"]
    sampleRequest).toOption.getD sampleTrip

def groupsText : PyStr :=
  .text ("\x7b\"groups\": [\x7b\"confidence\": \"high\", " ++
    "\"place_ids\": [\"p1\", \"p3\", \"p1\"]\x7d]\x7d")

def mergePython : Python :=
  { samplePython with
    loads := fun raw =>
      if raw = groupsText then
        .value (.record [("groups", .arr [.record [("confidence", .ofString "high"),
          ("place_ids", .arr [.ofString "p1", .ofString "p3", .ofString "p1"])]])])
      else .decodeError }

theorem merge_threeFolders :
    (merge mergePython threeFolders samplePrompts (calling "merge" groupsText)).2 =
      .ok [["p1", "p3"]] := by
  have hok : (merge mergePython threeFolders samplePrompts
      (calling "merge" groupsText)).2.toOption = some [["p1", "p3"]] := by decide +kernel
  cases houtcome :
    (merge mergePython threeFolders samplePrompts (calling "merge" groupsText)).2 with
  | error e =>
      rw [houtcome] at hok
      cases hok
  | ok groups =>
      rw [houtcome] at hok
      exact congrArg _ (Option.some.inj hok)

theorem merge_joins_threeFolders :
    Trip.Joined threeFolders [["p1", "p3"]]
      ([["p1", "p3"]].foldl Trip.mergeGroup threeFolders) := by
  have hok : (Trip.make sampleNumerics [placedPhoto 1 "p1", placedPhoto 2 "p2", placedPhoto 3 "p3"]
      sampleRequest).toOption.isSome = true := by decide +kernel
  exact merge_joins (eq_ok_getD hok _) .refl merge_threeFolders

end Yeodam.Pipeline
