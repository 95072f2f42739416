/-
The photos of a story (`select` in `app/story/selection.py`).

Each place gives its photos by rank, the ones nearest to the mean of the place first, until its
allocation is full; a photo at or above the threshold with one chosen before is passed over.
`select_meets` says what comes of it for what `filter_candidates` returns, and
`select_never_misses` that `finalize` then never misses a place: the first photo of a place is
always chosen, and no allocation is 0.
-/

import Yeodam.Story.Allocation
import Yeodam.Story.Drafts

namespace Yeodam.Story

open Yeodam.Lib Yeodam.Schemas Yeodam.Jobs Yeodam.Pipeline

variable {M V : Type} [LinearOrder V]

/-! ### `select` -/

/-- `(-scores[i], group[i].taken_at, group[i].trip_attachment_id)` -/
def rank (scores : Nat → V) (group : List StoryAttachment) (i : Fin group.length) :
    Vᵒᵈ ×ₗ (Int ×ₗ Int) :=
  toLex (OrderDual.toDual (scores i), takenOrder group[i])

/-- The photo `i` is at or above the threshold with the photo `j`. -/
def tooLike (similar : Nat → Nat → V) (threshold : Option V) {n : Nat} (j i : Fin n) : Bool :=
  threshold.any fun t => t ≤ similar i j

/-- The photos chosen of one place, by their positions. -/
def chosenOf (scores : Nat → V) (similar : Nat → Nat → V) (threshold : Option V) (count : Nat)
    (group : List StoryAttachment) : List (Fin group.length) :=
  pick (tooLike similar threshold) count []
    (sortOn (rank scores group) (List.finRange group.length))

variable (scores : M → Nat → V) (units : Int → M) (sims : Int → Nat → Nat → V)
  (threshold : Option V)

/-- One round of the loop over the places: what a place adds, an allocation being positive. -/
def partOf (e : (Int × List StoryAttachment) × Int) : Int × List StoryAttachment :=
  (e.1.1, (chosenOf (scores (units e.1.1)) (sims e.1.1) threshold e.2.toNat e.1.2).map
    fun i => e.1.2[i])

/-- `select`. `scores` is `matrix @ matrix.mean(axis=0)`, by rows; `units` and `sims` have every
place of the groups. -/
def select (groups : Dict Int (List StoryAttachment)) (budget : Int) :
    Except AllocateError Selected := do
  let allocations ← allocate (groups.entries.map fun e => (e.2.length : Int)) budget
  let selected :=
    labelled ((groups.entries.zip allocations).map (partOf scores units sims threshold))
  return sortOn (fun item => takenOrder item.2) selected

variable {scores units sims threshold}

/-! ### What `filter_candidates` returns -/

/-- Under the id of each place of the request some of its photos, in order. -/
structure GroupsOf (request : StoryMessage) (groups : Dict Int (List StoryAttachment)) : Prop where
  places : ∀ place ∈ request.places, ∃ group, (place.tripPlaceId, group) ∈ groups.entries
  photos : ∀ e ∈ groups.entries, ∃ place ∈ request.places, place.tripPlaceId = e.1 ∧
    e.2.Sublist (sortOn takenOrder place.attachments)
  nonempty : ∀ e ∈ groups.entries, e.2 ≠ []

section Filtered

variable {B I W : Type} {N : Numerics W} {images : StoryImages B I} {limits : FilterLimits}
  {request : StoryMessage} {groups : Dict Int (List StoryAttachment)} {place : StoryPlace}

theorem filterPlace_ne_nil {i : Nat} {retained : List StoryAttachment}
    (h : (filterPlace N images limits i place).outcome = .ok retained) : retained ≠ [] := by
  unfold filterPlace at h
  simp only [Script.outcome_bind] at h
  obtain ⟨out, -, h⟩ := except_bind_eq_ok.mp h
  split at h
  · cases h
  · rename_i hne
    cases h
    simpa using hne

/-- What a place keeps is some of its photos, in order. -/
theorem filterPlace_sublist {i : Nat} {retained : List StoryAttachment}
    (hnodup : (place.attachments.map StoryAttachment.tripAttachmentId).Nodup)
    (h : (filterPlace N images limits i place).outcome = .ok retained) :
    retained.Sublist (sortOn takenOrder place.attachments) := by
  obtain ⟨ms, hms, rfl⟩ := (filterPlace_outcome hnodup).1 retained h
  have hfst : ms.map Prod.fst = sortOn takenOrder place.attachments :=
    (map_eq_of_forall₂ hms fun a c hc => hc.1).trans (List.map_id _)
  have hkept := (keptOf_sublist (judgePlace N limits [] ms)).map Prod.fst
  rw [show (judgePlace N limits [] ms).map Prod.fst = ms from map_fst_greedy _ _ _ _, hfst] at hkept
  exact hkept

theorem groupsOf_runFilter {cancelled : Nat → Bool} (hchecked : Checked request)
    (h : runFilter N images limits request cancelled = .ok groups) : GroupsOf request groups := by
  obtain ⟨hplaces, hothers⟩ :=
    foldlM_filterInto (nodup_places hchecked) (Script.execute_eq_ok.mp h).2
  -- Every entry is that of a place.
  have hentry : ∀ e ∈ groups.entries, ∃ p ∈ request.places.zipIdx, p.1.tripPlaceId = e.1 ∧
      (filterPlace N images limits p.2 p.1).outcome = .ok e.2 := by
    intro e he
    have hget := Dict.mem_entries_iff.mp (show (e.1, e.2) ∈ groups.entries from he)
    by_cases hp : e.1 ∈ request.places.zipIdx.map fun p => p.1.tripPlaceId
    · obtain ⟨p, hp, hid⟩ := List.mem_map.mp hp
      obtain ⟨retained, hretained, hget'⟩ := hplaces p hp
      rw [hid, hget] at hget'
      cases hget'
      exact ⟨p, hp, hid, hretained⟩
    · rw [hothers e.1 hp] at hget
      cases hget
  constructor
  · intro place hplace
    obtain ⟨i, hi⟩ : ∃ i, (place, i) ∈ request.places.zipIdx := by
      rw [← List.zipIdx_map_fst 0 request.places] at hplace
      obtain ⟨p, hp, rfl⟩ := List.mem_map.mp hplace
      exact ⟨p.2, hp⟩
    obtain ⟨retained, -, hget⟩ := hplaces (place, i) hi
    exact ⟨retained, Dict.mem_entries_iff.mpr hget⟩
  · intro e he
    obtain ⟨p, hp, hid, hretained⟩ := hentry e he
    have hplace : p.1 ∈ request.places := List.fst_mem_of_mem_zipIdx hp
    exact ⟨p.1, hplace, hid, filterPlace_sublist (hchecked.nodup hplace) hretained⟩
  · intro e he
    obtain ⟨p, -, -, hretained⟩ := hentry e he
    exact filterPlace_ne_nil hretained

/-- The photos of a group are those of one place, each once. -/
theorem GroupsOf.nodup (h : GroupsOf request groups) (hchecked : Checked request)
    {e : Int × List StoryAttachment} (he : e ∈ groups.entries) :
    (e.2.map StoryAttachment.tripAttachmentId).Nodup := by
  obtain ⟨place, hplace, -, hsub⟩ := h.photos e he
  exact (nodup_map_sortOn (hchecked.nodup hplace)).sublist (hsub.map _)

/-- No photo is in two groups. -/
theorem GroupsOf.apart (h : GroupsOf request groups) (hchecked : Checked request)
    {e e' : Int × List StoryAttachment} (he : e ∈ groups.entries) (he' : e' ∈ groups.entries)
    {a a' : StoryAttachment} (ha : a ∈ e.2) (ha' : a' ∈ e'.2)
    (hid : a.tripAttachmentId = a'.tripAttachmentId) : e.1 = e'.1 := by
  obtain ⟨place, hplace, hp, hsub⟩ := h.photos e he
  obtain ⟨place', hplace', hp', hsub'⟩ := h.photos e' he'
  have hsame := (hchecked.same_photo hplace hplace' (mem_sortOn.mp (hsub.subset ha))
    (mem_sortOn.mp (hsub'.subset ha')) hid).1
  rw [← hp, ← hp', hsame]

end Filtered

/-! ### One place -/

section Place

variable {scores : Nat → V} {similar : Nat → Nat → V} {threshold : Option V} {count : Nat}
  {group : List StoryAttachment}

/-- Photos with distinct ids stand at one position each. -/
theorem photo_injective (hnodup : (group.map StoryAttachment.tripAttachmentId).Nodup)
    {i j : Fin group.length} (h : group[i].tripAttachmentId = group[j].tripAttachmentId) :
    i = j := by
  have hinj := List.nodup_iff_injective_get.mp hnodup
  have hsame : (⟨i, by simp⟩ : Fin (group.map StoryAttachment.tripAttachmentId).length) =
      ⟨j, by simp⟩ := hinj (by simpa using h)
  exact Fin.ext (Fin.mk.inj_iff.mp hsame)

omit [LinearOrder V] in
theorem rank_injective (hnodup : (group.map StoryAttachment.tripAttachmentId).Nodup)
    {i j : Fin group.length} (h : rank scores group i = rank scores group j) : i = j :=
  photo_injective hnodup (congrArg (fun key : Vᵒᵈ ×ₗ (Int ×ₗ Int) => (ofLex (ofLex key).2).2) h)

theorem pairwise_rank (hnodup : (group.map StoryAttachment.tripAttachmentId).Nodup) :
    (sortOn (rank scores group) (List.finRange group.length)).Pairwise fun i j =>
      rank scores group i < rank scores group j :=
  pairwise_lt_sortOn ((List.nodup_finRange _).map fun _ _ h => rank_injective hnodup h)

/-- What is chosen of a place. -/
theorem chosenOf_spec (hnodup : (group.map StoryAttachment.tripAttachmentId).Nodup) :
    Picked (tooLike similar threshold) count (rank scores group)
      (sortOn (rank scores group) (List.finRange group.length))
      (chosenOf scores similar threshold count group) :=
  pick_spec (pairwise_rank hnodup)

theorem mem_ranked (i : Fin group.length) :
    i ∈ sortOn (rank scores group) (List.finRange group.length) :=
  mem_sortOn.mpr (List.mem_finRange i)

theorem chosenOf_nodup (hnodup : (group.map StoryAttachment.tripAttachmentId).Nodup) :
    (chosenOf scores similar threshold count group).Nodup :=
  (chosenOf_spec hnodup).sublist.nodup
    ((sortOn_perm _ _).nodup_iff.mpr (List.nodup_finRange _))

/-- Two chosen photos are below the threshold. -/
theorem chosenOf_apart (hnodup : (group.map StoryAttachment.tripAttachmentId).Nodup)
    (hsymm : ∀ i j, similar i j = similar j i) {t : V} (ht : threshold = some t)
    {i j : Fin group.length} (hi : i ∈ chosenOf scores similar threshold count group)
    (hj : j ∈ chosenOf scores similar threshold count group) (hne : i ≠ j) : similar i j < t := by
  have hspec : Picked (tooLike similar threshold) count (rank scores group)
      (sortOn (rank scores group) (List.finRange group.length))
      (chosenOf scores similar threshold count group) := chosenOf_spec hnodup
  have hapart := hspec.apart
  have hbelow : ∀ {i j : Fin group.length}, tooLike similar threshold j i = false →
      similar i j < t := by
    intro i j h
    rw [tooLike, ht, Option.any_some, decide_eq_false_iff_not] at h
    exact not_le.mp h
  have hrank : rank scores group i ≠ rank scores group j := fun h => hne (rank_injective hnodup h)
  rcases lt_or_gt_of_ne hrank with hlt | hlt
  · rw [hsymm]
    exact hbelow (hapart j hj i hi hlt)
  · exact hbelow (hapart i hi j hj hlt)

end Place

/-! ### The selection -/

/-- What a selection should be, `shares` being the allocations. -/
structure SelectionMeets (scores : M → Nat → V) (units : Int → M) (sims : Int → Nat → Nat → V)
    (threshold : Option V) (groups : Dict Int (List StoryAttachment)) (budget : Int)
    (shares : List Int) (selected : Selected) : Prop where
  /-- A photo of every place. -/
  covers : ∀ e ∈ groups.entries, ∃ item ∈ selected, item.1 = e.1
  photos : ∀ item ∈ selected, ∃ e ∈ groups.entries, e.1 = item.1 ∧ item.2 ∈ e.2
  once : (selected.map fun item => item.2.tripAttachmentId).Nodup
  /-- Of each place at most its allocation. -/
  quota : ∀ {k : Nat} {e : Int × List StoryAttachment} {share : Int}, groups.entries[k]? = some e →
    shares[k]? = some share → ((selected.filter fun item => item.1 = e.1).length : Int) ≤ share
  budget : (selected.length : Int) ≤ budget
  apart : ∀ e ∈ groups.entries, ∀ t, threshold = some t → ∀ i j : Fin e.2.length, i ≠ j →
    (e.1, e.2[i]) ∈ selected → (e.1, e.2[j]) ∈ selected → sims e.1 i j < t
  /-- What is not selected is too like a photo selected before it, or comes after the last one the
  allocation allows. -/
  left : ∀ {k : Nat} {e : Int × List StoryAttachment} {share : Int}, groups.entries[k]? = some e →
    shares[k]? = some share → ∀ i : Fin e.2.length, (e.1, e.2[i]) ∉ selected →
      (∃ t, threshold = some t ∧ ∃ j : Fin e.2.length, (e.1, e.2[j]) ∈ selected ∧
        rank (scores (units e.1)) e.2 j < rank (scores (units e.1)) e.2 i ∧ t ≤ sims e.1 i j) ∨
      (((selected.filter fun item => item.1 = e.1).length : Int) = share ∧
        ∀ j : Fin e.2.length, (e.1, e.2[j]) ∈ selected →
          rank (scores (units e.1)) e.2 j < rank (scores (units e.1)) e.2 i)
  ordered : selected.Pairwise fun a b => takenOrder a.2 < takenOrder b.2

section Selection

variable {request : StoryMessage} {groups : Dict Int (List StoryAttachment)} {budget : Int}
  {shares : List Int} {k : Nat} {e : Int × List StoryAttachment} {share : Int}

/-- The parts of the places have their labels. -/
theorem labels_parts (hlength : shares.length = groups.entries.length) :
    ((groups.entries.zip shares).map (partOf scores units sims threshold)).map Prod.fst =
      groups.entries.map Prod.fst := by
  have hfst : (groups.entries.zip shares).map Prod.fst = groups.entries :=
    List.map_fst_zip (Nat.le_of_eq hlength.symm)
  conv_rhs => rw [← hfst, List.map_map]
  rw [List.map_map]
  rfl

theorem nodup_parts (hlength : shares.length = groups.entries.length) :
    (((groups.entries.zip shares).map (partOf scores units sims threshold)).map
      Prod.fst).Nodup := by
  rw [labels_parts hlength]
  exact groups.nodup

theorem mem_parts (he : groups.entries[k]? = some e) (hshare : shares[k]? = some share) :
    partOf scores units sims threshold (e, share) ∈
      (groups.entries.zip shares).map (partOf scores units sims threshold) := by
  refine List.mem_map_of_mem (List.mem_of_getElem? (i := k) ?_)
  rw [List.getElem?_zip_eq_some]
  exact ⟨he, hshare⟩

/-- Where a part comes from. -/
theorem of_mem_parts {part : Int × List StoryAttachment}
    (h : part ∈ (groups.entries.zip shares).map (partOf scores units sims threshold)) :
    ∃ (k : Nat) (e : Int × List StoryAttachment) (share : Int), groups.entries[k]? = some e ∧
      shares[k]? = some share ∧ part = partOf scores units sims threshold (e, share) := by
  obtain ⟨⟨e, share⟩, hzip, rfl⟩ := List.mem_map.mp h
  obtain ⟨k, hk⟩ := List.mem_iff_getElem?.mp hzip
  rw [List.getElem?_zip_eq_some] at hk
  exact ⟨k, e, share, hk.1, hk.2, rfl⟩

/-- A photo of a group is selected if its position is chosen. -/
theorem mem_selected (hlength : shares.length = groups.entries.length)
    (hnodup : (e.2.map StoryAttachment.tripAttachmentId).Nodup) (he : groups.entries[k]? = some e)
    (hshare : shares[k]? = some share) (i : Fin e.2.length) :
    (e.1, e.2[i]) ∈ labelled
      ((groups.entries.zip shares).map (partOf scores units sims threshold)) ↔
      i ∈ chosenOf (scores (units e.1)) (sims e.1) threshold share.toNat e.2 := by
  have hpart : partOf scores units sims threshold (e, share) ∈
      (groups.entries.zip shares).map (partOf scores units sims threshold) := mem_parts he hshare
  rw [mem_labelled]
  constructor
  · rintro ⟨part, hmem, hi⟩
    have hsame := List.inj_on_of_nodup_map (nodup_parts hlength) hmem hpart rfl
    obtain rfl := congrArg Prod.snd hsame
    obtain ⟨j, hj, heq⟩ := List.mem_map.mp hi
    rwa [photo_injective hnodup (congrArg StoryAttachment.tripAttachmentId heq)] at hj
  · intro hi
    exact ⟨_, hpart, List.mem_map_of_mem hi⟩

theorem sum_cast_le {α : Type} {zs : List α} {f : α → Nat} {g : α → Int}
    (h : ∀ z ∈ zs, (f z : Int) ≤ g z) : ((zs.map f).sum : Int) ≤ (zs.map g).sum := by
  induction zs with
  | nil => exact le_rfl
  | cons z zs ih =>
      obtain ⟨hz, hzs⟩ := List.forall_mem_cons.mp h
      have hrest := ih hzs
      rw [List.map_cons, List.sum_cons, List.map_cons, List.sum_cons]
      rw [Nat.cast_add]
      omega

/-- Photos of the groups that have one id are one photo of one group. -/
theorem GroupsOf.same_item (hgroups : GroupsOf request groups) (hchecked : Checked request)
    {item item' : Int × StoryAttachment} (hitem : ∃ e ∈ groups.entries, e.1 = item.1 ∧ item.2 ∈ e.2)
    (hitem' : ∃ e ∈ groups.entries, e.1 = item'.1 ∧ item'.2 ∈ e.2)
    (hid : item.2.tripAttachmentId = item'.2.tripAttachmentId) : item = item' := by
  obtain ⟨e, he, hp, ha⟩ := hitem
  obtain ⟨e', he', hp', ha'⟩ := hitem'
  have hplace := hgroups.apart hchecked he he' ha ha' hid
  obtain rfl := List.inj_on_of_nodup_map groups.nodup he he' hplace
  exact Prod.ext (hp.symm.trans hp')
    (List.inj_on_of_nodup_map (hgroups.nodup hchecked he) ha ha' hid)

/-- **`select` covers every place without near-duplicates.** -/
theorem select_meets (hchecked : Checked request) (hgroups : GroupsOf request groups)
    (hne : groups.entries ≠ []) (hbudget : groups.entries.length ≤ budget)
    (hsymm : ∀ p i j, sims p i j = sims p j i) :
    ∃ shares selected,
      allocate (groups.entries.map fun e => (e.2.length : Int)) budget = .ok shares ∧
      select scores units sims threshold groups budget = .ok selected ∧
      SelectionMeets scores units sims threshold groups budget shares selected := by
  have hallocatable : Allocatable (groups.entries.map fun e => (e.2.length : Int)) budget := by
    refine ⟨by simpa using hne, fun c hc => ?_, by simpa using hbudget⟩
    obtain ⟨e, he, rfl⟩ := List.mem_map.mp hc
    have hpos := List.length_pos_of_ne_nil (hgroups.nonempty e he)
    omega
  obtain ⟨-, shares, hallocate, happortioned⟩ | ⟨hno, -⟩ := allocate_spec
    (groups.entries.map fun e => (e.2.length : Int)) budget
  swap
  · exact absurd hallocatable hno
  have hlength : shares.length = groups.entries.length := by
    rw [happortioned.length, List.length_map]
  -- Every entry has a positive share.
  have hshare : ∀ e ∈ groups.entries, ∃ (k : Nat) (share : Int), groups.entries[k]? = some e ∧
      shares[k]? = some share := by
    intro e he
    obtain ⟨k, hk⟩ := List.mem_iff_getElem?.mp he
    have hlt : k < shares.length := by
      rw [hlength]
      exact (List.getElem?_eq_some_iff.mp hk).1
    exact ⟨k, shares[k], hk, List.getElem?_eq_getElem hlt⟩
  have hpositive : ∀ {k : Nat} {e : Int × List StoryAttachment} {share : Int},
      groups.entries[k]? = some e → shares[k]? = some share → 1 ≤ share := by
    intro k e share he hshare
    have hcount : (groups.entries.map fun e => (e.2.length : Int))[k]? =
        some (e.2.length : Int) := by
      rw [List.getElem?_map, he]
      rfl
    exact (happortioned.within hcount hshare).1
  have hnodup : ∀ {e : Int × List StoryAttachment}, e ∈ groups.entries →
      (e.2.map StoryAttachment.tripAttachmentId).Nodup := fun he => hgroups.nodup hchecked he
  set parts := (groups.entries.zip shares).map (partOf scores units sims threshold) with hparts
  have hselect : select scores units sims threshold groups budget =
      .ok (sortOn (fun item => takenOrder item.2) (labelled parts)) := by
    rw [select, hallocate, except_ok_bind]
    rfl
  have hperm := sortOn_perm (fun item : Int × StoryAttachment => takenOrder item.2) (labelled parts)
  have hmem : ∀ {k : Nat} {e : Int × List StoryAttachment} {share : Int},
      groups.entries[k]? = some e → shares[k]? = some share → ∀ i : Fin e.2.length,
        ((e.1, e.2[i]) ∈ sortOn (fun item => takenOrder item.2) (labelled parts) ↔
          i ∈ chosenOf (scores (units e.1)) (sims e.1) threshold share.toNat e.2) := by
    intro k e share he hshare i
    rw [hperm.mem_iff]
    exact mem_selected hlength (hnodup (List.mem_of_getElem? he)) he hshare i
  have hcount : ∀ {k : Nat} {e : Int × List StoryAttachment} {share : Int},
      groups.entries[k]? = some e → shares[k]? = some share →
        ((sortOn (fun item => takenOrder item.2) (labelled parts)).filter fun item =>
          item.1 = e.1).length =
            (chosenOf (scores (units e.1)) (sims e.1) threshold share.toNat e.2).length := by
    intro k e share he hshare
    have hpart : partOf scores units sims threshold (e, share) ∈ parts := mem_parts he hshare
    have hfilter := filter_labelled (nodup_parts hlength) hpart
    rw [(hperm.filter _).length_eq]
    refine (congrArg List.length hfilter).trans ?_
    rw [List.length_map, List.length_map]
  have hspec : ∀ {k : Nat} {e : Int × List StoryAttachment} (share : Int),
      groups.entries[k]? = some e → Picked (tooLike (sims e.1) threshold) share.toNat
        (rank (scores (units e.1)) e.2)
        (sortOn (rank (scores (units e.1)) e.2) (List.finRange e.2.length))
        (chosenOf (scores (units e.1)) (sims e.1) threshold share.toNat e.2) :=
    fun share he => chosenOf_spec (hnodup (List.mem_of_getElem? he))
  have hphotos : ∀ item ∈ labelled parts, ∃ e ∈ groups.entries, e.1 = item.1 ∧ item.2 ∈ e.2 := by
    rintro ⟨p, a⟩ hitem
    obtain ⟨part, hpart, ha⟩ := mem_labelled.mp hitem
    obtain ⟨k, e, share, he, -, heq⟩ := of_mem_parts hpart
    obtain ⟨rfl, rfl⟩ := Prod.mk.injEq .. ▸ heq
    obtain ⟨i, -, rfl⟩ := List.mem_map.mp ha
    exact ⟨e, List.mem_of_getElem? he, rfl, List.getElem_mem _⟩
  have honce : ((labelled parts).map fun item => item.2.tripAttachmentId).Nodup := by
    have hparts : (labelled parts).Nodup := by
      apply nodup_labelled (nodup_parts hlength)
      intro part hpart
      obtain ⟨k, e, share, he, -, rfl⟩ := of_mem_parts hpart
      have hids := hnodup (List.mem_of_getElem? he)
      exact (chosenOf_nodup hids).map fun i j h =>
        photo_injective hids (congrArg StoryAttachment.tripAttachmentId h)
    exact hparts.map_on fun item hitem item' hitem' hid =>
      hgroups.same_item hchecked (hphotos item hitem) (hphotos item' hitem') hid
  refine ⟨shares, _, hallocate, hselect, ?_⟩
  constructor
  case covers =>
    intro e he
    obtain ⟨k, share, hk, hshare⟩ := hshare e he
    have hpos := hpositive hk hshare
    have hsome := (hspec share hk).nonempty (fun hnil => ?_) (by omega)
    · obtain ⟨i, hi⟩ := List.exists_mem_of_ne_nil _ hsome
      exact ⟨_, (hmem hk hshare i).mpr hi, rfl⟩
    · rw [sortOn_eq_nil, List.finRange_eq_nil_iff, List.length_eq_zero_iff] at hnil
      exact hgroups.nonempty e he hnil
  case photos => exact fun item hitem => hphotos item (hperm.mem_iff.mp hitem)
  case once => exact (hperm.map _).nodup_iff.mpr honce
  case quota =>
    intro k e share he hshare
    have hle := (hspec share he).length
    have hpos := hpositive he hshare
    rw [hcount he hshare]
    omega
  case budget =>
    have hsnd : (groups.entries.zip shares).map Prod.snd = shares :=
      List.map_snd_zip (Nat.le_of_eq hlength)
    have hle : (((groups.entries.zip shares).map fun e =>
        (partOf scores units sims threshold e).2.length).sum : Int) ≤
          ((groups.entries.zip shares).map Prod.snd).sum := by
      apply sum_cast_le
      intro e he
      obtain ⟨k, hk⟩ := List.mem_iff_getElem?.mp he
      rw [List.getElem?_zip_eq_some] at hk
      have hone := (hspec e.2 hk.1).length
      have hpos := hpositive hk.1 hk.2
      rw [partOf, List.length_map]
      omega
    have hsum := happortioned.sum
    rw [hsnd] at hle
    rw [hperm.length_eq, length_labelled, hparts, List.map_map]
    apply hle.trans
    rw [hsum]
    exact min_le_left _ _
  case apart =>
    intro e he t ht i j hne hi hj
    obtain ⟨k, share, hk, hshare⟩ := hshare e he
    exact chosenOf_apart (hnodup he) (hsymm e.1) ht ((hmem hk hshare i).mp hi)
      ((hmem hk hshare j).mp hj) hne
  case left =>
    intro k e share he hshare i hi
    have hno : i ∉ chosenOf (scores (units e.1)) (sims e.1) threshold share.toNat e.2 :=
      fun h => hi ((hmem he hshare i).mpr h)
    have hpos := hpositive he hshare
    rcases (hspec share he).left i (mem_ranked i) hno with ⟨j, hj, hlt, hlike⟩ | ⟨hfull, hbefore⟩
    · left
      obtain ⟨t, ht, hle⟩ := (Option.any_eq_true _ _).mp hlike
      exact ⟨t, ht, j, (hmem he hshare j).mpr hj, hlt, of_decide_eq_true hle⟩
    · right
      refine ⟨?_, fun j hj => hbefore j ((hmem he hshare j).mp hj)⟩
      rw [hcount he hshare, hfull]
      omega
  case ordered =>
    refine pairwise_lt_sortOn (List.Nodup.of_map (fun key : Int ×ₗ Int => (ofLex key).2) ?_)
    rw [List.map_map]
    exact honce

/-- A selection is one of the request, with a photo of each of its places. -/
theorem SelectionMeets.selects {selected : Selected} (hgroups : GroupsOf request groups)
    (h : SelectionMeets scores units sims threshold groups budget shares selected) :
    Selects request selected where
  photo := by
    intro item hitem
    obtain ⟨e, he, hp, ha⟩ := h.photos item hitem
    obtain ⟨place, hplace, hp', hsub⟩ := hgroups.photos e he
    exact ⟨place, hplace, hp'.trans hp, mem_sortOn.mp (hsub.subset ha)⟩
  covers := by
    intro place hplace
    obtain ⟨group, hgroup⟩ := hgroups.places place hplace
    exact h.covers _ hgroup

end Selection

/-- **The selection of a story.** For what `filter_candidates` returns and a budget for every place,
the selection is as it should be, and no draft meets `place_missing`. -/
theorem select_never_misses {B I W R : Type} {N : Numerics W} {images : StoryImages B I}
    {limits : FilterLimits} {request : StoryMessage} {groups : Dict Int (List StoryAttachment)}
    {cancelled : Nat → Bool} {budget : Int} (hchecked : Checked request)
    (hfilter : runFilter N images limits request cancelled = .ok groups) (hne : groups.entries ≠ [])
    (hbudget : groups.entries.length ≤ budget) (hsymm : ∀ p i j, sims p i j = sims p j i) :
    ∃ shares selected,
      allocate (groups.entries.map fun e => (e.2.length : Int)) budget = .ok shares ∧
      select scores units sims threshold groups budget = .ok selected ∧
      SelectionMeets scores units sims threshold groups budget shares selected ∧
      ∀ (lib : Libraries) (parse : R → Option Value) (raw : R),
        finalize lib parse raw request selected ≠ .error (invalidOutput .placeMissing) := by
  have hgroups := groupsOf_runFilter hchecked hfilter
  obtain ⟨shares, selected, hallocate, hselect, hmeets⟩ :=
    @select_meets M V _ scores units sims threshold _ _ _ hchecked hgroups hne hbudget hsymm
  refine ⟨shares, selected, hallocate, hselect, hmeets, fun lib parse raw => ?_⟩
  exact finalize_ne_placeMissing hchecked (hmeets.selects hgroups)

/-! ### A story of two places -/

/-- Every copy is its own image, and its key the hash. -/
def namedImages : StoryImages String String where
  getMany := fun _ _ => .ok some
  decode := fun b => .ok (some b)
  measure := fun b => .ok ⟨.finite "1.0", b⟩

/-- Three photos at one place and one at another. -/
def twoPlaces : StoryMessage :=
  ⟨1, "e", "", ⟨0, 10⟩, .calm,
    [⟨7, "", [⟨1, "0000000000000000", ⟨1, 0⟩, none⟩, ⟨2, "ffffffffffffffff", ⟨2, 0⟩, none⟩,
      ⟨3, "00000000ffffffff", ⟨3, 0⟩, none⟩]⟩, ⟨8, "", [⟨4, "0000000000000000", ⟨4, 0⟩, none⟩]⟩]⟩

/-- The second photo is the nearest to the mean of its place. -/
def middleScores (_ : Unit) (i : Nat) : Int := if i = 1 then 2 else 1

/-- The first two photos of the place 7 are near-duplicates. -/
def firstTwoAlike (p : Int) (i j : Nat) : Int := if p = 7 ∧ i + j = 1 then 1 else 0

def twoGroups : Dict Int (List StoryAttachment) :=
  (runFilter sampleNumerics namedImages ⟨0, 4⟩ twoPlaces fun _ => false).toOption.getD ∅

/-- The photo 1 is passed over for the photo 2, and the place 8 has its own. -/
theorem select_never_misses_twoPlaces : ∃ shares selected,
    runFilter sampleNumerics namedImages ⟨0, 4⟩ twoPlaces (fun _ => false) = .ok twoGroups ∧
      allocate (twoGroups.entries.map fun e => (e.2.length : Int)) 3 = .ok shares ∧
      select middleScores (fun _ => ()) firstTwoAlike (some 1) twoGroups 3 = .ok selected ∧
      selected.map (fun item => (item.1, item.2.tripAttachmentId)) = [(7, 2), (7, 3), (8, 4)] ∧
      SelectionMeets middleScores (fun _ => ()) firstTwoAlike (some 1) twoGroups 3 shares selected ∧
      finalize sampleLibraries some .null twoPlaces selected ≠
        .error (invalidOutput .placeMissing) := by
  have hrun : (runFilter sampleNumerics namedImages ⟨0, 4⟩ twoPlaces
      fun _ => false).toOption.isSome = true := by
    decide +kernel
  have hsymm : ∀ p i j, firstTwoAlike p i j = firstTwoAlike p j i := by
    intro p i j
    rw [firstTwoAlike, firstTwoAlike, Nat.add_comm]
  obtain ⟨shares, selected, hallocate, hselect, hmeets, hnever⟩ :=
    @select_never_misses Unit Int _ middleScores (fun _ => ()) firstTwoAlike (some 1) _ _ _ Value
      _ _ _ _ _ _ 3 ⟨by decide, by decide⟩ (eq_ok_getD hrun ∅) (by decide +kernel)
      (by decide +kernel) hsymm
  have hids : (select middleScores (fun _ => ()) firstTwoAlike (some 1) twoGroups 3).toOption.map
      (fun selected => selected.map fun item => (item.1, item.2.tripAttachmentId)) =
        some [(7, 2), (7, 3), (8, 4)] := by
    decide +kernel
  refine ⟨shares, selected, eq_ok_getD hrun ∅, hallocate, hselect, ?_, hmeets, hnever _ _ _⟩
  have hselected : select middleScores (fun _ => ()) firstTwoAlike (some 1) twoGroups 3 =
      .ok selected := hselect
  rw [hselected] at hids
  exact Option.some.inj hids

end Yeodam.Story
