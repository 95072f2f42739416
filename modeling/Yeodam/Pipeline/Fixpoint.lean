/-
Assigning unlocated photos ends in a fixpoint.

`JoinsByTime` and `JoinsByLikeness` say what the two rules ask for, without the lists the code
goes through; the rules of the code name a folder exactly there (`timeRule_eq_some_iff`,
`similarityRule_eq_some_iff`). A pass that places nothing leaves the photos as they are, and then
no rule has a folder for any target (`assignPass_idle`). The loop stops after such a pass, and
before its passes run out: each other one places a target, and no target is placed twice
(`assignPasses_add`).
-/

import Yeodam.Pipeline.Rules

namespace Yeodam.Pipeline

open Yeodam.Lib Yeodam.Schemas

variable {V : Type} {N : Numerics V} {photos photos' : List (PhotoState V)}
  {p q photo : PhotoState V}
  {targets : List Int} {state state' : Assigned V} {id : Int} {minSim : ℚ} {gap : Int}

/-! ### What the rules ask for -/

/-- The photo has the folder and was taken at the time. -/
structure PlacedAt (photos : List (PhotoState V)) (p : PhotoState V) (place : String)
    (t : AwareTime) : Prop where
  mem : p ∈ photos
  folder : p.folder? = some place
  time : p.takenAt = some t

/-- The photo with a folder that was taken last, up to an instant; of photos taken at once, the
one with the greatest id. -/
structure LastUntil (photos : List (PhotoState V)) (instant : Int) (p : PhotoState V)
    (place : String) (t : AwareTime) : Prop where
  placed : PlacedAt photos p place t
  until_ : t.instant ≤ instant
  last : ∀ q place' t', PlacedAt photos q place' t' → t'.instant ≤ instant →
    t'.instant < t.instant ∨ t'.instant = t.instant ∧ q.id ≤ p.id

/-- The photo with a folder that was taken first, from an instant on; of photos taken at once,
the one with the least id. -/
structure FirstFrom (photos : List (PhotoState V)) (instant : Int) (p : PhotoState V)
    (place : String) (t : AwareTime) : Prop where
  placed : PlacedAt photos p place t
  from_ : instant ≤ t.instant
  first : ∀ q place' t', PlacedAt photos q place' t' → instant ≤ t'.instant →
    t.instant < t'.instant ∨ t.instant = t'.instant ∧ p.id ≤ q.id

/-- The time rule: the photos with a folder taken just before and just after `photo` are in the
folder, both within the gap. -/
def JoinsByTime (gap : Int) (photos : List (PhotoState V)) (photo : PhotoState V)
    (place : String) : Prop :=
  ∃ t before tb after ta, photo.takenAt = some t ∧
    LastUntil photos t.instant before place tb ∧ FirstFrom photos t.instant after place ta ∧
    t.instant - tb.instant ≤ gap ∧ ta.instant - t.instant ≤ gap

/-- The similarity rule: of all folders, this one alone has a photo other than `photo` at or above
the similarity. -/
def JoinsByLikeness (N : Numerics V) (minSim : ℚ) (photos : List (PhotoState V))
    (photo : PhotoState V) (place : String) : Prop :=
  ∀ place', (∃ other ∈ photos, other.id ≠ photo.id ∧ other.folder? = some place' ∧
    minSim ≤ similarity N other photo) ↔ place' = place

theorem mem_track {e : TrackEntry} : e ∈ track photos ↔
    ∃ p t, PlacedAt photos p e.place t ∧ p.id = e.id ∧ t.instant = e.instant := by
  rw [track, mem_sortOn, List.mem_filterMap]
  constructor
  · rintro ⟨p, hp, hentry⟩
    unfold trackEntry at hentry
    split at hentry
    · rename_i place t hfolder htime
      cases hentry
      exact ⟨p, t, ⟨mem_byId.mp hp, hfolder, htime⟩, rfl, rfl⟩
    · cases hentry
  · rintro ⟨p, t, ⟨hp, hfolder, htime⟩, hid, hinstant⟩
    refine ⟨p, mem_byId.mpr hp, ?_⟩
    simp only [trackEntry, hfolder, htime, hid, hinstant]

/-- The track is in the order of time and id. -/
theorem pairwise_track (hnodup : (photos.map PhotoState.id).Nodup) :
    (track photos).Pairwise fun a b => toLex (a.instant, a.id) < toLex (b.instant, b.id) := by
  refine pairwise_lt_sortOn (List.Nodup.of_map (fun k => (ofLex k).2) ?_)
  have hids : ((byId photos).filterMap trackEntry).map TrackEntry.id =
      ((byId photos).filter fun p => (trackEntry p).isSome).map PhotoState.id := by
    induction byId photos with
    | nil => rfl
    | cons p ps ih =>
        rw [List.filterMap_cons, List.filter_cons]
        cases hentry : trackEntry p with
        | none => exact ih
        | some e =>
            have hid : e.id = p.id := by
              unfold trackEntry at hentry
              split at hentry <;> cases hentry
              rfl
            simp only [Option.isSome_some, if_true, List.map_cons, ih, hid]
  rw [List.map_map]
  show (((byId photos).filterMap trackEntry).map TrackEntry.id).Nodup
  rw [hids]
  exact (nodup_ids_byId hnodup).sublist (List.filter_sublist.map _)

/-- **The time rule of the code** names the folder that `JoinsByTime` does. -/
theorem timeRule_eq_some_iff {place : String} (hnodup : (photos.map PhotoState.id).Nodup) :
    timeRule (track photos) gap photos' photo = some place ↔
      JoinsByTime gap photos photo place := by
  have hsorted := fun q : TrackEntry → Bool => (pairwise_track hnodup).filter q
  have hbefore : ∀ (instant : Int) (e : TrackEntry),
      ((track photos).filter fun e => e.instant ≤ instant).getLast? = some e ↔
        ∃ p t, LastUntil photos instant p e.place t ∧ p.id = e.id ∧ t.instant = e.instant := by
    intro instant e
    rw [getLast?_eq_some_iff_greatest (hsorted _)]
    simp only [List.mem_filter, decide_eq_true_eq, Prod.Lex.toLex_le_toLex]
    constructor
    · rintro ⟨⟨he, hle⟩, hgreatest⟩
      obtain ⟨p, t, hplaced, hid, hinstant⟩ := mem_track.mp he
      refine ⟨p, t, ⟨hplaced, hinstant ▸ hle, fun q place' t' hq ht' => ?_⟩, hid, hinstant⟩
      have hlast := hgreatest ⟨t'.instant, q.id, place'⟩ ⟨mem_track.mpr ⟨q, t', hq, rfl, rfl⟩, ht'⟩
      rw [hid, hinstant]
      exact hlast
    · rintro ⟨p, t, ⟨hplaced, hle, hlast⟩, hid, hinstant⟩
      refine ⟨⟨mem_track.mpr ⟨p, t, hplaced, hid, hinstant⟩, hinstant ▸ hle⟩, ?_⟩
      rintro e' ⟨he', hle'⟩
      obtain ⟨q, t', hq, hid', hinstant'⟩ := mem_track.mp he'
      rw [← hid, ← hinstant, ← hid', ← hinstant']
      exact hlast q _ t' hq (hinstant' ▸ hle')
  have hafter : ∀ (instant : Int) (e : TrackEntry),
      ((track photos).filter fun e => instant ≤ e.instant).head? = some e ↔
        ∃ p t, FirstFrom photos instant p e.place t ∧ p.id = e.id ∧ t.instant = e.instant := by
    intro instant e
    rw [head?_eq_some_iff_least (hsorted _)]
    simp only [List.mem_filter, decide_eq_true_eq, Prod.Lex.toLex_le_toLex]
    constructor
    · rintro ⟨⟨he, hle⟩, hleast⟩
      obtain ⟨p, t, hplaced, hid, hinstant⟩ := mem_track.mp he
      refine ⟨p, t, ⟨hplaced, hinstant ▸ hle, fun q place' t' hq ht' => ?_⟩, hid, hinstant⟩
      have hfirst := hleast ⟨t'.instant, q.id, place'⟩ ⟨mem_track.mpr ⟨q, t', hq, rfl, rfl⟩, ht'⟩
      rw [hid, hinstant]
      exact hfirst
    · rintro ⟨p, t, ⟨hplaced, hle, hfirst⟩, hid, hinstant⟩
      refine ⟨⟨mem_track.mpr ⟨p, t, hplaced, hid, hinstant⟩, hinstant ▸ hle⟩, ?_⟩
      rintro e' ⟨he', hle'⟩
      obtain ⟨q, t', hq, hid', hinstant'⟩ := mem_track.mp he'
      rw [← hid, ← hinstant, ← hid', ← hinstant']
      exact hfirst q _ t' hq (hinstant' ▸ hle')
  constructor
  · intro h
    obtain ⟨t, htaken, h⟩ := Option.bind_eq_some_iff.mp h
    unfold timeFolder at h
    split at h
    · rename_i before after hlast hfirst
      split at h
      · rename_i hnear
        cases h
        obtain ⟨p, tb, hp, -, htb⟩ := (hbefore _ _).mp hlast
        obtain ⟨q, ta, hq, -, hta⟩ := (hafter _ _).mp hfirst
        rw [← hnear.1] at hq
        exact ⟨t, p, tb, q, ta, htaken, hp, hq, htb ▸ hnear.2.1, hta ▸ hnear.2.2⟩
      · cases h
    · cases h
  · rintro ⟨t, p, tb, q, ta, htaken, hp, hq, hgapb, hgapa⟩
    have hlast := (hbefore t.instant ⟨tb.instant, p.id, place⟩).mpr ⟨p, tb, hp, rfl, rfl⟩
    have hfirst := (hafter t.instant ⟨ta.instant, q.id, place⟩).mpr ⟨q, ta, hq, rfl, rfl⟩
    simp only [timeRule, htaken, Option.bind_some, timeFolder, hlast, hfirst]
    exact if_pos ⟨trivial, hgapb, hgapa⟩

/-- **The similarity rule of the code** names the folder that `JoinsByLikeness` does. -/
theorem similarityRule_eq_some_iff {place : String} :
    similarityRule N minSim photos photo = some place ↔
      JoinsByLikeness N minSim photos photo place := by
  have hmem : ∀ place', place' ∈ similarFolders N minSim photos photo ↔
      ∃ other ∈ photos, other.id ≠ photo.id ∧ other.folder? = some place' ∧
        minSim ≤ similarity N other photo := by
    intro place'
    rw [similarFolders, List.mem_eraseDups, List.mem_filterMap]
    refine exists_congr fun other => and_congr mem_byId ?_
    split
    · rename_i hlike
      exact ⟨fun h => ⟨hlike.1, h, hlike.2⟩, fun h => h.2.1⟩
    · rename_i hnot
      exact ⟨fun h => (nomatch h), fun h => absurd ⟨h.1, h.2.2⟩ hnot⟩
  have hsingle : similarityRule N minSim photos photo = some place ↔
      similarFolders N minSim photos photo = [place] := by
    unfold similarityRule
    split
    · rename_i place' heq
      rw [heq, Option.some.injEq, List.cons.injEq]
      simp
    · rename_i hnot
      exact ⟨fun h => (nomatch h), fun h => absurd h (hnot place)⟩
  rw [hsingle]
  constructor
  · intro h place'
    rw [← hmem, h, List.mem_singleton]
  · intro h
    have hnodup : (similarFolders N minSim photos photo).Nodup := nodup_eraseDups _
    refine List.perm_singleton.mp
      ((List.perm_ext_iff_of_nodup hnodup (List.nodup_singleton _)).mpr ?_)
    intro place'
    rw [hmem, h, List.mem_singleton]

/-! ### Rules that do not apply -/

/-- The rule has no folder for a target without one. -/
def Idle (rule : List (PhotoState V) → PhotoState V → Option String) (targets : List Int)
    (photos : List (PhotoState V)) : Prop :=
  ∀ id ∈ targets, ∀ photo, current photos id = some photo → photo.folder? = none →
    rule photos photo = none

theorem assignBy_idle {rule : List (PhotoState V) → PhotoState V → Option String}
    (h : assignBy N rule state id = .ok state') (hcount : state'.assigned = state.assigned) :
    state' = state ∧ Idle rule [id] state.photos := by
  unfold assignBy at h
  split at h
  · rename_i hnone
    cases h
    refine ⟨rfl, fun other hother photo hphoto => ?_⟩
    obtain rfl := List.mem_singleton.mp hother
    rw [hnone] at hphoto
    cases hphoto
  · rename_i found hfound
    split at h
    · obtain ⟨photos', -, h⟩ := except_bind_eq_ok.mp h
      cases h
      exact absurd hcount (Nat.succ_ne_self _)
    · rename_i hidle
      cases h
      refine ⟨rfl, fun other hother photo hphoto hfolder => ?_⟩
      obtain rfl := List.mem_singleton.mp hother
      rw [hfound, Option.some.injEq] at hphoto
      subst hphoto
      cases hrule : rule state.photos found with
      | none => rfl
      | some place => exact (hidle place hfolder hrule).elim

/-- A loop that places nothing. -/
theorem foldlM_assignBy_idle {rule : List (PhotoState V) → PhotoState V → Option String}
    {ids : List Int} (hnames : NamesFolders rule)
    (h : ids.foldlM (assignBy N rule) state = .ok state')
    (hcount : state'.assigned = state.assigned) : state' = state ∧ Idle rule ids state.photos := by
  induction ids generalizing state with
  | nil =>
      cases h
      exact ⟨rfl, fun id hid => absurd hid List.not_mem_nil⟩
  | cons id ids ih =>
      rw [List.foldlM_cons, except_bind_eq_ok] at h
      obtain ⟨mid, hmid, hrest⟩ := h
      have hself : id ∈ [id] := List.mem_cons_self
      obtain ⟨moves, -, hfirst⟩ := assignBy_run hnames hself hmid
      obtain ⟨more, -, hmore⟩ := foldlM_assignBy_run hnames (fun _ hid => hid) hrest
      have hmid_count : mid.assigned = state.assigned := by omega
      obtain ⟨rfl, hid⟩ := assignBy_idle hmid hmid_count
      obtain ⟨hstate, hids⟩ := ih hrest hcount
      refine ⟨hstate, fun other hother => ?_⟩
      rcases List.mem_cons.mp hother with rfl | hother
      · exact hid other (List.mem_singleton_self _)
      · exact hids other hother

/-- **No rule applies** to a target without a folder. -/
structure NothingLeft (N : Numerics V) (targets : List Int) (minSim : ℚ) (gap : Int)
    (photos : List (PhotoState V)) : Prop where
  time : ∀ p ∈ photos, p.id ∈ targets → p.folder? = none →
    ∀ place, ¬ JoinsByTime gap photos p place
  similar : ∀ p ∈ photos, p.id ∈ targets → p.folder? = none →
    ∀ place, ¬ JoinsByLikeness N minSim photos p place

/-- What an idle rule of the code says of the photos. -/
theorem Idle.not_named {rule : List (PhotoState V) → PhotoState V → Option String}
    (h : Idle rule targets photos) (hnodup : (photos.map PhotoState.id).Nodup) (hp : p ∈ photos)
    (hid : p.id ∈ targets) (hfolder : p.folder? = none) (place : String) :
    rule photos p ≠ some place := by
  rw [h p.id hid p (current_of_mem hnodup hp) hfolder]
  exact nofun

/-- A pass that places nothing. -/
theorem assignPass_idle (hnodup : (state.photos.map PhotoState.id).Nodup)
    (h : assignPass N targets minSim gap state = .ok state')
    (hcount : state'.assigned = state.assigned) :
    state' = state ∧ NothingLeft N targets minSim gap state.photos := by
  obtain ⟨timed, htimed, hrest⟩ := except_bind_eq_ok.mp h
  obtain ⟨moves, -, hfirst⟩ := foldlM_assignBy_run namesFolders_timeRule (fun _ hid => hid) htimed
  obtain ⟨more, -, hmore⟩ :=
    foldlM_assignBy_run namesFolders_similarityRule (fun _ hid => hid) hrest
  have htimed_count : timed.assigned = state.assigned := by omega
  obtain ⟨rfl, htime⟩ := foldlM_assignBy_idle namesFolders_timeRule htimed htimed_count
  obtain ⟨hstate, hsimilar⟩ := foldlM_assignBy_idle namesFolders_similarityRule hrest hcount
  refine ⟨hstate, fun p hp hid hfolder place hjoins => ?_, fun p hp hid hfolder place hjoins => ?_⟩
  · exact htime.not_named hnodup hp hid hfolder place ((timeRule_eq_some_iff hnodup).mpr hjoins)
  · exact hsimilar.not_named hnodup hp hid hfolder place (similarityRule_eq_some_iff.mpr hjoins)

theorem run_nodup {moves : List (Int × String)} (hnodup : (photos.map PhotoState.id).Nodup)
    (h : Run (Placing targets) photos moves photos') : (photos'.map PhotoState.id).Nodup := by
  refine h.preserves (P := fun photos => (photos.map PhotoState.id).Nodup) ?_ hnodup
  intro photos move photos' hnodup hmove
  rw [hmove.ids]
  exact hnodup

/-- **The loop ends where no rule applies.** -/
theorem assignPasses_fixpoint {passes : Nat} (hnodup : (state.photos.map PhotoState.id).Nodup)
    (h : assignPasses N targets minSim gap passes state = .ok state') :
    NothingLeft N targets minSim gap state'.photos := by
  induction passes generalizing state with
  | zero => cases h
  | succ passes ih =>
      obtain ⟨next, hnext, h⟩ := except_bind_eq_ok.mp h
      split at h
      · rename_i hcount
        cases h
        obtain ⟨hstate, hleft⟩ := assignPass_idle hnodup hnext hcount
        rw [hstate]
        exact hleft
      · obtain ⟨moves, hrun, -⟩ := assignPass_run hnext
        exact ih (run_nodup hnodup hrun) h

/-! ### Enough passes -/

/-- A pass raises nothing but a `PipelineError`. -/
theorem assignPass_ne_other : assignPass N targets minSim gap state ≠ .error .other := by
  have hround : ∀ (rule : List (PhotoState V) → PhotoState V → Option String) (state : Assigned V)
      (id : Int), assignBy N rule state id ≠ .error .other := by
    intro rule state id h
    unfold assignBy at h
    split at h
    · cases h
    · split at h
      · rcases except_bind_eq_error.mp h with h | ⟨photos', -, h⟩
        · unfold placePhoto at h
          split at h <;> cases h
        · cases h
      · cases h
  intro h
  rcases except_bind_eq_error.mp h with h | ⟨timed, -, h⟩
  · obtain ⟨s, id, -, hid⟩ := foldlM_eq_error h
    exact hround _ _ _ hid
  · obtain ⟨s, id, -, hid⟩ := foldlM_eq_error h
    exact hround _ _ _ hid

/-- **The passes do not run out** where there are more than targets without a folder. -/
theorem assignPasses_ne_other {passes : Nat} (hpasses : unplaced targets state.photos < passes) :
    assignPasses N targets minSim gap passes state ≠ .error .other := by
  induction passes generalizing state with
  | zero => omega
  | succ passes ih =>
      intro h
      rcases except_bind_eq_error.mp h with h | ⟨next, hnext, h⟩
      · exact assignPass_ne_other h
      · obtain ⟨moves, hrun, hcount⟩ := assignPass_run hnext
        have hle := length_add_unplaced_le hrun
        split at h
        · cases h
        · exact ih (by omega) h

/-- More passes than enough change nothing. -/
theorem assignPasses_add {passes : Nat} (extra : Nat)
    (h : assignPasses N targets minSim gap passes state ≠ .error .other) :
    assignPasses N targets minSim gap (passes + extra) state =
      assignPasses N targets minSim gap passes state := by
  induction passes generalizing state with
  | zero => exact absurd rfl h
  | succ passes ih =>
      rw [Nat.succ_add]
      rw [assignPasses] at h ⊢
      rw [assignPasses]
      cases hnext : assignPass N targets minSim gap state with
      | error e => rfl
      | ok next =>
          rw [hnext, except_ok_bind] at h
          rw [except_ok_bind, except_ok_bind]
          split
          · rfl
          · rename_i hne
            rw [if_neg hne] at h
            exact ih h

/-! ### What changed -/

/-- The ids of the photos some placings place. -/
def placedIds (moves : List (Int × String)) : List Int := moves.map Prod.fst

/-- What the placings `moves` make of a photo. -/
inductive PlacedOnce (moves : List (Int × String)) (p : PhotoState V) : PhotoState V → Prop where
  | kept (hid : p.id ∉ placedIds moves) : PlacedOnce moves p p
  | placed {q : PhotoState V} (hid : p.id ∈ placedIds moves) (hfree : p.folder? = none)
      (hfolder : q.folder?.isSome = true) (hsame : q.id = p.id) : PlacedOnce moves p q

/-- **A run of placings places each photo at most once**, and leaves the others as they are. -/
theorem run_placedOnce {moves : List (Int × String)} (hnodup : (photos.map PhotoState.id).Nodup)
    (h : Run (Placing targets) photos moves photos') :
    (placedIds moves).Nodup ∧
      (∀ id ∈ placedIds moves, id ∈ targets ∧ ∃ p ∈ photos, p.id = id) ∧
      List.Forall₂ (PlacedOnce moves) photos photos' := by
  induction h with
  | refl photos =>
      refine ⟨.nil, fun id hid => absurd hid List.not_mem_nil, ?_⟩
      exact List.forall₂_same.mpr fun p _ => .kept List.not_mem_nil
  | @cons photos mid photos' move moves hmove _ ih =>
      have hmid : (mid.map PhotoState.id).Nodup := by
        rw [hmove.ids]
        exact hnodup
      obtain ⟨hmoves, htargets, hrest⟩ := ih hmid
      obtain ⟨photo, anchor, hby, rfl⟩ := hmove
      obtain ⟨hmem, hid⟩ := current_mem hby.photo_current
      have hput : (photo.putInto move.2 anchor.latitude anchor.longitude).folder? = some move.2 :=
        folder?_eq_some.mpr ⟨rfl, hby.named⟩
      -- The photo placed first has a folder, so none of the others places it again.
      have hnew : move.1 ∉ placedIds moves := by
        intro hagain
        have hplaced : photo.putInto move.2 anchor.latitude anchor.longitude ∈
            updatePhoto move.1
              (PhotoState.putInto move.2 anchor.latitude anchor.longitude) photos :=
          mem_updatePhoto.mpr ⟨photo, hmem, by rw [if_pos hid]⟩
        obtain ⟨q, -, hq⟩ := exists_right_of_forall₂ hrest hplaced
        cases hq with
        | kept hnot => exact hnot (by rw [id_putInto, hid]; exact hagain)
        | placed _ hfree _ _ =>
            rw [hput] at hfree
            cases hfree
      refine ⟨List.nodup_cons.mpr ⟨hnew, hmoves⟩, fun id hmoved => ?_, ?_⟩
      · rcases List.mem_cons.mp hmoved with rfl | hmoved
        · exact ⟨hby.target, photo, hmem, hid⟩
        · obtain ⟨htarget, q, hq, rfl⟩ := htargets id hmoved
          obtain ⟨p, hp, rfl⟩ := mem_updatePhoto.mp hq
          refine ⟨htarget, p, hp, ?_⟩
          split <;> rfl
      · have hfirst : List.Forall₂ (fun p q => q = if p.id = move.1 then
              p.putInto move.2 anchor.latitude anchor.longitude else p) photos
            (updatePhoto move.1
              (PhotoState.putInto move.2 anchor.latitude anchor.longitude) photos) :=
          forall₂_map _ fun _ _ => rfl
        refine forall₂_trans ?_ (forall₂_mem hfirst) hrest
        rintro p q r ⟨hpq, hp, -⟩ hqr
        by_cases hpid : p.id = move.1
        · rw [if_pos hpid] at hpq
          subst hpq
          obtain rfl : p = photo := eq_of_id hnodup hp hmem (hpid.trans hid.symm)
          refine .placed (List.mem_cons.mpr (.inl hpid)) hby.unplaced ?_ ?_
          · cases hqr with
            | kept _ =>
                rw [hput]
                rfl
            | placed _ hfree _ _ =>
                rw [hput] at hfree
                cases hfree
          · cases hqr with
            | kept _ => rfl
            | placed _ hfree _ _ =>
                rw [hput] at hfree
                cases hfree
        · rw [if_neg hpid] at hpq
          subst hpq
          cases hqr with
          | kept hnot => exact .kept fun hmoved => (List.mem_cons.mp hmoved).elim hpid hnot
          | placed hmoved hfree hfolder hsame =>
              exact .placed (List.mem_cons_of_mem _ hmoved) hfree hfolder hsame

/-- A photo newly got a folder. -/
def newlyPlaced (pair : PhotoState V × PhotoState V) : Bool :=
  pair.1.folder?.isNone && pair.2.folder?.isSome

/-- As many photos newly got a folder as there are placings. -/
theorem countP_newlyPlaced {moves : List (Int × String)} (hnodup : (photos.map PhotoState.id).Nodup)
    (h : Run (Placing targets) photos moves photos') :
    (photos.zip photos').countP newlyPlaced = moves.length := by
  obtain ⟨hmoves, htargets, hrest⟩ := run_placedOnce hnodup h
  obtain ⟨hlength, hpairs⟩ := List.forall₂_iff_zip.mp hrest
  have hids : (((photos.zip photos').filter newlyPlaced).map fun pair => pair.1.id).Perm
      (placedIds moves) := by
    refine (List.perm_ext_iff_of_nodup ?_ hmoves).mpr fun id => ?_
    · apply List.Nodup.sublist (List.filter_sublist.map _)
      have hfst : ((photos.zip photos').map fun pair => pair.1.id) = photos.map PhotoState.id := by
        have hzip := congrArg (List.map PhotoState.id) (List.map_fst_zip (Nat.le_of_eq hlength))
        rw [List.map_map] at hzip
        exact hzip
      rw [hfst]
      exact hnodup
    · rw [List.mem_map]
      constructor
      · rintro ⟨⟨p, q⟩, hpair, rfl⟩
        obtain ⟨hpair, hnew⟩ := List.mem_filter.mp hpair
        cases hpairs hpair with
        | kept _ =>
            rw [newlyPlaced, Bool.and_eq_true] at hnew
            rw [Option.isNone_iff_eq_none.mp hnew.1] at hnew
            cases hnew.2
        | placed hmoved _ _ _ => exact hmoved
      · intro hmoved
        obtain ⟨-, p, hp, rfl⟩ := htargets id hmoved
        rw [← List.map_fst_zip (Nat.le_of_eq hlength)] at hp
        obtain ⟨⟨p, q⟩, hpair, rfl⟩ := List.mem_map.mp hp
        refine ⟨(p, q), List.mem_filter.mpr ⟨hpair, ?_⟩, rfl⟩
        cases hpairs hpair with
        | kept hnot => exact absurd hmoved hnot
        | placed _ hfree hfolder _ =>
            rw [newlyPlaced, Bool.and_eq_true]
            exact ⟨Option.isNone_iff_eq_none.mpr hfree, hfolder⟩
  rw [List.countP_eq_length_filter, ← List.length_map (f := fun pair => pair.1.id), hids.length_eq,
    placedIds, List.length_map]

/-! ### The step -/

/-- What the step returns for the targets `targets`. -/
structure AssignedFully (N : Numerics V) (photos targets : List (PhotoState V)) (minSim maxGap : ℚ)
    (state : Assigned V) : Prop where
  /-- Only targets change, each by one placing. -/
  placings : ∃ moves, Run (Placing (targets.map PhotoState.id)) photos moves state.photos ∧
    (placedIds moves).Nodup ∧ state.assigned = moves.length
  changed : List.Forall₂
    (fun p q => q = p ∨ p ∈ targets ∧ p.folder? = none ∧ q.folder?.isSome = true)
    photos state.photos
  /-- The number returned. -/
  count : state.assigned = (photos.zip state.photos).countP newlyPlaced
  /-- No rule applies to a target still without a folder. -/
  fixpoint : targets ≠ [] → ∃ gap, timedeltaMinutes maxGap = .ok gap ∧
    NothingLeft N (targets.map PhotoState.id) minSim gap state.photos

/-- **Assigning ends in a fixpoint.** The loop ends, however many passes it is given beyond one
for each target and one more; and what it returns is a fixpoint of both rules. -/
theorem assignUnlocated_fixpoint {period : Period} {inheritMinSim interpolateMaxGapMin : Threshold}
    {targets : List (PhotoState V)} (hnodup : (photos.map PhotoState.id).Nodup)
    (htargets : assignTargets N period photos = .ok targets) :
    (∀ p, p ∈ targets ↔ p ∈ photos ∧ p.issue = some .unclearLocation ∧ p.source.hasGps = false ∧
      inPeriod N period p = .ok true) ∧
    (∀ minSim gap, assignPasses N (targets.map PhotoState.id) minSim gap (targets.length + 1)
        ⟨photos, 0⟩ ≠ .error .other ∧
      ∀ extra, assignPasses N (targets.map PhotoState.id) minSim gap (targets.length + 1 + extra)
          ⟨photos, 0⟩ =
        assignPasses N (targets.map PhotoState.id) minSim gap (targets.length + 1) ⟨photos, 0⟩) ∧
    ∀ state, assignUnlocated N photos period inheritMinSim interpolateMaxGapMin = .ok state →
      ∃ minSim maxGap, inheritMinSim.finite? N = some minSim ∧
        interpolateMaxGapMin.finite? N = some maxGap ∧
        AssignedFully N photos targets minSim maxGap state := by
  refine ⟨fun _ => mem_assignTargets htargets, ?_, ?_⟩
  · intro minSim gap
    have hle := unplaced_le (targets.map PhotoState.id) hnodup
    rw [List.length_map] at hle
    have henough : assignPasses N (targets.map PhotoState.id) minSim gap (targets.length + 1)
        ⟨photos, 0⟩ ≠ .error .other := assignPasses_ne_other (Nat.lt_succ_of_le hle)
    exact ⟨henough, fun extra => assignPasses_add extra henough⟩
  · intro state h
    obtain ⟨targets', moves, htargets', hrun, hcount⟩ := assignUnlocated_placings h
    obtain rfl : targets' = targets := Except.ok.inj (htargets'.symm.trans htargets)
    simp only [assignUnlocated, except_bind_eq_ok, bounded_eq_ok] at h
    obtain ⟨minSim, ⟨hsim, -⟩, maxGap, ⟨hgap, -⟩, found, hfound, h⟩ := h
    obtain rfl : targets' = found := Except.ok.inj (htargets.symm.trans hfound)
    obtain ⟨hmoves, -, hrest⟩ := run_placedOnce hnodup hrun
    refine ⟨minSim, maxGap, hsim, hgap, ⟨moves, hrun, hmoves, hcount⟩, ?_, ?_, ?_⟩
    · apply (forall₂_mem hrest).imp
      rintro p q ⟨hpq, hp, -⟩
      cases hpq with
      | kept _ => exact .inl rfl
      | placed hmoved hfree hfolder _ =>
          obtain ⟨htarget, -⟩ := (run_placedOnce hnodup hrun).2.1 _ hmoved
          obtain ⟨target, hmem, hid⟩ := List.mem_map.mp htarget
          have htp := ((mem_assignTargets htargets).mp hmem).1
          exact .inr ⟨eq_of_id hnodup hp htp hid.symm ▸ hmem, hfree, hfolder⟩
    · rw [hcount, countP_newlyPlaced hnodup hrun]
    · intro hne
      rw [if_neg fun hempty => hne (List.isEmpty_iff.mp hempty)] at h
      simp only [except_bind_eq_ok] at h
      obtain ⟨_, -, gap, hdelta, h⟩ := h
      exact ⟨gap, hdelta, assignPasses_fixpoint hnodup h⟩

/-! ### Photos that follow others, and one that does not -/

/-- A photo with GPS, in the folder `p1`. -/
def anchorPhoto (id minute : Int) (v : Int × Int) : PhotoState (Int × Int) :=
  let a : ProcessAttachment := ⟨id, "a.jpg", some ⟨minute * 60000000, 0⟩, some (.finite "37.5"),
    some (.finite "127.0"), none⟩
  let photo : PhotoState (Int × Int) := buildPhotoState a
  { photo with takenAt := a.takenAt, embedding := some v, placeId := some "p1" }

/-- A photo without GPS. -/
def strayPhoto (id : Int) (minute : Option Int) (v : Int × Int) : PhotoState (Int × Int) :=
  let a : ProcessAttachment :=
    ⟨id, "b.jpg", minute.map fun m => ⟨m * 60000000, 0⟩, none, none, none⟩
  let photo : PhotoState (Int × Int) := buildPhotoState a
  { photo with takenAt := a.takenAt, embedding := some v, issue := some .unclearLocation }

/-- One photo was taken between two of a folder, one has no time and is like them, one was taken
hours later and is not. -/
def sampleUnplaced : List (PhotoState (Int × Int)) :=
  [anchorPhoto 1 0 (1, 0), anchorPhoto 2 40 (1, 0), strayPhoto 3 (some 20) (-1, 0),
    strayPhoto 4 none (1, 0), strayPhoto 5 (some 300) (0, 1)]

def sampleTargets : List (PhotoState (Int × Int)) :=
  (assignTargets planeNumerics ⟨0, 10⟩ sampleUnplaced).toOption.getD []

def sampleAssigned : Assigned (Int × Int) :=
  (assignUnlocated planeNumerics sampleUnplaced ⟨0, 10⟩ (.int 1) (.int 30)).toOption.getD ⟨[], 0⟩

/-- The two are placed; for the third no rule applies. -/
theorem assignUnlocated_fixpoint_sampleUnplaced :
    sampleAssigned.photos.map PhotoState.placeId =
      [some "p1", some "p1", some "p1", some "p1", none] ∧
    ∃ minSim maxGap, (Threshold.int 1).finite? planeNumerics = some minSim ∧
      (Threshold.int 30).finite? planeNumerics = some maxGap ∧
      AssignedFully planeNumerics sampleUnplaced sampleTargets minSim maxGap sampleAssigned := by
  have htargets : (assignTargets planeNumerics ⟨0, 10⟩ sampleUnplaced).toOption.isSome = true := by
    decide +kernel
  have hassigned : (assignUnlocated planeNumerics sampleUnplaced ⟨0, 10⟩ (.int 1)
      (.int 30)).toOption.isSome = true := by
    decide +kernel
  have hnodup : (sampleUnplaced.map PhotoState.id).Nodup := by decide +kernel
  refine ⟨by decide +kernel, ?_⟩
  exact (assignUnlocated_fixpoint hnodup (eq_ok_getD htargets [])).2.2 sampleAssigned
    (eq_ok_getD hassigned ⟨[], 0⟩)

end Yeodam.Pipeline
