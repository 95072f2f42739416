/-
What FILTERING decides.

`FilterMeets` says which photos are blurry, which are duplicates and of which original, in terms
of the photos it returns alone, and `Measures.meets` that it is so. `filterPhotos_rerun` says
that the verdicts of an earlier run leave no trace.

The source writes its verdicts to the photos one by one. `filterInPlace` is that, with the writes
as they are made: it comes to `filterPhotos`, and where it raises it has written nothing.
-/

import Mathlib.Data.List.Zip
import Yeodam.Lib.Permuted
import Yeodam.Pipeline.Filtering

namespace Yeodam.Pipeline

open Yeodam.Lib Yeodam.Schemas

variable {V : Type} {N : Numerics V} {metrics : Int → Option PhotoMetrics} {limits : FilterLimits}
  {photos : List (PhotoState V)} {measured : List (Measured V)} {p q k : PhotoState V}
  {m n : Measured V} {v w : Verdict (Measured V)}

/-! ### The specification -/

/-- Neither blurry nor a duplicate. -/
def PhotoState.Kept (q : PhotoState V) : Prop := q.issue = keptIssue q.placeId

/-- The hashes of two photos are within the limit. -/
def Near (metrics : Int → Option PhotoMetrics) (limits : FilterLimits)
    (k q : PhotoState V) : Prop :=
  ∃ mk mq, metrics k.id = some mk ∧ metrics q.id = some mq ∧
    phashDistance mq.phash mk.phash ≤ limits.phashMaxDist

/-- `k` is kept in the group of `q`, comes before it and is near it. -/
structure Original (metrics : Int → Option PhotoMetrics) (limits : FilterLimits)
    (k q : PhotoState V) : Prop where
  kept : k.Kept
  group : k.placeId = q.placeId
  before : k.orderKey < q.orderKey
  near : Near metrics limits k q

/-- The photos `out` are `photos` with the verdicts they should have. -/
structure FilterMeets (N : Numerics V) (limits : FilterLimits) (metrics : Int → Option PhotoMetrics)
    (photos out : List (PhotoState V)) : Prop where
  /-- Only the verdict changes. -/
  frame : List.Forall₂ (fun p q => q = { p with
    issue := q.issue, duplicateOfAttachmentId := q.duplicateOfAttachmentId }) photos out
  blurry : ∀ q ∈ out, q.issue = some .blurry ↔
    ∃ m, metrics q.id = some m ∧ N.value m.variance < limits.blurVarMin
  apart : ∀ k ∈ out, ∀ q ∈ out, k.Kept → q.Kept → k.placeId = q.placeId → k ≠ q →
    ¬Near metrics limits k q
  duplicated : ∀ q ∈ out, q.issue ≠ some .blurry →
    (q.issue = some .duplicated ↔ ∃ k ∈ out, Original metrics limits k q)
  original : ∀ q ∈ out, q.issue = some .duplicated → ∃ k ∈ out,
    q.duplicateOfAttachmentId = some k.id ∧ Original metrics limits k q ∧
      ∀ k' ∈ out, Original metrics limits k' q → k.orderKey ≤ k'.orderKey
  kept : ∀ q ∈ out, q.issue ≠ some .blurry → q.issue ≠ some .duplicated → q.Kept
  unlinked : ∀ q ∈ out, q.issue ≠ some .duplicated → q.duplicateOfAttachmentId = none

/-! ### Verdicts on photos -/

theorem applyVerdict_frame (p : PhotoState V) (v : Verdict (Measured V)) : applyVerdict p v =
    { p with
      issue := (applyVerdict p v).issue
      duplicateOfAttachmentId := (applyVerdict p v).duplicateOfAttachmentId } := by
  cases v <;> rfl

@[simp] theorem placeId_applyVerdict (p : PhotoState V) (v : Verdict (Measured V)) :
    (applyVerdict p v).placeId = p.placeId := by
  cases v <;> rfl

@[simp] theorem id_applyVerdict (p : PhotoState V) (v : Verdict (Measured V)) :
    (applyVerdict p v).id = p.id := by
  cases v <;> rfl

@[simp] theorem orderKey_applyVerdict (p : PhotoState V) (v : Verdict (Measured V)) :
    (applyVerdict p v).orderKey = p.orderKey := by
  cases v <;> rfl

theorem keptIssue_ne (place : Option String) :
    keptIssue place ≠ some .blurry ∧ keptIssue place ≠ some .duplicated := by
  cases place <;> exact ⟨nofun, nofun⟩

theorem issue_blurry : (applyVerdict p v).issue = some .blurry ↔ v = .skipped := by
  cases v with
  | skipped => exact iff_of_true rfl rfl
  | kept => exact iff_of_false (keptIssue_ne p.placeId).1 nofun
  | like n =>
      refine iff_of_false ?_ nofun
      change some Issue.duplicated ≠ some .blurry
      decide

theorem issue_duplicated : (applyVerdict p v).issue = some .duplicated ↔ ∃ n, v = .like n := by
  cases v with
  | skipped =>
      refine iff_of_false ?_ ?_
      · change some Issue.blurry ≠ some .duplicated
        decide
      · rintro ⟨n, hn⟩
        cases hn
  | kept =>
      apply iff_of_false (keptIssue_ne p.placeId).2
      rintro ⟨n, hn⟩
      cases hn
  | like n => exact iff_of_true rfl ⟨n, rfl⟩

theorem kept_applyVerdict : (applyVerdict p v).Kept ↔ v = .kept := by
  cases v with
  | skipped => exact iff_of_false (fun h => (keptIssue_ne p.placeId).1 (Eq.symm h)) nofun
  | kept => exact iff_of_true rfl rfl
  | like n => exact iff_of_false (fun h => (keptIssue_ne p.placeId).2 (Eq.symm h)) nofun

/-! ### Groups in order -/

theorem phashDistance_comm (a b : String) : phashDistance a b = phashDistance b a := by
  have hbits : ∀ x y : Nat, differingBits x y = differingBits y x := by
    intro x y
    unfold differingBits
    apply List.countP_congr
    intro bit _
    simp only [decide_eq_true_eq]
    exact ⟨Ne.symm, Ne.symm⟩
  unfold phashDistance
  rw [← List.zip_swap, List.map_map]
  refine congrArg List.sum (List.map_congr_left fun pair _ => ?_)
  exact hbits _ _

theorem PhotoState.orderKey_id (h : p.orderKey = q.orderKey) : p.id = q.id :=
  congrArg (fun key : OrderKey => (ofLex (ofLex key).2).2) h

/-- The photos kept in the group of a photo. -/
theorem kept_group_iff : (n, .kept) ∈ judgeGroup N limits (groupOf measured m) ↔
    n.1.placeId = m.1.placeId ∧ (n, .kept) ∈ judgeAll N limits measured := by
  rw [mem_judgeAll]
  constructor
  · intro hn
    obtain ⟨hmem, hplace⟩ := List.mem_filter.mp (mem_sortOn.mp (mem_of_mem_greedy hn))
    rw [decide_eq_true_eq] at hplace
    refine ⟨hplace, hmem, ?_⟩
    rwa [groupOf, hplace]
  · rintro ⟨hplace, hmem, hn⟩
    rwa [groupOf, hplace] at hn

namespace Measures

variable (h : Measures N metrics photos measured)
include h

/-- A group is judged in a strict order. -/
theorem pairwise_group (m : Measured V) :
    (sortOn (fun m => m.1.orderKey) (groupOf measured m)).Pairwise
      fun a b => a.1.orderKey < b.1.orderKey := by
  apply pairwise_lt_sortOn
  have hids : (measured.map fun m => m.1.id).Nodup := h.ids ▸ h.nodup
  have hkeys : (measured.map fun m => m.1.orderKey).Nodup := by
    refine List.Nodup.of_map (fun key : OrderKey => (ofLex (ofLex key).2).2) ?_
    rw [List.map_map]
    exact hids
  exact hkeys.sublist (List.filter_sublist.map _)

theorem verdict_spec (hv : (m, v) ∈ judgeAll N limits measured) :
    v.Spec (fun m : Measured V => m.1.orderKey) (Pipeline.blurry N limits) (nearDuplicate limits)
      (fun k => (k, .kept) ∈ judgeGroup N limits (groupOf measured m)) m :=
  greedy_spec (h.pairwise_group m) (mem_judgeAll.mp hv).2

theorem near_iff (hm : m ∈ measured) (hn : n ∈ measured) :
    Near metrics limits (applyVerdict n.1 w) (applyVerdict m.1 v) ↔
      nearDuplicate limits n m = true := by
  have hmetric := (h.photo_mem hm).2.metric
  have hmetric' := (h.photo_mem hn).2.metric
  unfold Near nearDuplicate
  rw [id_applyVerdict, id_applyVerdict, hmetric, hmetric', decide_eq_true_eq]
  constructor
  · rintro ⟨mk, mq, hk, hq, hle⟩
    cases hk
    cases hq
    exact hle
  · intro hle
    exact ⟨_, _, rfl, rfl, hle⟩

/-- The photos that come out, each with its verdict. -/
theorem mem_out : q ∈ photos.map (judged (judgeAll N limits measured)) ↔
    ∃ m v, (m, v) ∈ judgeAll N limits measured ∧ q = applyVerdict m.1 v := by
  rw [List.mem_map]
  constructor
  · rintro ⟨p, hp, rfl⟩
    obtain ⟨m, hm, rfl⟩ := h.exists_measured hp
    obtain ⟨v, hv⟩ := exists_judged N limits hm
    exact ⟨m, v, hv, h.judged_eq hv⟩
  · rintro ⟨m, v, hv, rfl⟩
    exact ⟨m.1, (h.photo_mem (mem_judgeAll.mp hv).1).1, h.judged_eq hv⟩

/-- What an original is, for the photos that come out. -/
theorem original_iff (hv : (m, v) ∈ judgeAll N limits measured)
    (hw : (n, w) ∈ judgeAll N limits measured) :
    Original metrics limits (applyVerdict n.1 w) (applyVerdict m.1 v) ↔
      (n, .kept) ∈ judgeGroup N limits (groupOf measured m) ∧ n.1.orderKey < m.1.orderKey ∧
        nearDuplicate limits n m = true := by
  have hnear : Near metrics limits (applyVerdict n.1 w) (applyVerdict m.1 v) ↔
      nearDuplicate limits n m = true := h.near_iff (mem_judgeAll.mp hv).1 (mem_judgeAll.mp hw).1
  rw [kept_group_iff]
  constructor
  · rintro ⟨hkept, hgroup, hbefore, hn⟩
    rw [placeId_applyVerdict, placeId_applyVerdict] at hgroup
    rw [orderKey_applyVerdict, orderKey_applyVerdict] at hbefore
    obtain rfl := kept_applyVerdict.mp hkept
    exact ⟨⟨hgroup, hw⟩, hbefore, hnear.mp hn⟩
  · rintro ⟨⟨hgroup, hkept⟩, hbefore, hn⟩
    obtain ⟨-, rfl⟩ := h.judged_unique hkept hw rfl
    refine ⟨kept_applyVerdict.mpr rfl, ?_, ?_, hnear.mpr hn⟩
    · rw [placeId_applyVerdict, placeId_applyVerdict, hgroup]
    · rw [orderKey_applyVerdict, orderKey_applyVerdict]
      exact hbefore

/-- **The photos that come out meet the specification.** -/
theorem meets :
    FilterMeets N limits metrics photos (photos.map (judged (judgeAll N limits measured))) where
  frame := by
    apply forall₂_map _
    intro p hp
    obtain ⟨m, hm, rfl⟩ := h.exists_measured hp
    obtain ⟨v, hv⟩ := exists_judged N limits hm
    rw [h.judged_eq hv]
    exact applyVerdict_frame m.1 v
  blurry := by
    intro q hq
    obtain ⟨m, v, hv, rfl⟩ := h.mem_out.mp hq
    rw [issue_blurry, ← blurry_iff hv, id_applyVerdict,
      (h.photo_mem (mem_judgeAll.mp hv).1).2.metric]
    simp [Pipeline.blurry]
  apart := by
    intro k hk q hq hkkept hqkept hplace hne hnear
    obtain ⟨n, w, hw, rfl⟩ := h.mem_out.mp hk
    obtain ⟨m, v, hv, rfl⟩ := h.mem_out.mp hq
    obtain rfl := kept_applyVerdict.mp hkkept
    obtain rfl := kept_applyVerdict.mp hqkept
    rw [placeId_applyVerdict, placeId_applyVerdict] at hplace
    have hn := (mem_judgeAll.mp hw).1
    have hm := (mem_judgeAll.mp hv).1
    have hdup := (h.near_iff hm hn).mp hnear
    -- The later one of the two would be a duplicate of the earlier one.
    rcases lt_trichotomy n.1.orderKey m.1.orderKey with hlt | heq | hlt
    · have hfar := ((h.verdict_spec hv).kept.mp rfl).2 n (kept_group_iff.mpr ⟨hplace, hw⟩) hlt
      rw [hdup] at hfar
      cases hfar
    · exact hne (by rw [h.eq_of_id hn hm (PhotoState.orderKey_id heq)])
    · have hfar := ((h.verdict_spec hw).kept.mp rfl).2 m (kept_group_iff.mpr ⟨hplace.symm, hv⟩) hlt
      rw [nearDuplicate, phashDistance_comm] at hfar
      rw [nearDuplicate] at hdup
      rw [hdup] at hfar
      cases hfar
  duplicated := by
    intro q hq hsharp
    obtain ⟨m, v, hv, rfl⟩ := h.mem_out.mp hq
    rw [ne_eq, issue_blurry] at hsharp
    rw [issue_duplicated]
    constructor
    · rintro ⟨n, rfl⟩
      obtain ⟨hkept, hlt, hnear, -⟩ := (h.verdict_spec hv).like n rfl
      have hw := (kept_group_iff.mp hkept).2
      exact ⟨_, h.mem_out.mpr ⟨n, .kept, hw, rfl⟩, (h.original_iff hv hw).mpr ⟨hkept, hlt, hnear⟩⟩
    · rintro ⟨k, hk, horiginal⟩
      obtain ⟨n, w, hw, rfl⟩ := h.mem_out.mp hk
      obtain ⟨hkept, hlt, hnear⟩ := (h.original_iff hv hw).mp horiginal
      cases v with
      | skipped => exact absurd rfl hsharp
      | kept =>
          rw [((h.verdict_spec hv).kept.mp rfl).2 n hkept hlt] at hnear
          cases hnear
      | like n => exact ⟨n, rfl⟩
  original := by
    intro q hq hdup
    obtain ⟨m, v, hv, rfl⟩ := h.mem_out.mp hq
    obtain ⟨n, rfl⟩ := issue_duplicated.mp hdup
    obtain ⟨hkept, hlt, hnear, hfirst⟩ := (h.verdict_spec hv).like n rfl
    have hw := (kept_group_iff.mp hkept).2
    refine ⟨_, h.mem_out.mpr ⟨n, .kept, hw, rfl⟩, rfl,
      (h.original_iff hv hw).mpr ⟨hkept, hlt, hnear⟩, ?_⟩
    intro k' hk' horiginal
    obtain ⟨n', w', hw', rfl⟩ := h.mem_out.mp hk'
    obtain ⟨hkept', hlt', hnear'⟩ := (h.original_iff hv hw').mp horiginal
    rw [orderKey_applyVerdict, orderKey_applyVerdict]
    exact hfirst n' hkept' hlt' hnear'
  kept := by
    intro q hq hsharp hnew
    obtain ⟨m, v, hv, rfl⟩ := h.mem_out.mp hq
    rw [ne_eq, issue_blurry] at hsharp
    rw [ne_eq, issue_duplicated] at hnew
    rw [kept_applyVerdict]
    cases v with
    | skipped => exact absurd rfl hsharp
    | kept => rfl
    | like n => exact absurd ⟨n, rfl⟩ hnew
  unlinked := by
    intro q hq hnew
    obtain ⟨m, v, hv, rfl⟩ := h.mem_out.mp hq
    rw [ne_eq, issue_duplicated] at hnew
    cases v with
    | skipped => rfl
    | kept => rfl
    | like n => exact absurd ⟨n, rfl⟩ hnew

end Measures

/-! ### Rerunning -/

/-- The photo with its verdict, and its metrics. -/
def Rejudged (m n : Measured V) : Prop :=
  n.2 = m.2 ∧ ∃ v : Verdict (Measured V), n.1 = applyVerdict m.1 v

theorem Rejudged.placeId (h : Rejudged m n) : n.1.placeId = m.1.placeId := by
  obtain ⟨-, v, hv⟩ := h
  rw [hv, placeId_applyVerdict]

theorem Rejudged.id (h : Rejudged m n) : n.1.id = m.1.id := by
  obtain ⟨-, v, hv⟩ := h
  rw [hv, id_applyVerdict]

theorem Rejudged.orderKey (h : Rejudged m n) : n.1.orderKey = m.1.orderKey := by
  obtain ⟨-, v, hv⟩ := h
  rw [hv, orderKey_applyVerdict]

/-- A verdict does not look at what an earlier one wrote. -/
theorem Rejudged.applyVerdict {v w : Verdict (Measured V)} (h : Rejudged m n)
    (hvw : Verdict.Rel Rejudged v w) : applyVerdict n.1 w = Pipeline.applyVerdict m.1 v := by
  obtain ⟨-, u, hu⟩ := h
  rw [hu]
  cases hvw with
  | skipped => cases u <;> rfl
  | kept => cases u <;> rfl
  | like horiginal =>
      rw [Pipeline.applyVerdict, Pipeline.applyVerdict, horiginal.id]
      cases u <;> rfl

/-- A photo with a verdict can be filtered again. -/
theorem Filterable.applyVerdict {metric : PhotoMetrics} (h : Filterable N metrics p metric)
    (v : Verdict (Measured V)) : Filterable N metrics (Pipeline.applyVerdict p v) metric := by
  have htime : (Pipeline.applyVerdict p v).timeInconsistent = p.timeInconsistent := by
    cases v <;> rfl
  have hutc : utcOrder (Pipeline.applyVerdict p v) = utcOrder p := by cases v <;> rfl
  refine ⟨fun hplace hissue => ?_, fun place hplace => ?_, htime.trans h.consistent,
    ?_, ?_, h.valid⟩
  · rw [placeId_applyVerdict] at hplace
    cases v with
    | skipped => cases hissue
    | kept =>
        change keptIssue p.placeId = none at hissue
        rw [hplace] at hissue
        cases hissue
    | like n => cases hissue
  · rw [placeId_applyVerdict] at hplace
    refine ⟨(h.placed place hplace).1, fun hissue => ?_⟩
    cases v with
    | skipped => cases hissue
    | kept =>
        change keptIssue p.placeId = some .unclearLocation at hissue
        rw [hplace] at hissue
        cases hissue
    | like n => cases hissue
  · rw [hutc, h.utc, orderKey_applyVerdict]
  · rw [id_applyVerdict]
    exact h.metric

variable (N limits) in
/-- **The verdicts of a group are those it got before the last run.** -/
theorem judgeGroup_rejudged {group group' : List (Measured V)}
    (h : List.Forall₂ Rejudged group group') :
    List.Forall₂ (fun v w => Rejudged v.1 w.1 ∧ Verdict.Rel Rejudged v.2 w.2)
      (judgeGroup N limits group) (judgeGroup N limits group') := by
  refine greedy_rel (fun m n hmn => ?_) (fun m n m' n' hmn hmn' => ?_) .nil
    (forall₂_sortOn (fun m n m' n' hmn hmn' => ?_) h)
  · rw [Pipeline.blurry, Pipeline.blurry, hmn.1]
  · rw [nearDuplicate, nearDuplicate, hmn.1, hmn'.1]
  · rw [hmn.orderKey, hmn'.orderKey]

namespace Measures

variable (limits) in
theorem rejudged (h : Measures N metrics photos measured) (hm : m ∈ measured) :
    Rejudged m (judged (judgeAll N limits measured) m.1, m.2) := by
  obtain ⟨v, hv⟩ := exists_judged N limits hm
  exact ⟨rfl, v, h.judged_eq hv⟩

variable (limits) in
/-- The photos after a run, measured again. -/
theorem again (h : Measures N metrics photos measured) :
    Measures N metrics (photos.map (judged (judgeAll N limits measured)))
      (measured.map fun m => (judged (judgeAll N limits measured) m.1, m.2)) := by
  constructor
  · have hids : (photos.map (judged (judgeAll N limits measured))).map PhotoState.id =
        photos.map PhotoState.id := by
      rw [List.map_map]
      apply List.map_congr_left
      intro p hp
      obtain ⟨m, hm, rfl⟩ := h.exists_measured hp
      exact (h.rejudged limits hm).id
    rw [hids]
    exact h.nodup
  · refine List.forall₂_map_left_iff.mpr (List.forall₂_map_right_iff.mpr ?_)
    apply (forall₂_mem h.each).imp
    rintro p m ⟨⟨rfl, hm⟩, -, hmem⟩
    obtain ⟨-, v, hv⟩ := h.rejudged limits hmem
    dsimp only at hv ⊢
    refine ⟨rfl, ?_⟩
    rw [hv]
    exact hm.applyVerdict v

/-- The verdict of a photo after a run is the one it got before. -/
theorem judged_again {again : List (Measured V)} {photos' : List (PhotoState V)}
    (h : Measures N metrics photos measured) (h' : Measures N metrics photos' again)
    (hagain : List.Forall₂ Rejudged measured again) (hm : m ∈ measured) (hn : n ∈ again)
    (hmn : Rejudged m n) :
    judged (judgeAll N limits again) n.1 = judged (judgeAll N limits measured) m.1 := by
  have hgroups : List.Forall₂ Rejudged (groupOf measured m) (groupOf again n) := by
    refine List.rel_filter ?_ hagain
    intro a b hab
    simp only [decide_eq_true_eq]
    rw [hab.placeId, hmn.placeId]
  obtain ⟨v, hv⟩ := exists_judged N limits hm
  obtain ⟨⟨n', w⟩, hw, hrel, hvw⟩ :=
    exists_right_of_forall₂ (judgeGroup_rejudged N limits hgroups)
      (mem_judgeAll.mp hv).2
  have hn' : n' ∈ groupOf again n := mem_sortOn.mp (mem_of_mem_greedy hw)
  obtain rfl : n' = n :=
    h'.eq_of_id (List.mem_filter.mp hn').1 hn (hrel.id.trans hmn.id.symm)
  rw [h.judged_eq hv, h'.judged_eq (mem_judgeAll.mpr ⟨hn, hw⟩), hmn.applyVerdict hvw]

end Measures

/-- **A later run does not depend on an earlier one.** -/
theorem filterPhotos_rerun {blurVarMin phashMaxDist blurVarMin' phashMaxDist' : Threshold}
    {result : List (PhotoState V) × List (Int × ℚ)}
    (h : filterPhotos N photos metrics blurVarMin phashMaxDist = .ok result) :
    filterPhotos N result.1 metrics blurVarMin' phashMaxDist' =
      filterPhotos N photos metrics blurVarMin' phashMaxDist' := by
  obtain ⟨limits, measured, -, -, -, -, -, hmeasures, hfiltered⟩ := filterPhotos_eq_ok.mp h
  have hagain := hmeasures.again limits
  have hrel : List.Forall₂ Rejudged measured
      (measured.map fun m => (judged (judgeAll N limits measured) m.1, m.2)) :=
    forall₂_map _ fun m hm => hmeasures.rejudged limits hm
  rw [hfiltered.photos_eq]
  have hfirst : photos.foldlM (measurePhoto N metrics) [] = .ok measured :=
    foldlM_measurePhoto.mpr ⟨fun _ _ => List.not_mem_nil, measured, hmeasures, rfl⟩
  have hsecond : (photos.map (judged (judgeAll N limits measured))).foldlM
      (measurePhoto N metrics) [] =
        .ok (measured.map fun m => (judged (judgeAll N limits measured) m.1, m.2)) :=
    foldlM_measurePhoto.mpr ⟨fun _ _ => List.not_mem_nil, _, hagain, rfl⟩
  unfold filterPhotos
  rw [hfirst, hsecond]
  refine congrArg _ (funext fun blur => congrArg _ (funext fun dist => ?_))
  refine congrArg Except.ok (Prod.ext ?_ ?_)
  · dsimp only
    rw [List.map_map]
    apply List.map_congr_left
    intro p hp
    obtain ⟨m, hm, rfl⟩ := hmeasures.exists_measured hp
    exact hmeasures.judged_again hagain hrel hm (List.mem_map_of_mem hm)
      (hmeasures.rejudged limits hm)
  · exact map_eq_of_forall₂ hrel fun m n hmn => by rw [hmn.id, hmn.1]

/-! ### Verdicts written to the photos -/

/-- A computation on photos that are written to as it goes on. -/
abbrev InPlace (V : Type) := ExceptT Raised (StateM (List (PhotoState V)))

namespace InPlace

variable {α β : Type}

/-- What a computation comes to, and the photos it leaves. -/
def on (x : InPlace V α) (photos : List (PhotoState V)) : Except Raised α × List (PhotoState V) :=
  x.run.run photos

/-- Compute without writing. -/
def lift (x : Except Raised α) : InPlace V α := ExceptT.mk (pure x)

def write (f : List (PhotoState V) → List (PhotoState V)) : InPlace V PUnit := modify f

@[simp] theorem on_lift (x : Except Raised α) : (lift x).on photos = (x, photos) := rfl

@[simp] theorem on_pure (a : α) : (pure a : InPlace V α).on photos = (.ok a, photos) := rfl

@[simp] theorem on_write (f : List (PhotoState V) → List (PhotoState V)) :
    (write f).on photos = (.ok ⟨⟩, f photos) := rfl

@[simp] theorem on_get : (get : InPlace V (List (PhotoState V))).on photos = (.ok photos, photos) :=
  rfl

theorem on_bind (x : InPlace V α) (f : α → InPlace V β) : (x >>= f).on photos =
    match x.on photos with
    | (.ok a, photos') => (f a).on photos'
    | (.error e, photos') => (.error e, photos') := by
  unfold on
  rw [ExceptT.run_bind, StateT.run_bind]
  rcases x.run.run photos with ⟨_ | _, _⟩ <;> rfl

theorem on_bind_ok {x : InPlace V α} {f : α → InPlace V β} {a : α} {photos' : List (PhotoState V)}
    (h : x.on photos = (.ok a, photos')) : (x >>= f).on photos = (f a).on photos' := by
  rw [on_bind, h]

theorem on_bind_error {x : InPlace V α} {f : α → InPlace V β} {e : Raised}
    {photos' : List (PhotoState V)} (h : x.on photos = (.error e, photos')) :
    (x >>= f).on photos = (.error e, photos') := by
  rw [on_bind, h]

end InPlace

variable (N) in
/-- One round of the loop over a group in order. -/
def judgeInPlace (limits : FilterLimits) (retained : List (Measured V)) (m : Measured V) :
    InPlace V (List (Measured V)) := do
  .write (updatePhoto m.1.id fun p =>
    { p with issue := keptIssue p.placeId, duplicateOfAttachmentId := none })
  if blurry N limits m then
    .write (updatePhoto m.1.id fun p => { p with issue := some .blurry })
    return retained
  else
    match retained.find? fun original => nearDuplicate limits original m with
    | some original =>
        .write (updatePhoto m.1.id fun p =>
          { p with issue := some .duplicated, duplicateOfAttachmentId := some original.1.id })
        return retained
    | none => return retained ++ [m]

/-- `_order`. -/
def order (p : PhotoState V) : Except Raised OrderKey := do
  raiseIf p.timeInconsistent "FILTERING에는 CLOCK이 판정한 일관된 처리 시각이 필요함"
  utcOrder p

variable (N) in
/-- One round of the loop over the groups; sorting asks for the order of every photo. -/
def groupInPlace (limits : FilterLimits) (group : List (Measured V)) : InPlace V PUnit := do
  let _ ← .lift (group.mapM fun m => order m.1)
  let _ ← (sortOn (fun m => m.1.orderKey) group).foldlM (judgeInPlace N limits) []

variable (N) in
/-- `filter_photos`, writing as the source does. -/
def filterInPlace (metrics : Int → Option PhotoMetrics) (blurVarMin phashMaxDist : Threshold) :
    InPlace V (List (Int × ℚ)) := do
  let blurVarMin ←
    .lift (bounded N (fun q => 0 ≤ q) "blur_var_min은 0 이상의 유한값이어야 함" blurVarMin)
  let phashMaxDist ← .lift (integer (fun n => 0 ≤ n && n ≤ 64)
    "phash_max_dist는 0 이상 64 이하의 정수여야 함" phashMaxDist)
  let measured ← .lift ((← get).foldlM (measurePhoto N metrics) [])
  (groupOn (fun m => m.1.placeId) measured).forM fun g =>
    groupInPlace N ⟨blurVarMin, phashMaxDist⟩ g.2
  return measured.map fun m => (m.1.id, N.value m.2.variance)

/-! ### The writes come to the verdicts -/

/-- Write one verdict. -/
def writeVerdict (photos : List (PhotoState V)) (v : Measured V × Verdict (Measured V)) :
    List (PhotoState V) :=
  updatePhoto v.1.1.id (fun p => applyVerdict p v.2) photos

theorem updatePhoto_updatePhoto {id : Int} {f g : PhotoState V → PhotoState V}
    (hf : ∀ p, (f p).id = p.id) :
    updatePhoto id g (updatePhoto id f photos) = updatePhoto id (fun p => g (f p)) photos := by
  rw [updatePhoto, updatePhoto, updatePhoto, List.map_map]
  apply List.map_congr_left
  intro p _
  rw [Function.comp_apply]
  by_cases hid : p.id = id
  · rw [if_pos hid, if_pos ((hf p).trans hid), if_pos hid]
  · rw [if_neg hid, if_neg hid, if_neg hid]

theorem judgeInPlace_on (limits : FilterLimits) (retained : List (Measured V)) (m : Measured V) :
    (judgeInPlace N limits retained m).on photos =
      (.ok (retained ++ keptOf
        [(m, verdictOf (blurry N limits) (nearDuplicate limits) retained m)]),
        writeVerdict photos
          (m, verdictOf (blurry N limits) (nearDuplicate limits) retained m)) := by
  have hreset : ∀ p : PhotoState V, ({ p with
      issue := keptIssue p.placeId, duplicateOfAttachmentId := none } : PhotoState V).id = p.id :=
    fun _ => rfl
  unfold judgeInPlace verdictOf
  rw [InPlace.on_bind_ok (InPlace.on_write _)]
  split
  · rw [InPlace.on_bind_ok (InPlace.on_write _), InPlace.on_pure, updatePhoto_updatePhoto hreset,
      keptOf, List.filterMap_cons_none rfl, List.filterMap_nil, List.append_nil]
    rfl
  · cases retained.find? fun original => nearDuplicate limits original m with
    | some original =>
        dsimp only
        rw [InPlace.on_bind_ok (InPlace.on_write _), InPlace.on_pure,
          updatePhoto_updatePhoto hreset,
          keptOf, List.filterMap_cons_none rfl, List.filterMap_nil, List.append_nil]
        rfl
    | none => rfl

theorem foldlM_judgeInPlace (limits : FilterLimits) (retained ms : List (Measured V)) :
    (ms.foldlM (judgeInPlace N limits) retained).on photos =
      (.ok (retained ++ keptOf (greedy (blurry N limits) (nearDuplicate limits) retained ms)),
        (greedy (blurry N limits) (nearDuplicate limits) retained ms).foldl
          writeVerdict photos) := by
  induction ms generalizing retained photos with
  | nil =>
      rw [List.foldlM_nil, InPlace.on_pure, greedy, keptOf, List.filterMap_nil, List.append_nil]
      rfl
  | cons m ms ih =>
      rw [List.foldlM_cons, InPlace.on_bind_ok (judgeInPlace_on limits retained m), ih,
        greedy_cons_eq, List.foldl_cons,
        keptOf_cons _ (greedy (blurry N limits) (nearDuplicate limits) _ ms), List.append_assoc]

theorem groupInPlace_on (limits : FilterLimits) {group : List (Measured V)}
    (horder : ∀ m ∈ group, order m.1 = .ok m.1.orderKey) :
    (groupInPlace N limits group).on photos =
      (.ok ⟨⟩, (judgeGroup N limits group).foldl writeVerdict photos) := by
  have hsort : group.mapM (fun m => order m.1) = .ok (group.map fun m => m.1.orderKey) :=
    mapM_eq_ok.mpr (forall₂_map _ horder)
  unfold groupInPlace
  rw [hsort, InPlace.on_bind_ok (InPlace.on_lift _), InPlace.on_bind_ok (foldlM_judgeInPlace _ _ _)]
  rfl

theorem forM_groupInPlace (limits : FilterLimits)
    {groups : List (Option String × List (Measured V))}
    (horder : ∀ g ∈ groups, ∀ m ∈ g.2, order m.1 = .ok m.1.orderKey) :
    (groups.forM fun g => groupInPlace N limits g.2).on photos =
      (.ok ⟨⟩, (groups.flatMap fun g => judgeGroup N limits g.2).foldl writeVerdict photos) := by
  induction groups generalizing photos with
  | nil => rfl
  | cons g groups ih =>
      obtain ⟨hg, hgroups⟩ := List.forall_mem_cons.mp horder
      rw [List.flatMap_cons, List.foldl_append, ← ih hgroups]
      exact InPlace.on_bind_ok (groupInPlace_on limits hg)

theorem applyVerdict_applyVerdict (p : PhotoState V) (v w : Verdict (Measured V)) :
    applyVerdict (applyVerdict p v) w = applyVerdict p w := by
  cases v <;> cases w <;> rfl

/-- **Verdicts written one by one are the verdicts of the photos.** -/
theorem foldl_writeVerdict {verdicts : List (Measured V × Verdict (Measured V))}
    (hunique : ∀ v ∈ verdicts, ∀ w ∈ verdicts, v.1.1.id = w.1.1.id → v.2 = w.2) :
    verdicts.foldl writeVerdict photos = photos.map (judged verdicts) := by
  induction verdicts generalizing photos with
  | nil => exact (List.map_id'' (fun p => rfl) photos).symm
  | cons v verdicts ih =>
      rw [List.foldl_cons, ih fun v hv w hw =>
        hunique v (List.mem_cons_of_mem _ hv) w (List.mem_cons_of_mem _ hw)]
      rw [writeVerdict, updatePhoto, List.map_map]
      apply List.map_congr_left
      intro p _
      rw [Function.comp_apply]
      by_cases hid : p.id = v.1.1.id
      · have hself : decide (v.1.1.id = p.id) = true := decide_eq_true hid.symm
        rw [if_pos hid, judged, id_applyVerdict, judged, List.find?_cons, hself]
        cases hfind : verdicts.find? fun w => w.1.1.id = p.id with
        | none => rfl
        | some w =>
            have hwid : w.1.1.id = p.id := of_decide_eq_true (List.find?_some hfind :)
            have hsame := hunique v List.mem_cons_self w
              (List.mem_cons_of_mem _ (List.mem_of_find?_eq_some hfind)) (hid.symm.trans hwid.symm)
            dsimp only
            rw [applyVerdict_applyVerdict, hsame]
      · have hother : decide (v.1.1.id = p.id) = false := decide_eq_false fun h => hid h.symm
        rw [if_neg hid, judged, judged, List.find?_cons, hother]

variable (N metrics photos) in
/-- **Writing in place comes to the same**, and where the step raises it has written nothing. -/
theorem filterInPlace_on (blurVarMin phashMaxDist : Threshold) :
    (filterInPlace N metrics blurVarMin phashMaxDist).on photos =
      match filterPhotos N photos metrics blurVarMin phashMaxDist with
      | .ok result => (.ok result.2, result.1)
      | .error e => (.error e, photos) := by
  unfold filterInPlace filterPhotos
  cases hblur : bounded N (fun q => 0 ≤ q) "blur_var_min은 0 이상의 유한값이어야 함" blurVarMin with
  | error e => exact InPlace.on_bind_error (InPlace.on_lift _)
  | ok blur =>
  rw [InPlace.on_bind_ok (InPlace.on_lift _)]
  cases hdist : integer (fun n => 0 ≤ n && n ≤ 64)
    "phash_max_dist는 0 이상 64 이하의 정수여야 함" phashMaxDist with
  | error e => exact InPlace.on_bind_error (InPlace.on_lift _)
  | ok dist =>
  rw [InPlace.on_bind_ok (InPlace.on_lift _), InPlace.on_bind_ok InPlace.on_get]
  cases hmeasured : photos.foldlM (measurePhoto N metrics) [] with
  | error e => exact InPlace.on_bind_error (InPlace.on_lift _)
  | ok measured =>
  obtain ⟨-, measured', hmeasures, heq⟩ := foldlM_measurePhoto.mp hmeasured
  obtain rfl : measured = measured' := heq
  have horder : ∀ g ∈ groupOn (fun m : Measured V => m.1.placeId) measured, ∀ m ∈ g.2,
      order m.1 = .ok m.1.orderKey := by
    intro g hg m hm
    have hfilterable := (hmeasures.photo_mem ((mem_of_mem_groupOn hg).mp hm).1).2
    rw [order, hfilterable.consistent, raiseIf_false, except_ok_bind, hfilterable.utc]
  rw [InPlace.on_bind_ok (InPlace.on_lift _), InPlace.on_bind_ok (forM_groupInPlace _ horder),
    InPlace.on_pure, foldl_writeVerdict]
  · rfl
  · intro v hv w hw hid
    exact (hmeasures.judged_unique (v := v.2) (w := w.2) hv hw hid).2

/-- Thresholds that the step accepts. -/
def ValidThresholds (N : Numerics V) (blurVarMin phashMaxDist : Threshold) : Prop :=
  ∃ limits : FilterLimits, blurVarMin.finite? N = some limits.blurVarMin ∧ 0 ≤ limits.blurVarMin ∧
    phashMaxDist = .int limits.phashMaxDist ∧ 0 ≤ limits.phashMaxDist ∧ limits.phashMaxDist ≤ 64

/-- The thresholds do not decide whether the step succeeds. -/
theorem filterPhotos_succeeds_again {blurVarMin phashMaxDist blurVarMin' phashMaxDist' : Threshold}
    {result : List (PhotoState V) × List (Int × ℚ)}
    (h : filterPhotos N photos metrics blurVarMin phashMaxDist = .ok result)
    (hvalid : ValidThresholds N blurVarMin' phashMaxDist') :
    ∃ result', filterPhotos N photos metrics blurVarMin' phashMaxDist' = .ok result' := by
  obtain ⟨-, measured, -, -, -, -, -, hmeasures, -⟩ := filterPhotos_eq_ok.mp h
  obtain ⟨limits, hblur, hnonneg, hdist, hlow, hhigh⟩ := hvalid
  exact ⟨(photos.map (judged (judgeAll N limits measured)), _),
    filterPhotos_eq_ok.mpr ⟨limits, measured, hblur, hnonneg, hdist, hlow, hhigh,
      hmeasures, rfl, rfl⟩⟩

/-- **Filtering again forgets the first time, and an error changes nothing.** The first thresholds
may be any, and so may the photos. -/
theorem filterInPlace_rerun_atomic (N : Numerics V) (metrics : Int → Option PhotoMetrics)
    (photos : List (PhotoState V)) (blurVarMin phashMaxDist : Threshold) :
    (∀ blurVarMin' phashMaxDist', ValidThresholds N blurVarMin' phashMaxDist' →
      (filterInPlace N metrics blurVarMin' phashMaxDist').on
          ((filterInPlace N metrics blurVarMin phashMaxDist).on photos).2 =
        (filterInPlace N metrics blurVarMin' phashMaxDist').on photos) ∧
    ∀ e, ((filterInPlace N metrics blurVarMin phashMaxDist).on photos).1 = .error e →
      ((filterInPlace N metrics blurVarMin phashMaxDist).on photos).2 = photos := by
  rw [filterInPlace_on N metrics photos]
  cases h : filterPhotos N photos metrics blurVarMin phashMaxDist with
  | error e => exact ⟨fun _ _ _ => rfl, fun _ _ => rfl⟩
  | ok result =>
      constructor
      · intro blurVarMin' phashMaxDist' hvalid
        obtain ⟨result', hresult'⟩ := filterPhotos_succeeds_again h hvalid
        dsimp only
        rw [filterInPlace_on, filterInPlace_on, filterPhotos_rerun h, hresult']
      · intro e he
        cases he

/-! ### Two photos alike -/

/-- A photo of a folder. -/
def folderPhoto (id : Int) : PhotoState Unit :=
  { source := ⟨id, "", some ⟨id, 0⟩, none, none, none⟩, takenAt := some ⟨id, 0⟩
    timeStatus := .original, placeId := some "p1" }

def sampleFolder : List (PhotoState Unit) := [folderPhoto 2, folderPhoto 1]

def sampleMetrics : PhotoMetrics := ⟨.finite "1.0", "0000000000000000"⟩

/-- The limits of the first run are such that both photos are blurry, those of the second such that
one of them is a duplicate. -/
theorem filterInPlace_rerun_atomic_sampleFolder :
    (filterInPlace sampleNumerics (fun _ => some sampleMetrics) (.int 0) (.int 4)).on
        ((filterInPlace sampleNumerics (fun _ => some sampleMetrics) (.int 1) (.int 0)).on
          sampleFolder).2 =
      (filterInPlace sampleNumerics (fun _ => some sampleMetrics) (.int 0) (.int 4)).on
        sampleFolder :=
  (filterInPlace_rerun_atomic sampleNumerics (fun _ => some sampleMetrics) sampleFolder (.int 1)
    (.int 0)).1 (.int 0) (.int 4) ⟨⟨0, 4⟩, rfl, by decide, rfl, by decide, by decide⟩

end Yeodam.Pipeline
