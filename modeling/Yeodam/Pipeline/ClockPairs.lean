/-
The pairs of CLOCK (`_pair_offsets` and `_consistent_days` in `app/pipeline/steps/clock.py`).

`pairOffsets_matched`: the differences come from the pairs of a target photo and an anchor that are
each other's only best match, and only from them. They are a matching, so no photo counts twice
(`matchedPairs_le`), and neither the differences nor what `consistentDays` makes of them depend on
the order of the photos (`pairOffsets_perm`).
-/

import Yeodam.Lib.Best
import Yeodam.Lib.Permuted
import Yeodam.Lib.Pointwise
import Yeodam.Pipeline.ClockShift

namespace Yeodam.Pipeline

open Yeodam.Lib Yeodam.Schemas

variable {V : Type} {N : Numerics V}

/-! ### Rows and columns -/

/-- The greatest entry of a row stands there once if one element is the only best. -/
theorem argmax_map_iff {α : Type} {f : α → ℚ} {xs : List α} {j : Nat} :
    argmax (xs.map f) = j ∧ (xs.map f).count ((xs.map f).getD j 0) = 1 ↔
      ∃ x, xs[j]? = some x ∧ OnlyBest f xs x := by
  have hget : ∀ {k : Nat} {x : α}, xs[k]? = some x → (xs.map f).getD k 0 = f x := by
    intro k x hx
    rw [List.getD_eq_getElem?_getD, List.getElem?_map, hx]
    rfl
  constructor
  · rintro ⟨rfl, hcount⟩
    have hne : xs.map f ≠ [] := by
      intro hnil
      rw [hnil] at hcount
      cases hcount
    obtain ⟨m, hm⟩ : ∃ m, (xs.map f).argmax id = some m :=
      Option.ne_none_iff_exists'.mp fun hnone => hne (List.argmax_eq_none.mp hnone)
    have hidx : argmax (xs.map f) = (xs.map f).idxOf m := by
      rw [argmax, hm]
      rfl
    have hat : (xs.map f)[(xs.map f).idxOf m]? = some m :=
      List.getElem?_idxOf (List.argmax_mem hm)
    rw [← hidx, List.getElem?_map] at hat
    obtain ⟨x, hx, rfl⟩ := Option.map_eq_some_iff.mp hat
    refine ⟨x, hx, (onlyBest_iff_getElem? hx).mpr fun k y hk hy => ?_⟩
    have hle : f y ≤ f x :=
      List.le_of_mem_argmax (f := id) (List.mem_map_of_mem (List.mem_of_getElem? hy)) hm
    apply lt_of_le_of_ne hle
    intro heq
    -- A second entry of that value is counted too.
    rw [hget hx] at hcount
    obtain ⟨hj, hxj⟩ := List.getElem?_eq_some_iff.mp hx
    have herase := (List.getElem_cons_eraseIdx_perm hj).symm.map f
    rw [herase.count_eq, List.map_cons, hxj, List.count_cons_self] at hcount
    have hmem : f x ∈ (xs.eraseIdx (argmax (xs.map f))).map f := by
      refine List.mem_map.mpr ⟨y, ?_, heq⟩
      rw [List.mem_eraseIdx_iff_getElem?]
      exact ⟨k, hk, hy⟩
    have hpos := List.count_pos_iff.mpr hmem
    omega
  · rintro ⟨x, hx, hbest⟩
    have hless := (onlyBest_iff_getElem? hx).mp hbest
    have hmem : f x ∈ xs.map f := List.mem_map_of_mem (List.mem_of_getElem? hx)
    obtain ⟨m, hm⟩ : ∃ m, (xs.map f).argmax id = some m := by
      apply Option.ne_none_iff_exists'.mp
      intro hnone
      rw [List.argmax_eq_none.mp hnone] at hmem
      cases hmem
    have hwhere : ∀ k, (xs.map f)[k]? = some m → k = j ∧ m = f x := by
      intro k hk
      rw [List.getElem?_map] at hk
      obtain ⟨y, hy, rfl⟩ := Option.map_eq_some_iff.mp hk
      have hle : f x ≤ f y := List.le_of_mem_argmax (f := id) hmem hm
      by_cases hkj : k = j
      · subst hkj
        rw [hx, Option.some.injEq] at hy
        exact ⟨rfl, hy ▸ rfl⟩
      · exact absurd (hless k y hkj hy) hle.not_gt
    obtain ⟨hidx, rfl⟩ := hwhere _ (List.getElem?_idxOf (List.argmax_mem hm))
    refine ⟨?_, ?_⟩
    · rw [argmax, hm]
      exact hidx
    · obtain ⟨rest, hperm, hrest⟩ := hbest
      rw [hget hx, (hperm.map f).count_eq, List.map_cons, List.count_cons_self,
        List.count_eq_zero_of_not_mem]
      intro hagain
      obtain ⟨y, hy, heq⟩ := List.mem_map.mp hagain
      exact absurd (hrest y hy) (heq ▸ lt_irrefl _)

variable {α β : Type} {f : α → β → ℚ} {xs : List α} {ys : List β} {minSim : ℚ}

/-- **The pairs of a matrix of similarities** are those that choose each other. -/
theorem mem_mutualPairs_iff {i j : Nat} :
    (i, j) ∈ mutualPairs (xs.map fun x => ys.map (f x)) minSim ↔
      ∃ x y, xs[i]? = some x ∧ ys[j]? = some y ∧ minSim ≤ f x y ∧ Mutual f xs ys (x, y) := by
  have hcolumn : ∀ {j : Nat} {y : β}, ys[j]? = some y →
      (xs.map fun x => ys.map (f x)).map (fun row => row.getD j 0) = xs.map fun x => f x y := by
    intro j y hy
    rw [List.map_map]
    apply List.map_congr_left
    intro x _
    rw [Function.comp_apply, List.getD_eq_getElem?_getD, List.getElem?_map, hy]
    rfl
  have hentry : ∀ {x : α} {j : Nat} {y : β}, ys[j]? = some y → (ys.map (f x)).getD j 0 = f x y := by
    intro x j y hy
    rw [List.getD_eq_getElem?_getD, List.getElem?_map, hy]
    rfl
  rw [mutualPairs, List.mem_filterMap]
  constructor
  · rintro ⟨⟨row, i'⟩, hrow, h⟩
    have hat := List.mem_zipIdx_iff_getElem?.mp hrow
    rw [List.getElem?_map] at hat
    obtain ⟨x, hx, rfl⟩ := Option.map_eq_some_iff.mp hat
    dsimp only at h
    split at h
    · cases h
    rename_i hguard
    rw [not_or, not_lt, not_not] at hguard
    obtain ⟨y, hy, hbest⟩ := argmax_map_iff.mp ⟨rfl, hguard.2⟩
    rw [hcolumn hy] at h
    split at h
    · cases h
    rename_i hguard'
    rw [not_or, not_not, not_not] at hguard'
    cases h
    obtain ⟨x', hx', hbest'⟩ := argmax_map_iff.mp hguard'
    obtain rfl : x = x' := Option.some.inj (hx.symm.trans hx')
    exact ⟨x, y, hx, hy, (hentry hy) ▸ hguard.1, hbest, hbest'⟩
  · rintro ⟨x, y, hx, hy, hmin, hbest, hbest'⟩
    refine ⟨(ys.map (f x), i), List.mem_zipIdx_iff_getElem?.mpr ?_, ?_⟩
    · rw [List.getElem?_map, hx]
      rfl
    · obtain ⟨hrow, hcount⟩ := argmax_map_iff.mpr ⟨y, hy, hbest⟩
      obtain ⟨hrow', hcount'⟩ := argmax_map_iff.mpr ⟨x, hx, hbest'⟩
      dsimp only
      rw [hrow, if_neg, hcolumn hy, if_neg]
      · rw [not_or, not_not, not_not]
        exact ⟨hrow', hcount'⟩
      · rw [not_or, not_lt, not_not]
        exact ⟨(hentry hy).symm ▸ hmin, hcount⟩

/-- No row has two pairs. -/
theorem nodup_mutualPairs (similarities : List (List ℚ)) (minSim : ℚ) :
    ((mutualPairs similarities minSim).map Prod.fst).Nodup := by
  have hrows : similarities.zipIdx.Pairwise fun row row' => row.2 ≠ row'.2 := by
    have hnodup : (similarities.zipIdx.map Prod.snd).Nodup := by
      rw [List.zipIdx_map_snd]
      exact List.nodup_range'
    exact List.pairwise_map.mp hnodup
  rw [List.Nodup, List.pairwise_map]
  apply hrows.filterMap _
  intro row row' hne pair hpair pair' hpair'
  have hindex : ∀ {row : List ℚ × Nat} {pair : Nat × Nat},
      (let best := argmax row.1
       let top := row.1.getD best 0
       if top < minSim ∨ row.1.count top ≠ 1 then none
       else
         let column := similarities.map fun row => row.getD best 0
         if argmax column ≠ row.2 ∨ column.count (column.getD row.2 0) ≠ 1 then none
         else some (row.2, best)) = some pair → pair.1 = row.2 := by
    intro row pair h
    dsimp only at h
    split at h
    · cases h
    split at h
    · cases h
    · cases h
      rfl
  rw [hindex hpair, hindex hpair']
  exact hne

/-! ### The pairs of photos -/

/-- `clip(t @ a, -1, 1)`, of two photos with an embedding. -/
def resemblance (N : Numerics V) (t a : PhotoState V) : ℚ :=
  match t.embedding, a.embedding with
  | some v, some w => clip (N.dot v w)
  | _, _ => 0

/-- The difference of a pair, in seconds. -/
def timeDifference (pair : PhotoState V × PhotoState V) : Except Raised ℚ := do
  let targetTime ← sourceUtc (some pair.1)
  let referenceTime ← sourceUtc (some pair.2)
  return ((referenceTime - targetTime : Int) : ℚ) / 1000000

/-- The pairs behind the differences of some targets and anchors. -/
structure PairsOf (N : Numerics V) (minSim : ℚ) (targets anchors : List (PhotoState V))
    (pairs : List (PhotoState V × PhotoState V)) : Prop where
  once : pairs.Nodup
  chosen : ∀ pair, pair ∈ pairs ↔
    minSim ≤ resemblance N pair.1 pair.2 ∧ Mutual (resemblance N) targets anchors pair
  differences : pairOffsets N targets anchors minSim = pairs.mapM timeDifference

variable {targets targets' anchors anchors' : List (PhotoState V)}
  {pairs pairs' : List (PhotoState V × PhotoState V)}

/-- The matrix of the source, its entries by the photos. -/
theorem similarities_eq {vs : List V} (h : vectors N (targets ++ anchors) = .ok vs) :
    ((vs.take targets.length).map fun v => (vs.drop targets.length).map fun w => clip (N.dot v w)) =
      targets.map fun t => anchors.map (resemblance N t) := by
  obtain ⟨us, hus, h⟩ := except_bind_eq_ok.mp h
  obtain ⟨-, -, h⟩ := except_bind_eq_ok.mp h
  cases h
  have hsome : List.Forall₂ (fun (p : PhotoState V) v => p.embedding = some v)
      (targets ++ anchors) vs := by
    refine (mapM_eq_ok.mp hus).imp fun p v hpv => ?_
    unfold unitVector at hpv
    split at hpv
    · rename_i w hw
      split at hpv
      · cases hpv
        exact hw
      · cases hpv
    · cases hpv
  obtain ⟨us, ws, htargets, hanchors, rfl⟩ := forall₂_append_left hsome
  rw [htargets.length_eq, List.take_left, List.drop_left]
  apply map_eq_of_forall₂ htargets
  intro t v ht
  apply map_eq_of_forall₂ hanchors
  intro a w ha
  rw [resemblance, ht, ha]

/-- **The differences come from the mutual pairs.** -/
theorem pairsOf_of_valid {d : Nat} (minSim : ℚ)
    (hembedded : ∀ p ∈ targets ++ anchors, p.Embedded N d)
    (hne : anchors ≠ []) : ∃ pairs, PairsOf N minSim targets anchors pairs := by
  obtain ⟨vs, hvs, hdim⟩ := unitVectors_succeed
    (fun _ => "CLOCK 대응 사진에 유효한 단위 임베딩이 필요함") hembedded
  have hsome : vs.isEmpty = false := by
    rw [List.isEmpty_eq_false_iff, ← List.length_pos_iff, ← (mapM_eq_ok.mp hvs).length_eq]
    exact List.length_pos_of_ne_nil (List.append_ne_nil_of_right_ne_nil _ hne)
  have hvectors : vectors N (targets ++ anchors) = .ok vs := by
    rw [vectors, except_bind_eq_ok]
    refine ⟨vs, hvs, ?_⟩
    rw [hdim, hsome]
    rfl
  -- The photos at the places of a pair.
  let At (index : Nat × Nat) (pair : PhotoState V × PhotoState V) : Prop :=
    targets[index.1]? = some pair.1 ∧ anchors[index.2]? = some pair.2 ∧
      minSim ≤ resemblance N pair.1 pair.2 ∧ Mutual (resemblance N) targets anchors pair
  have hat : ∀ index ∈ mutualPairs (targets.map fun t => anchors.map (resemblance N t)) minSim,
      ∃ pair, At index pair := by
    rintro ⟨i, j⟩ hindex
    obtain ⟨t, a, ht, ha, hmin, hmutual⟩ := mem_mutualPairs_iff.mp hindex
    exact ⟨(t, a), ht, ha, hmin, hmutual⟩
  obtain ⟨pairs, hpairs⟩ := exists_forall₂ hat
  refine ⟨pairs, ?_, fun pair => ⟨fun hpair => ?_, ?_⟩, ?_⟩
  · refine pairwise_of_forall₂ hpairs (fun index index' pair pair' h h' hne heq => hne ?_)
      (List.pairwise_map.mp (nodup_mutualPairs _ minSim))
    -- A photo that stood at two places would not be the only best.
    by_contra hindex
    have hless := (onlyBest_iff_getElem? h.1).mp h.2.2.2.2 index'.1 pair'.1
      (fun heq => hindex heq.symm) h'.1
    rw [heq] at hless
    exact lt_irrefl _ hless
  · obtain ⟨index, -, h⟩ := exists_left_of_forall₂ hpairs hpair
    exact ⟨h.2.2.1, h.2.2.2⟩
  · rintro ⟨hmin, hmutual⟩
    obtain ⟨i, hi⟩ := List.mem_iff_getElem?.mp hmutual.2.mem
    obtain ⟨j, hj⟩ := List.mem_iff_getElem?.mp hmutual.1.mem
    have hindex := mem_mutualPairs_iff.mpr ⟨pair.1, pair.2, hi, hj, hmin, hmutual⟩
    obtain ⟨pair', hpair', h⟩ := exists_right_of_forall₂ hpairs hindex
    have hsame : pair = pair' := Prod.ext (Option.some.inj (hi.symm.trans h.1))
      (Option.some.inj (hj.symm.trans h.2.1))
    exact hsame ▸ hpair'
  · rw [pairOffsets, hvectors, except_ok_bind, if_neg (by rwa [List.isEmpty_iff])]
    dsimp only
    rw [similarities_eq hvectors]
    apply mapM_congr_forall₂ hpairs
    intro index pair h
    rw [h.1, h.2.1]
    rfl

/-- No photo is in two pairs. -/
theorem PairsOf.matching {minSim : ℚ} (h : PairsOf N minSim targets anchors pairs) :
    (pairs.map Prod.fst).Nodup ∧ (pairs.map Prod.snd).Nodup :=
  nodup_of_mutual h.once fun pair hpair => ((h.chosen pair).mp hpair).2

theorem PairsOf.perm {minSim : ℚ} (h : PairsOf N minSim targets anchors pairs)
    (h' : PairsOf N minSim targets' anchors' pairs') (htargets : targets'.Perm targets)
    (hanchors : anchors'.Perm anchors) : pairs'.Perm pairs := by
  rw [List.perm_ext_iff_of_nodup h'.once h.once]
  intro pair
  rw [h'.chosen, h.chosen, mutual_perm htargets hanchors]

/-! ### The estimate -/

/-- The values that speak for a day offset, in any order. -/
theorem dayCandidate_perm {minPairs : Int} {tolerance : ℚ} {days : Int}
    {votes votes' : List (Int × ℚ)} (h : votes.Perm votes') :
    dayCandidate minPairs tolerance (days, votes) =
      dayCandidate minPairs tolerance (days, votes') := by
  have hvalues := h.map Prod.snd
  unfold dayCandidate
  dsimp only
  rw [median_perm hvalues, hvalues.countP_eq]

/-- **The estimate does not depend on the order of the differences.** -/
theorem consistentDays_perm {offsets offsets' : List ℚ} (minPairs : Int) (tolerance : ℚ)
    (h : offsets.Perm offsets') :
    consistentDays offsets minPairs tolerance = consistentDays offsets' minPairs tolerance := by
  have hvotes := h.filterMap fun seconds => (votedDays seconds).map fun days => (days, seconds)
  have hgroups : ((groupOn Prod.fst _).map (dayCandidate minPairs tolerance)).Perm _ :=
    groupOn_perm hvotes fun days => dayCandidate_perm (hvotes.filter _)
  have hcandidates := hgroups.filterMap id
  rw [List.filterMap_map, List.filterMap_map, Function.id_comp] at hcandidates
  rw [consistentDays_eq, consistentDays_eq]
  revert hcandidates
  generalize (groupOn _ _).filterMap (dayCandidate minPairs tolerance) = cs
  generalize (groupOn _ _).filterMap (dayCandidate minPairs tolerance) = cs'
  intro hperm
  -- One candidate stays one, whatever the order.
  match cs, cs', hperm with
  | [], cs', hperm => rw [hperm.nil_eq]
  | [c], cs', hperm => rw [← List.singleton_perm.mp hperm]
  | c :: d :: cs, [], hperm => exact absurd hperm.length_eq (by simp)
  | c :: d :: cs, [e], hperm => exact absurd hperm.length_eq (by simp)
  | c :: d :: cs, e :: e' :: es, _ => rfl

/-- An estimate counts some of the differences. -/
theorem consistentDays_le {offsets : List ℚ} {minPairs : Int} {tolerance : ℚ} {estimate : Int × Nat}
    (h : consistentDays offsets minPairs tolerance = some estimate) :
    estimate.2 ≤ offsets.length := by
  rw [consistentDays_eq] at h
  have hmem : estimate ∈ (groupOn Prod.fst (offsets.filterMap fun seconds =>
      (votedDays seconds).map fun days => (days, seconds))).filterMap
        (dayCandidate minPairs tolerance) := by
    split at h
    · rename_i candidate heq
      cases h
      rw [heq]
      exact List.mem_singleton_self _
    · cases h
  obtain ⟨group, hgroup, hcandidate⟩ := List.mem_filterMap.mp hmem
  obtain ⟨-, hmembers⟩ := mem_groupOn.mp hgroup
  unfold dayCandidate at hcandidate
  dsimp only at hcandidate
  split at hcandidate
  · cases hcandidate
    calc _ ≤ (group.2.map Prod.snd).length := List.countP_le_length
      _ = group.2.length := List.length_map _
      _ ≤ (offsets.filterMap _).length := hmembers ▸ List.length_filter_le _ _
      _ ≤ offsets.length := List.length_filterMap_le _ _
  · cases hcandidate

/-! ### The reports -/

/-- The photos of a device that is to be corrected, and the anchors they are compared with. -/
theorem embedded_of_pairOffsets {minSim : ℚ} {offsets : List ℚ}
    (h : pairOffsets N targets anchors minSim = .ok offsets) :
    anchors ≠ [] ∧ ∃ d, ∀ p ∈ targets ++ anchors, p.Embedded N d := by
  obtain ⟨vs, hvs, h⟩ := except_bind_eq_ok.mp h
  split at h
  · cases h
  rename_i hne
  rw [List.isEmpty_iff] at hne
  obtain ⟨us, hus, hvs⟩ := except_bind_eq_ok.mp hvs
  obtain ⟨_, hdim, hvs⟩ := except_bind_eq_ok.mp hvs
  cases hvs
  rw [raiseIf_eq_ok, Bool.or_eq_false_iff, Bool.not_eq_false'] at hdim
  refine ⟨hne, ?_⟩
  cases vs with
  | nil => cases hdim.1
  | cons v vs =>
      refine ⟨N.dim v, fun p hp => ?_⟩
      obtain ⟨w, hw, hpw⟩ := exists_right_of_forall₂ (mapM_eq_ok.mp hus) hp
      unfold unitVector at hpw
      split at hpw
      · rename_i u hu
        split at hpw
        · rename_i hunit
          cases hpw
          refine ⟨w, hu, hunit, ?_⟩
          rcases List.mem_cons.mp hw with rfl | hw
          · rfl
          · exact of_decide_eq_true (List.all_eq_true.mp hdim.2 w hw)
        · cases hpw
      · cases hpw

/-- The distinct photos of a device that a report counts. -/
structure Counts (photos : List (PhotoState V)) (offset : ClockOffset)
    (used : List (PhotoState V)) : Prop where
  distinct : used.Nodup
  photos : ∀ p ∈ used, p ∈ photos ∧ p.source.deviceModel = some offset.deviceModel
  count : offset.matchedPairs ≤ used.length

variable {limits : ClockLimits} {photos : List (PhotoState V)}

/-- An estimate counts distinct photos of its device. -/
theorem estimateDays_counts {target : String × List (PhotoState V)} {days : Int}
    {matchedPairs : Nat} (htarget : target ∈ clockTargets photos)
    (h : estimateDays N limits anchors target.2 = .ok (some (days, matchedPairs))) :
    ∃ used, Counts photos ⟨target.1, days, matchedPairs⟩ used := by
  obtain ⟨offsets, hoffsets, h⟩ := except_bind_eq_ok.mp h
  obtain ⟨hne, d, hembedded⟩ := embedded_of_pairOffsets hoffsets
  obtain ⟨pairs, hpairs⟩ := pairsOf_of_valid limits.pairMinSim hembedded hne
  refine ⟨pairs.map Prod.fst, hpairs.matching.1, fun p hp => ?_, ?_⟩
  · obtain ⟨pair, hpair, rfl⟩ := List.mem_map.mp hp
    have hmem := ((hpairs.chosen pair).mp hpair).2.2.mem
    exact ((mem_clockTargets htarget).mp hmem).imp_right deviceModel_of_targetDevice
  · have hlength := (mapM_eq_ok.mp (hpairs.differences.symm.trans hoffsets)).length_eq
    have hle := consistentDays_le (Except.ok.inj h)
    dsimp only at hle ⊢
    rw [List.length_map]
    omega

/-- **No report counts a photo twice.** -/
theorem matchedPairs_le {pairMinSim minPairs offsetTolerance : Threshold}
    {result : List (PhotoState V) × List ClockOffset}
    (h : correctClocks N photos pairMinSim minPairs offsetTolerance = .ok result) :
    ∀ offset ∈ result.2, ∃ used, Counts photos offset used := by
  obtain ⟨limits, -, h⟩ := except_bind_eq_ok.mp h
  unfold correctClocksWithin at h
  dsimp only at h
  split at h
  · cases h
    exact fun offset hoffset => absurd hoffset List.not_mem_nil
  · refine foldlM_preserves (P := fun state : List (PhotoState V) × List ClockOffset =>
      ∀ offset ∈ state.2, ∃ used, Counts photos offset used) ?_
      (fun offset hoffset => absurd hoffset List.not_mem_nil) h
    intro state hstate target htarget state' hstep
    obtain ⟨estimate, hestimate, hstep⟩ := except_bind_eq_ok.mp hstep
    cases estimate with
    | none =>
        cases hstep
        exact hstate
    | some estimate =>
        obtain ⟨_, -, hstep⟩ := except_bind_eq_ok.mp hstep
        cases hstep
        intro offset hoffset
        rcases List.mem_append.mp hoffset with hoffset | hoffset
        · exact hstate offset hoffset
        · obtain rfl := List.mem_singleton.mp hoffset
          exact estimateDays_counts htarget hestimate

/-- The pairs of some targets and anchors are a matching that does not depend on their order. -/
structure ClockMatching (N : Numerics V) (minSim : ℚ) (targets anchors : List (PhotoState V))
    (pairs : List (PhotoState V × PhotoState V)) : Prop where
  behind : PairsOf N minSim targets anchors pairs
  targetOnce : (pairs.map Prod.fst).Nodup
  anchorOnce : (pairs.map Prod.snd).Nodup
  unordered : ∀ targets' anchors' : List (PhotoState V), targets'.Perm targets →
    anchors'.Perm anchors → ∃ pairs', pairs'.Perm pairs ∧ PairsOf N minSim targets' anchors' pairs'
  estimate : ∀ (targets' anchors' : List (PhotoState V)) (offsets : List ℚ), targets'.Perm targets →
    anchors'.Perm anchors → pairOffsets N targets anchors minSim = .ok offsets →
      ∃ offsets', pairOffsets N targets' anchors' minSim = .ok offsets' ∧ offsets'.Perm offsets ∧
        ∀ minPairs tolerance,
          consistentDays offsets' minPairs tolerance = consistentDays offsets minPairs tolerance

/-- **Clock pairing is a matching**, of the photos of a device with the anchors, and the reports
count no photo twice. -/
theorem clockPairs_matching {d : Nat} (minSim : ℚ)
    (hembedded : ∀ p ∈ targets ++ anchors, p.Embedded N d) (hne : anchors ≠ []) :
    (∃ pairs, ClockMatching N minSim targets anchors pairs) ∧
      ∀ (photos : List (PhotoState V)) (pairMinSim minPairs offsetTolerance : Threshold)
        (result : List (PhotoState V) × List ClockOffset),
        correctClocks N photos pairMinSim minPairs offsetTolerance = .ok result →
          ∀ offset ∈ result.2, ∃ used, Counts photos offset used := by
  refine ⟨?_, fun photos _ _ _ result h => matchedPairs_le h⟩
  obtain ⟨pairs, hpairs⟩ := pairsOf_of_valid minSim hembedded hne
  have hunordered : ∀ targets' anchors' : List (PhotoState V), targets'.Perm targets →
      anchors'.Perm anchors →
        ∃ pairs', pairs'.Perm pairs ∧ PairsOf N minSim targets' anchors' pairs' := by
    intro targets' anchors' htargets hanchors
    have hembedded' : ∀ p ∈ targets' ++ anchors', p.Embedded N d :=
      fun p hp => hembedded p ((htargets.append hanchors).mem_iff.mp hp)
    obtain ⟨pairs', hpairs'⟩ := pairsOf_of_valid minSim hembedded'
      fun hnil => hne (hnil ▸ hanchors).nil_eq.symm
    exact ⟨pairs', hpairs.perm hpairs' htargets hanchors, hpairs'⟩
  refine ⟨pairs, hpairs, hpairs.matching.1, hpairs.matching.2, hunordered, ?_⟩
  intro targets' anchors' offsets htargets hanchors hoffsets
  obtain ⟨pairs', hperm, hpairs'⟩ := hunordered targets' anchors' htargets hanchors
  rw [hpairs.differences] at hoffsets
  obtain ⟨offsets', hoffsets', hoffsetsPerm⟩ := mapM_perm hperm hoffsets
  exact ⟨offsets', hpairs'.differences.trans hoffsets', hoffsetsPerm,
    fun minPairs tolerance => consistentDays_perm minPairs tolerance hoffsetsPerm⟩

/-- A photo with GPS. -/
def clockAnchor (id minute : Int) (v : Int × Int) : PhotoState (Int × Int) :=
  { source := ⟨id, "", some ⟨minute * 60000000, 0⟩, some (.finite "37.5"), some (.finite "127.0"),
      some "a"⟩
    embedding := some v }

/-- A photo from a clock that is two days ahead. -/
def clockTarget (id minute : Int) (v : Int × Int) : PhotoState (Int × Int) :=
  { source := ⟨id, "", some ⟨minute * 60000000 + 2 * microsPerDay, 0⟩, none, none, some "b"⟩
    embedding := some v }

/-- The photo 6 is like the anchors 2 and 3, and the photos 5 and 7 like one anchor each. -/
def tiedPhotos : List (PhotoState (Int × Int)) :=
  [clockAnchor 1 0 (1, 0), clockAnchor 2 10 (0, 1), clockAnchor 3 20 (0, 1),
    clockAnchor 4 30 (-1, 0), clockTarget 5 0 (1, 0), clockTarget 6 10 (0, 1),
    clockTarget 7 31 (-1, 0)]

def tiedClocked : List (PhotoState (Int × Int)) × List ClockOffset :=
  (correctClocks planeNumerics tiedPhotos (.int 1) (.int 2) (.int 60)).toOption.getD ([], [])

/-- Two pairs stand behind the report, for the photo 6 has no only best anchor. -/
theorem clockPairs_matching_tiedPhotos :
    tiedClocked.2.map (fun o => (o.deviceModel, o.days, o.matchedPairs)) = [("b", -2, 2)] ∧
    pairOffsets planeNumerics (tiedPhotos.drop 4) (tiedPhotos.take 4) 1 =
      .ok [-172800, -172860] ∧
    (∃ pairs, ClockMatching planeNumerics 1 (tiedPhotos.drop 4) (tiedPhotos.take 4) pairs) ∧
    ∀ offset ∈ tiedClocked.2, ∃ used, Counts tiedPhotos offset used := by
  have hclocked : (correctClocks planeNumerics tiedPhotos (.int 1) (.int 2)
      (.int 60)).toOption.isSome = true := by
    decide +kernel
  have hembedded : ∀ p ∈ tiedPhotos.drop 4 ++ tiedPhotos.take 4, p.Embedded planeNumerics 2 := by
    intro p hp
    have hmem : p ∈ tiedPhotos := List.take_append_drop 4 tiedPhotos ▸
      List.mem_append.mpr (List.mem_append.mp hp).symm
    simp only [tiedPhotos, List.mem_cons, List.not_mem_nil, or_false] at hmem
    rcases hmem with rfl | rfl | rfl | rfl | rfl | rfl | rfl
    all_goals exact ⟨_, rfl, by decide, rfl⟩
  obtain ⟨hpairs, hreports⟩ := clockPairs_matching 1 hembedded (List.cons_ne_nil _ _)
  exact ⟨by decide +kernel, by decide +kernel, hpairs,
    hreports tiedPhotos _ _ _ _ (eq_ok_getD hclocked _)⟩

end Yeodam.Pipeline
