/-
FILTERING (`app/pipeline/steps/filtering.py`): in each folder, and among the photos without
one, blurry photos and duplicates of a photo already kept are marked.

Every photo is checked before any is marked. A group is then judged in the order its photos
were taken, by `greedy`: `filterPhotos_judged` says that each photo has the verdict of its
group, and `filterPhotos_succeeds` when the step raises nothing.
-/

import Mathlib.Algebra.GroupWithZero.Nat
import Yeodam.Lib.Dict
import Yeodam.Lib.Greedy
import Yeodam.Pipeline.State

namespace Yeodam.Pipeline

open Yeodam.Lib Yeodam.Schemas

variable {V : Type} (N : Numerics V)

/-! ### Metrics -/

/-- `PhotoMetrics`. -/
structure PhotoMetrics where
  variance : PyFloat
  phash : String
deriving DecidableEq

/-- `[0-9a-f]{16}`. -/
def isPhash (s : String) : Bool :=
  s.length = 16 && s.toList.all fun c => c.isDigit || ('a' ≤ c && c ≤ 'f')

def PhotoMetrics.valid (m : PhotoMetrics) : Bool :=
  m.variance.isFinite && 0 ≤ N.value m.variance && isPhash m.phash

def hexDigit (c : Char) : Nat := if c.isDigit then c.toNat - 48 else c.toNat - 87

/-- The number of bits in which two hexadecimal digits differ. -/
def differingBits (a b : Nat) : Nat := [1, 2, 4, 8].countP fun bit => a / bit % 2 ≠ b / bit % 2

/-- `hex_to_hash(a) - hex_to_hash(b)`. -/
def phashDistance (a b : String) : Nat :=
  ((a.toList.zip b.toList).map fun (x, y) => differingBits (hexDigit x) (hexDigit y)).sum

/-! ### Groups -/

/-- A photo and its metrics. -/
abbrev Measured (V : Type) := PhotoState V × PhotoMetrics

/-- The thresholds of the step. -/
structure FilterLimits where
  blurVarMin : ℚ
  phashMaxDist : Int

def blurry (limits : FilterLimits) (m : Measured V) : Bool :=
  N.value m.2.variance < limits.blurVarMin

def nearDuplicate (limits : FilterLimits) (original m : Measured V) : Bool :=
  phashDistance m.2.phash original.2.phash ≤ limits.phashMaxDist

/-- The verdicts of one group. -/
def judgeGroup (limits : FilterLimits) (group : List (Measured V)) :
    List (Measured V × Verdict (Measured V)) :=
  greedy (blurry N limits) (nearDuplicate limits) [] (sortOn (fun m => m.1.orderKey) group)

/-- Write a verdict to a photo. -/
def applyVerdict (p : PhotoState V) : Verdict (Measured V) → PhotoState V
  | .skipped => { p with issue := some .blurry, duplicateOfAttachmentId := none }
  | .kept => { p with issue := keptIssue p.placeId, duplicateOfAttachmentId := none }
  | .like original =>
      { p with issue := some .duplicated, duplicateOfAttachmentId := some original.1.id }

/-! ### The step -/

/-- One round of the loop that checks and measures the photos. -/
def measurePhoto (metrics : Int → Option PhotoMetrics) (measured : List (Measured V))
    (p : PhotoState V) : Except Raised (List (Measured V)) := do
  raiseIf (p.placeId.isNone && p.issue.isNone)
    "FILTERING 대상 사진에 place_id나 위치 미분류 표시가 필요함"
  raiseIf (p.placeId.isSome && (p.folder?.isNone || p.issue = some .unclearLocation))
    "FILTERING 대상 사진의 place_id와 분류 사유가 맞지 않음"
  raiseIf (measured.any fun m => m.1.id = p.id) "FILTERING 대상 사진 ID가 중복됨"
  raiseIf p.timeInconsistent "FILTERING에는 CLOCK이 판정한 일관된 처리 시각이 필요함"
  let _ ← utcOrder p
  match (metrics p.id).filter (PhotoMetrics.valid N) with
  | none =>
      fail ("FILTERING 대상 사진의 지표가 없거나 유효하지 않음: " ++ toString p.id)
  | some m => return measured ++ [(p, m)]

/-- All verdicts, group by group. -/
def judgeAll (limits : FilterLimits) (measured : List (Measured V)) :
    List (Measured V × Verdict (Measured V)) :=
  (groupOn (fun m => m.1.placeId) measured).flatMap fun g => judgeGroup N limits g.2

/-- The verdict of a photo, written to it. -/
def judged (verdicts : List (Measured V × Verdict (Measured V))) (p : PhotoState V) :
    PhotoState V :=
  match verdicts.find? fun v => v.1.1.id = p.id with
  | some v => applyVerdict p v.2
  | none => p

/-- `filter_photos`: the photos, and the variance of each. -/
def filterPhotos (photos : List (PhotoState V)) (metrics : Int → Option PhotoMetrics)
    (blurVarMin phashMaxDist : Threshold) :
    Except Raised (List (PhotoState V) × List (Int × ℚ)) := do
  let blurVarMin ← bounded N (fun q => 0 ≤ q) "blur_var_min은 0 이상의 유한값이어야 함" blurVarMin
  let phashMaxDist ← integer (fun n => 0 ≤ n && n ≤ 64)
    "phash_max_dist는 0 이상 64 이하의 정수여야 함" phashMaxDist
  let measured ← photos.foldlM (measurePhoto N metrics) []
  let verdicts := judgeAll N ⟨blurVarMin, phashMaxDist⟩ measured
  return (photos.map (judged verdicts), measured.map fun m => (m.1.id, N.value m.2.variance))

/-! ### What is measured -/

/-- The photo passes the checks, its metrics being `m`. -/
structure Filterable (N : Numerics V) (metrics : Int → Option PhotoMetrics) (p : PhotoState V)
    (m : PhotoMetrics) : Prop where
  listed : p.placeId = none → p.issue ≠ none
  placed : ∀ place, p.placeId = some place → place ≠ "" ∧ p.issue ≠ some .unclearLocation
  consistent : p.timeInconsistent = false
  utc : utcOrder p = .ok p.orderKey
  metric : metrics p.id = some m
  valid : m.valid N = true

variable {N} {metrics : Int → Option PhotoMetrics} {limits : FilterLimits} {p q : PhotoState V}
  {photos : List (PhotoState V)} {measured out : List (Measured V)} {m m' : Measured V}
  {v w : Verdict (Measured V)}

theorem measurePhoto_eq_ok : measurePhoto N metrics measured p = .ok out ↔
    p.id ∉ measured.map (fun m => m.1.id) ∧
      ∃ m, Filterable N metrics p m ∧ out = measured ++ [(p, m)] := by
  have hnew : (measured.any fun m => m.1.id = p.id) = false ↔
      p.id ∉ measured.map (fun m => m.1.id) := by
    rw [List.any_eq_false, List.mem_map]
    constructor
    · rintro h ⟨m, hm, hid⟩
      exact h m hm (decide_eq_true hid)
    · intro h m hm hid
      exact h ⟨m, hm, of_decide_eq_true hid⟩
  have hlisted : (p.placeId.isNone && p.issue.isNone) = false ↔
      (p.placeId = none → p.issue ≠ none) := by
    cases p.placeId <;> cases p.issue <;> simp
  have hplaced :
      (p.placeId.isSome && (p.folder?.isNone || p.issue = some .unclearLocation)) = false ↔
      ∀ place, p.placeId = some place → place ≠ "" ∧ p.issue ≠ some .unclearLocation := by
    unfold PhotoState.folder?
    cases p.placeId with
    | none => simp
    | some place =>
        by_cases hempty : place = "" <;> simp [hempty]
  simp only [measurePhoto, except_bind_eq_ok, raiseIf_eq_ok, hnew, hlisted, hplaced]
  constructor
  · rintro ⟨_, hl, _, hp, _, hn, _, hc, key, hutc, h⟩
    refine ⟨hn, ?_⟩
    split at h
    · exact absurd h fail_ne_ok
    · rename_i m hm
      obtain ⟨hmetric, hvalid⟩ := Option.filter_eq_some_iff.mp hm
      cases h
      exact ⟨m, ⟨hl, hp, hc, utcOrder_eq_ok hutc ▸ hutc, hmetric, hvalid⟩, rfl⟩
  · rintro ⟨hn, m, hm, rfl⟩
    refine ⟨(), hm.listed, (), hm.placed, (), hn, (), hm.consistent, _, hm.utc, ?_⟩
    rw [hm.metric, Option.filter_some_pos hm.valid]
    rfl

/-- The metrics of each photo, in the order of the photos. -/
structure Measures (N : Numerics V) (metrics : Int → Option PhotoMetrics)
    (photos : List (PhotoState V)) (measured : List (Measured V)) : Prop where
  nodup : (photos.map PhotoState.id).Nodup
  each : List.Forall₂ (fun p m => m.1 = p ∧ Filterable N metrics p m.2) photos measured

/-- **The checks pass exactly when ids are distinct and every photo can be filtered.** -/
theorem foldlM_measurePhoto :
    photos.foldlM (measurePhoto N metrics) measured = .ok out ↔
      (∀ p ∈ photos, p.id ∉ measured.map fun m => m.1.id) ∧
        ∃ more, Measures N metrics photos more ∧ out = measured ++ more := by
  induction photos generalizing measured with
  | nil =>
      constructor
      · intro h
        cases h
        refine ⟨fun q hq => ?_, [], ⟨.nil, .nil⟩, (List.append_nil _).symm⟩
        cases hq
      · rintro ⟨-, more, hmore, rfl⟩
        cases hmore.each
        rw [List.append_nil]
        rfl
  | cons p photos ih =>
      rw [List.foldlM_cons, except_bind_eq_ok]
      constructor
      · rintro ⟨next, hnext, h⟩
        obtain ⟨hp, m, hm, rfl⟩ := measurePhoto_eq_ok.mp hnext
        obtain ⟨hrest, more, hmore, rfl⟩ := ih.mp h
        simp only [List.map_append, List.map_cons, List.map_nil, List.mem_append,
          List.mem_singleton, not_or] at hrest
        refine ⟨List.forall_mem_cons.mpr ⟨hp, fun q hq => (hrest q hq).1⟩, (p, m) :: more,
          ⟨?_, .cons ⟨rfl, hm⟩ hmore.each⟩, List.append_assoc _ _ _⟩
        rw [List.map_cons, List.nodup_cons]
        refine ⟨fun hmem => ?_, hmore.nodup⟩
        obtain ⟨q, hq, hid⟩ := List.mem_map.mp hmem
        exact (hrest q hq).2 hid
      · rintro ⟨hall, more, hmore, rfl⟩
        obtain ⟨hp, hrest⟩ := List.forall_mem_cons.mp hall
        obtain ⟨hnodup, heach⟩ := hmore
        cases heach with
        | @cons _ m _ more hm heach =>
            obtain ⟨p', metric⟩ := m
            obtain ⟨rfl, hm⟩ := hm
            rw [List.map_cons, List.nodup_cons] at hnodup
            refine ⟨_, measurePhoto_eq_ok.mpr ⟨hp, metric, hm, rfl⟩, ih.mpr ⟨?_, more,
              ⟨hnodup.2, heach⟩, List.append_cons _ _ _⟩⟩
            intro q hq
            simp only [List.map_append, List.map_cons, List.map_nil, List.mem_append,
              List.mem_singleton, not_or]
            exact ⟨hrest q hq, fun hid => hnodup.1 (hid ▸ List.mem_map_of_mem hq)⟩

theorem Measures.photo_mem (h : Measures N metrics photos measured) (hm : m ∈ measured) :
    m.1 ∈ photos ∧ Filterable N metrics m.1 m.2 := by
  obtain ⟨p, hp, rfl, hfilterable⟩ := exists_left_of_forall₂ h.each hm
  exact ⟨hp, hfilterable⟩

theorem Measures.exists_measured (h : Measures N metrics photos measured) (hp : p ∈ photos) :
    ∃ m ∈ measured, m.1 = p := by
  obtain ⟨m, hm, heq, -⟩ := exists_right_of_forall₂ h.each hp
  exact ⟨m, hm, heq⟩

theorem Measures.ids (h : Measures N metrics photos measured) :
    measured.map (fun m => m.1.id) = photos.map PhotoState.id :=
  map_eq_of_forall₂ h.each fun _ _ hm => by rw [hm.1]

/-- A photo is measured once. -/
theorem Measures.eq_of_id (h : Measures N metrics photos measured) (hm : m ∈ measured)
    (hm' : m' ∈ measured) (hid : m.1.id = m'.1.id) : m = m' :=
  List.inj_on_of_nodup_map (f := fun m : Measured V => m.1.id) (h.ids ▸ h.nodup) hm hm' hid

/-! ### What is judged -/

/-- The group of a measured photo. -/
def groupOf (measured : List (Measured V)) (m : Measured V) : List (Measured V) :=
  measured.filter fun k => k.1.placeId = m.1.placeId

/-- A verdict is one of the group of its photo. -/
theorem mem_judgeAll : (m, v) ∈ judgeAll N limits measured ↔
    m ∈ measured ∧ (m, v) ∈ judgeGroup N limits (groupOf measured m) := by
  have hmem : ∀ {group : List (Measured V)}, (m, v) ∈ judgeGroup N limits group → m ∈ group :=
    fun h => mem_sortOn.mp (mem_of_mem_greedy h)
  rw [judgeAll, List.mem_flatMap]
  constructor
  · rintro ⟨g, hg, h⟩
    obtain ⟨hm, hkey⟩ := (mem_of_mem_groupOn hg).mp (hmem h)
    refine ⟨hm, ?_⟩
    rw [(mem_groupOn.mp hg).2] at h
    rwa [groupOf, hkey]
  · rintro ⟨hm, h⟩
    exact ⟨(m.1.placeId, groupOf measured m), mem_groupOn.mpr ⟨⟨m, hm, rfl⟩, rfl⟩, h⟩

variable (N limits) in
theorem Measures.exists_judged (hm : m ∈ measured) :
    ∃ v, (m, v) ∈ judgeAll N limits measured := by
  have hself : m ∈ groupOf measured m := List.mem_filter.mpr ⟨hm, decide_eq_true rfl⟩
  obtain ⟨v, hv⟩ := exists_verdict (blurry N limits) (nearDuplicate limits) []
    ((@mem_sortOn _ _ _ (fun m : Measured V => m.1.orderKey) _ _).mpr hself)
  exact ⟨v, mem_judgeAll.mpr ⟨hm, hv⟩⟩

/-- A photo has one verdict. -/
theorem Measures.judged_unique (h : Measures N metrics photos measured)
    (hv : (m, v) ∈ judgeAll N limits measured) (hw : (m', w) ∈ judgeAll N limits measured)
    (hid : m.1.id = m'.1.id) : m = m' ∧ v = w := by
  obtain ⟨hm, hv⟩ := mem_judgeAll.mp hv
  obtain ⟨hm', hw⟩ := mem_judgeAll.mp hw
  obtain rfl := h.eq_of_id hm hm' hid
  refine ⟨rfl, verdict_unique ?_ hv hw⟩
  have hnodup : measured.Nodup := .of_map _ (h.ids ▸ h.nodup)
  exact (sortOn_perm _ _).nodup_iff.mpr (hnodup.filter _)

/-- **Each photo gets the verdict of its group.** -/
theorem Measures.judged_eq (h : Measures N metrics photos measured)
    (hv : (m, v) ∈ judgeAll N limits measured) :
    judged (judgeAll N limits measured) m.1 = applyVerdict m.1 v := by
  unfold judged
  split
  · rename_i found hfound
    have hid : found.1.1.id = m.1.id := by simpa using List.find?_some hfound
    obtain ⟨-, heq⟩ := h.judged_unique (List.mem_of_find?_eq_some hfound) hv hid
    rw [heq]
  · rename_i hnone
    have hne := List.find?_eq_none.mp hnone _ hv
    simp at hne

/-- A photo is skipped exactly if it is blurry. -/
theorem blurry_iff (hv : (m, v) ∈ judgeAll N limits measured) :
    blurry N limits m = true ↔ v = .skipped :=
  skip_iff (mem_judgeAll.mp hv).2

/-- The group of a photo that is not blurry keeps one. -/
theorem exists_kept_of_sharp (hm : m ∈ measured) (hsharp : blurry N limits m = false) :
    ∃ k ∈ measured, k.1.placeId = m.1.placeId ∧ (k, .kept) ∈ judgeAll N limits measured := by
  have hself : m ∈ groupOf measured m := List.mem_filter.mpr ⟨hm, decide_eq_true rfl⟩
  obtain ⟨k, hk⟩ := exists_kept (nearDuplicate limits)
    ((@mem_sortOn _ _ _ (fun m : Measured V => m.1.orderKey) _ _).mpr hself) hsharp
  obtain ⟨hmem, hplace⟩ := List.mem_filter.mp (mem_sortOn.mp (mem_of_mem_greedy hk))
  rw [decide_eq_true_eq] at hplace
  refine ⟨k, hmem, hplace, mem_judgeAll.mpr ⟨hmem, ?_⟩⟩
  rwa [groupOf, hplace]

/-! ### The step as a whole -/

/-- What `filter_photos` returns. -/
structure Filtered (N : Numerics V) (limits : FilterLimits) (photos : List (PhotoState V))
    (measured : List (Measured V)) (result : List (PhotoState V) × List (Int × ℚ)) : Prop where
  photos_eq : result.1 = photos.map (judged (judgeAll N limits measured))
  variances_eq : result.2 = measured.map fun m => (m.1.id, N.value m.2.variance)

theorem filterPhotos_eq_ok {blurVarMin phashMaxDist : Threshold}
    {result : List (PhotoState V) × List (Int × ℚ)} :
    filterPhotos N photos metrics blurVarMin phashMaxDist = .ok result ↔
      ∃ limits measured, blurVarMin.finite? N = some limits.blurVarMin ∧ 0 ≤ limits.blurVarMin ∧
        phashMaxDist = .int limits.phashMaxDist ∧ 0 ≤ limits.phashMaxDist ∧
        limits.phashMaxDist ≤ 64 ∧ Measures N metrics photos measured ∧
        Filtered N limits photos measured result := by
  simp only [filterPhotos, except_bind_eq_ok, bounded_eq_ok, integer_eq_ok, foldlM_measurePhoto,
    decide_eq_true_eq, Bool.and_eq_true]
  constructor
  · rintro ⟨blur, ⟨hblur, hnonneg⟩, dist, ⟨hdist, hlow, hhigh⟩, measured,
      ⟨-, more, hmeasured, heq⟩, h⟩
    obtain rfl : measured = more := heq
    cases h
    exact ⟨⟨blur, dist⟩, measured, hblur, hnonneg, hdist, hlow, hhigh, hmeasured, rfl, rfl⟩
  · rintro ⟨limits, measured, hblur, hnonneg, hdist, hlow, hhigh, hmeasured, hphotos, hvariances⟩
    refine ⟨_, ⟨hblur, hnonneg⟩, _, ⟨hdist, hlow, hhigh⟩, measured,
      ⟨fun p _ h => (by cases h), measured, hmeasured, rfl⟩, ?_⟩
    exact congrArg Except.ok (Prod.ext hphotos.symm hvariances.symm)

end Yeodam.Pipeline
