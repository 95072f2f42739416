/-
CLOCK (`app/pipeline/steps/clock.py`): the recorded time of a photo is trusted, corrected by
whole days, or given up.

A photo with its own GPS and time is an anchor, and a device that took one keeps its times.
Every other named device is a target: its photos are paired with the anchors they resemble,
`pairOffsets`, and the day offset enough pairs agree on, `consistentDays`, is added to the
times of the device.

`Timed` says what the step does to a photo, `correctClocks_timed` that it does nothing else
and `correctClocks_succeeds` when it raises no error.
-/

import Mathlib.Data.List.MinMax
import Mathlib.Data.String.Basic
import Yeodam.Lib.Exact
import Yeodam.Pipeline.State

namespace Yeodam.Pipeline

open Yeodam.Lib Yeodam.Schemas

variable {V : Type} (N : Numerics V)

/-! ### Pairs -/

/-- `_vectors`. -/
def vectors (photos : List (PhotoState V)) : Except Raised (List V) := do
  let vs ← photos.mapM (unitVector N "CLOCK 대응 사진에 유효한 단위 임베딩이 필요함")
  raiseIf (vs.isEmpty || !oneDimension N vs) "CLOCK 대응 사진의 임베딩 차원이 다름"
  return vs

/-- `np.argmax(row)`: where the greatest entry first stands. -/
def argmax (row : List ℚ) : Nat := row.idxOf ((row.argmax id).getD 0)

/-- The row and the column of every entry of at least `minSim` that is the only greatest one
of its row and of its column. -/
def mutualPairs (similarities : List (List ℚ)) (minSim : ℚ) : List (Nat × Nat) :=
  similarities.zipIdx.filterMap fun (row, index) =>
    let best := argmax row
    let top := row.getD best 0
    if top < minSim ∨ row.count top ≠ 1 then none
    else
      let column := similarities.map fun row => row.getD best 0
      if argmax column ≠ index ∨ column.count (column.getD index 0) ≠ 1 then none
      else some (index, best)

/-- `photo.source.taken_at.astimezone(UTC)`. -/
def sourceUtc (photo : Option (PhotoState V)) : Except Raised Int :=
  match photo.bind fun p => p.source.takenAt with
  | some t => astimezoneUtc t
  | none => .error .other

/-- `_pair_offsets`, in seconds. -/
def pairOffsets (targets anchors : List (PhotoState V)) (minSim : ℚ) : Except Raised (List ℚ) := do
  let vs ← vectors N (targets ++ anchors)
  -- `np.argmax` of an empty row.
  if anchors.isEmpty then .error .other else
  let similarities := (vs.take targets.length).map fun v =>
    (vs.drop targets.length).map fun w => clip (N.dot v w)
  (mutualPairs similarities minSim).mapM fun (index, best) => do
    let targetTime ← sourceUtc targets[index]?
    let referenceTime ← sourceUtc anchors[best]?
    return ((referenceTime - targetTime : Int) : ℚ) / 1000000

/-- The day offset some seconds speak for; half a day is as near to two of them. -/
def votedDays (seconds : ℚ) : Option Int :=
  let days := roundHalfEven (seconds / secondsPerDay)
  if |seconds - days * secondsPerDay| = secondsPerDay / 2 then none else some days

/-- `_consistent_days`. -/
def consistentDays (offsets : List ℚ) (minPairs : Int) (tolerance : ℚ) : Option (Int × Nat) :=
  let votes := offsets.filterMap fun seconds => (votedDays seconds).map fun days => (days, seconds)
  let candidates := (groupOn Prod.fst votes).filterMap fun (days, members) =>
    let values := members.map Prod.snd
    let center := median values
    let count := values.countP fun value => |value - center| ≤ tolerance
    if minPairs ≤ count then some (days, count) else none
  match candidates with
  | [candidate] => some candidate
  | _ => none

/-! ### Devices -/

/-- Photos with GPS and a time of their own. -/
def clockAnchors (photos : List (PhotoState V)) : List (PhotoState V) :=
  byId (photos.filter fun p => p.source.hasGps && p.source.takenAt.isSome)

def referenceDevices (anchors : List (PhotoState V)) : List String :=
  anchors.filterMap fun p => p.source.deviceModel.filter fun device => device ≠ ""

/-- The recorded time stands. -/
def PhotoSource.trusted (reference : List String) (s : PhotoSource) : Bool :=
  s.hasGps || s.deviceModel.any fun device => device ∈ reference

/-- The device a recorded time is to be corrected for. -/
def PhotoSource.targetDevice (reference : List String) (s : PhotoSource) : Option String :=
  if s.takenAt.isNone || s.trusted reference then none
  else s.deviceModel.filter fun device => device ≠ ""

/-- What is known of a time before the devices are compared. -/
def judgeTime (reference : List String) (p : PhotoState V) : PhotoState V :=
  if p.source.takenAt.isSome && p.source.trusted reference then
    { p with takenAt := p.source.takenAt, timeStatus := .original }
  else { p with takenAt := none, timeStatus := .unknown }

/-- The photos of each target device, the devices in order. -/
def clockTargets (photos : List (PhotoState V)) : List (String × List (PhotoState V)) :=
  let reference := referenceDevices (clockAnchors photos)
  let named := photos.filterMap fun p =>
    (p.source.targetDevice reference).map fun device => (device, p)
  sortOn Prod.fst ((groupOn Prod.fst named).map fun g => (g.1, byId (g.2.map Prod.snd)))

/-- The thresholds of the step. -/
structure ClockLimits where
  pairMinSim : ℚ
  minPairs : Int
  offsetTolerance : ℚ

/-- The days to add to the times of a device, and the pairs that say so. -/
def estimateDays (limits : ClockLimits) (anchors group : List (PhotoState V)) :
    Except Raised (Option (Int × Nat)) := do
  let offsets ← pairOffsets N group anchors limits.pairMinSim
  return consistentDays offsets limits.minPairs limits.offsetTolerance

/-- `t + timedelta(days=days)`. -/
def addDays (t : AwareTime) (days : Int) : AwareTime :=
  { t with wall := t.wall + days * microsPerDay }

def correctTime (days : Int) (p : PhotoState V) : Except Raised (PhotoState V) :=
  match p.source.takenAt with
  | none => .error .other
  | some t =>
      if representable (addDays t days).wall then
        .ok { p with
          takenAt := some (addDays t days)
          timeStatus := if days = 0 then .original else .corrected }
      else fail "CLOCK 보정 결과가 표현 가능한 날짜 범위를 벗어남"

/-- One round of the loop over the target devices. -/
def correctDevice (limits : ClockLimits) (reference : List String) (anchors : List (PhotoState V))
    (state : List (PhotoState V) × List ClockOffset) (target : String × List (PhotoState V)) :
    Except Raised (List (PhotoState V) × List ClockOffset) := do
  match ← estimateDays N limits anchors target.2 with
  | none => return state
  | some (days, matchedPairs) =>
      let photos ← state.1.mapM fun p =>
        if p.source.targetDevice reference = some target.1 then correctTime days p else .ok p
      return (photos, state.2 ++ [⟨target.1, days, matchedPairs⟩])

/-- `correct_clocks`, its thresholds checked. -/
def correctClocksWithin (limits : ClockLimits) (photos : List (PhotoState V)) :
    Except Raised (List (PhotoState V) × List ClockOffset) :=
  let anchors := clockAnchors photos
  let reference := referenceDevices anchors
  let judged := photos.map (judgeTime reference)
  if anchors.isEmpty then .ok (judged, [])
  else (clockTargets photos).foldlM (correctDevice N limits reference anchors) (judged, [])

/-- The threshold checks of `correct_clocks`. -/
def clockLimits (pairMinSim minPairs offsetTolerance : Threshold) : Except Raised ClockLimits := do
  let pairMinSim ← bounded N (fun q => -1 ≤ q && q ≤ 1)
    "clock_pair_min_sim은 -1 이상 1 이하의 유한값이어야 함" pairMinSim
  let minPairs ← integer (fun n => 1 ≤ n) "clock_min_pairs는 1 이상의 정수여야 함" minPairs
  let offsetTolerance ← bounded N (fun q => 0 ≤ q && q < secondsPerDay / 2)
    "CLOCK 허용 오차는 0 이상 반일 미만의 초 단위 값이어야 함" offsetTolerance
  return ⟨pairMinSim, minPairs, offsetTolerance⟩

/-- `correct_clocks`. -/
def correctClocks (photos : List (PhotoState V)) (pairMinSim minPairs offsetTolerance : Threshold) :
    Except Raised (List (PhotoState V) × List ClockOffset) := do
  let limits ← clockLimits N pairMinSim minPairs offsetTolerance
  correctClocksWithin N limits photos

/-! ### What the step does to a photo -/

/-- `q` is the photo `p` with a time that has been judged. -/
structure Timed (p q : PhotoState V) : Prop where
  same : q = { p with takenAt := q.takenAt, timeStatus := q.timeStatus }
  judged : q.timeStatus ≠ .pending
  unknown : q.timeStatus = .unknown ↔ q.takenAt = none

variable {N} {limits : ClockLimits} {photos : List (PhotoState V)} {p q : PhotoState V} {days : Int}
  {reference : List String} {anchors : List (PhotoState V)}

theorem Timed.source (h : Timed p q) : q.source = p.source := by
  rw [h.same]

theorem timed_judgeTime (reference : List String) (p : PhotoState V) :
    Timed p (judgeTime reference p) := by
  unfold judgeTime
  split
  · rename_i h
    rw [Bool.and_eq_true] at h
    refine ⟨rfl, nofun, ?_⟩
    constructor
    · intro hstatus
      cases hstatus
    · intro htime
      have hsome := h.1
      rw [show p.source.takenAt = none from htime] at hsome
      cases hsome
  · exact ⟨rfl, nofun, fun _ => rfl, fun _ => rfl⟩

theorem timed_correctTime (h : correctTime days p = .ok q) : Timed p q := by
  unfold correctTime at h
  split at h
  · cases h
  · split at h
    · cases h
      refine ⟨rfl, ?_, ?_⟩
      · dsimp only
        split <;> exact nofun
      · constructor
        · dsimp only
          split <;> exact nofun
        · intro hnone
          cases hnone
    · cases h

theorem Timed.trans {r : PhotoState V} (h : Timed p q) (h' : Timed q r) : Timed p r := by
  refine ⟨?_, h'.judged, h'.unknown⟩
  rw [h'.same, h.same]

/-- One round leaves every photo, or corrects its time. -/
theorem correctDevice_timed {state state' : List (PhotoState V) × List ClockOffset}
    {target : String × List (PhotoState V)} (hstate : List.Forall₂ Timed photos state.1)
    (h : correctDevice N limits reference anchors state target = .ok state') :
    List.Forall₂ Timed photos state'.1 := by
  rw [correctDevice, except_bind_eq_ok] at h
  obtain ⟨estimate, -, h⟩ := h
  cases estimate with
  | none =>
      cases h
      exact hstate
  | some estimate =>
      simp only [except_bind_eq_ok] at h
      obtain ⟨photos', hphotos, h⟩ := h
      cases h
      refine forall₂_trans ?_ hstate (mapM_eq_ok.mp hphotos)
      intro p q r hpq hqr
      split at hqr
      · exact hpq.trans (timed_correctTime hqr)
      · cases hqr
        exact hpq

/-- **CLOCK judges the time of every photo and changes nothing else of it.** -/
theorem correctClocksWithin_timed {result : List (PhotoState V) × List ClockOffset}
    (h : correctClocksWithin N limits photos = .ok result) :
    List.Forall₂ Timed photos result.1 := by
  have hjudged : List.Forall₂ Timed photos
      (photos.map (judgeTime (referenceDevices (clockAnchors photos)))) :=
    forall₂_map _ fun p _ => timed_judgeTime _ p
  unfold correctClocksWithin at h
  dsimp only at h
  split at h
  · cases h
    exact hjudged
  · exact foldlM_preserves (P := fun state => List.Forall₂ Timed photos state.1)
      (fun state hstate target _ state' hstep => correctDevice_timed hstate hstep) hjudged h

theorem correctClocks_timed {pairMinSim minPairs offsetTolerance : Threshold}
    {result : List (PhotoState V) × List ClockOffset}
    (h : correctClocks N photos pairMinSim minPairs offsetTolerance = .ok result) :
    List.Forall₂ Timed photos result.1 := by
  rw [correctClocks, except_bind_eq_ok] at h
  obtain ⟨limits, -, h⟩ := h
  exact correctClocksWithin_timed h

/-! ### When the step raises nothing -/

theorem argmax_lt {row : List ℚ} (h : row ≠ []) : argmax row < row.length := by
  cases hmax : row.argmax id with
  | none => exact absurd (List.argmax_eq_none.mp hmax) h
  | some top =>
      rw [argmax, hmax]
      exact List.idxOf_lt_length_of_mem (List.argmax_mem hmax)

/-- A pair names a row and the place of its greatest entry. -/
theorem mem_mutualPairs {similarities : List (List ℚ)} {minSim : ℚ} {index best : Nat}
    (h : (index, best) ∈ mutualPairs similarities minSim) :
    ∃ row, similarities[index]? = some row ∧ best = argmax row := by
  obtain ⟨⟨row, i⟩, hrow, h⟩ := List.mem_filterMap.mp h
  have hget := List.mem_zipIdx_iff_getElem?.mp hrow
  dsimp only at h
  split at h
  · cases h
  · split at h
    · cases h
    · cases h
      exact ⟨row, hget, rfl⟩

theorem sourceUtc_succeeds {t : AwareTime} (ht : p.source.takenAt = some t) (h : AwayFromEnds t) :
    sourceUtc (some p) = .ok t.instant := by
  unfold sourceUtc
  simp only [Option.bind_some, ht]
  exact h.astimezoneUtc

/-- Every photo has a unit embedding, all of one dimension, and a time away from the ends. -/
def Comparable (N : Numerics V) (d : Nat) (photos : List (PhotoState V)) : Prop :=
  ∀ p ∈ photos, p.Embedded N d ∧ ∃ t, p.source.takenAt = some t ∧ AwayFromEnds t

theorem pairOffsets_succeeds {d : Nat} {targets : List (PhotoState V)} (minSim : ℚ)
    (htargets : Comparable N d targets) (hanchors : Comparable N d anchors) (hne : anchors ≠ []) :
    ∃ offsets, pairOffsets N targets anchors minSim = .ok offsets := by
  have hembedded : ∀ p ∈ targets ++ anchors, p.Embedded N d := by
    intro p hp
    rcases List.mem_append.mp hp with hp | hp
    · exact (htargets p hp).1
    · exact (hanchors p hp).1
  obtain ⟨vs, hvs, hdim⟩ := unitVectors_succeed
    (fun _ => "CLOCK 대응 사진에 유효한 단위 임베딩이 필요함") hembedded
  have hlen : vs.length = targets.length + anchors.length := by
    rw [← (mapM_eq_ok.mp hvs).length_eq, List.length_append]
  have hvectors : vectors N (targets ++ anchors) = .ok vs := by
    rw [vectors, except_bind_eq_ok]
    have hsome : vs.isEmpty = false := by
      have hpos := List.length_pos_of_ne_nil hne
      rw [List.isEmpty_eq_false_iff, ← List.length_pos_iff, hlen]
      omega
    refine ⟨vs, hvs, ?_⟩
    rw [hdim, hsome]
    rfl
  -- Every pair is within the targets and the anchors, whose times are far from the ends.
  have hutc : ∀ {photos : List (PhotoState V)} {i : Nat}, Comparable N d photos →
      i < photos.length → ∃ utc, sourceUtc photos[i]? = .ok utc := by
    intro photos i hphotos hi
    obtain ⟨-, t, ht, haway⟩ := hphotos _ (List.getElem_mem hi)
    refine ⟨t.instant, ?_⟩
    rw [List.getElem?_eq_getElem hi]
    exact sourceUtc_succeeds ht haway
  let similarities := (vs.take targets.length).map fun v =>
    (vs.drop targets.length).map fun w => clip (N.dot v w)
  have hpairs : ∀ pair ∈ mutualPairs similarities minSim, ∃ seconds,
      (do
        let targetTime ← sourceUtc targets[pair.1]?
        let referenceTime ← sourceUtc anchors[pair.2]?
        return ((referenceTime - targetTime : Int) : ℚ) / 1000000 : Except Raised ℚ) =
        .ok seconds := by
    rintro ⟨index, best⟩ hpair
    obtain ⟨row, hrow, rfl⟩ := mem_mutualPairs hpair
    obtain ⟨hindex, -⟩ := List.getElem?_eq_some_iff.mp hrow
    obtain ⟨v, -, rfl⟩ := List.mem_map.mp (List.mem_of_getElem? hrow)
    have hbest : argmax ((vs.drop targets.length).map fun w => clip (N.dot v w)) <
        anchors.length := by
      refine (argmax_lt ?_).trans_le ?_
      · rw [ne_eq, List.map_eq_nil_iff, List.drop_eq_nil_iff, hlen]
        have hpos := List.length_pos_of_ne_nil hne
        omega
      · rw [List.length_map, List.length_drop, hlen]
        omega
    have htarget : index < targets.length := by
      apply hindex.trans_le
      rw [List.length_map, List.length_take]
      exact min_le_left _ _
    obtain ⟨targetTime, htime⟩ := hutc htargets htarget
    obtain ⟨referenceTime, hreference⟩ := hutc hanchors hbest
    refine ⟨((referenceTime - targetTime : Int) : ℚ) / 1000000, ?_⟩
    rw [except_bind_eq_ok]
    refine ⟨targetTime, htime, ?_⟩
    rw [except_bind_eq_ok]
    exact ⟨referenceTime, hreference, rfl⟩
  obtain ⟨offsets, hoffsets⟩ := mapM_succeeds hpairs
  refine ⟨offsets, ?_⟩
  rw [pairOffsets, except_bind_eq_ok]
  refine ⟨vs, hvectors, ?_⟩
  rw [if_neg (by rwa [List.isEmpty_iff])]
  exact hoffsets

/-- The photos of a target device. -/
theorem mem_clockTargets {target : String × List (PhotoState V)}
    (h : target ∈ clockTargets photos) :
    p ∈ target.2 ↔ p ∈ photos ∧
      p.source.targetDevice (referenceDevices (clockAnchors photos)) = some target.1 := by
  rw [clockTargets, mem_sortOn] at h
  obtain ⟨g, hg, rfl⟩ := List.mem_map.mp h
  dsimp only
  rw [mem_byId, List.mem_map]
  constructor
  · rintro ⟨⟨device, q⟩, hq, rfl⟩
    obtain ⟨hnamed, rfl⟩ := (mem_of_mem_groupOn hg).mp hq
    obtain ⟨r, hr, hdevice⟩ := List.mem_filterMap.mp hnamed
    obtain ⟨_, hdevice, heq⟩ := Option.map_eq_some_iff.mp hdevice
    cases heq
    exact ⟨hr, hdevice⟩
  · rintro ⟨hp, hdevice⟩
    refine ⟨(g.1, p), (mem_of_mem_groupOn hg).mpr ⟨?_, rfl⟩, rfl⟩
    refine List.mem_filterMap.mpr ⟨p, hp, ?_⟩
    rw [hdevice]
    rfl

theorem takenAt_of_targetDevice {device : String}
    (h : p.source.targetDevice reference = some device) : ∃ t, p.source.takenAt = some t := by
  unfold PhotoSource.targetDevice at h
  split at h
  · cases h
  · rename_i hguard
    rw [Bool.or_eq_true, not_or] at hguard
    cases htime : p.source.takenAt with
    | none =>
        rw [htime] at hguard
        exact absurd rfl hguard.1
    | some t => exact ⟨t, rfl⟩

/-- Every correction CLOCK would make leaves the times of its device away from the ends. -/
def Correctable (N : Numerics V) (limits : ClockLimits) (photos : List (PhotoState V)) : Prop :=
  ∀ target ∈ clockTargets photos, ∀ days matchedPairs,
    estimateDays N limits (clockAnchors photos) target.2 = .ok (some (days, matchedPairs)) →
      ∀ p ∈ target.2, ∀ t, p.source.takenAt = some t → AwayFromEnds (addDays t days)

theorem correctTime_succeeds {t : AwareTime} (ht : p.source.takenAt = some t)
    (h : AwayFromEnds (addDays t days)) :
    ∃ q, correctTime days p = .ok q ∧ q.takenAt = some (addDays t days) := by
  have hrep : representable (addDays t days).wall = true := by
    obtain ⟨hmin, hmax, -⟩ := h
    rw [representable_iff]
    simp only [microsPerDay, secondsPerDay] at hmin hmax
    constructor <;> omega
  unfold correctTime
  simp only [ht, hrep, if_true]
  exact ⟨_, rfl, rfl⟩

/-- The photos that have a source time are comparable with each other. -/
theorem comparable_of_subset {d : Nat} {group : List (PhotoState V)}
    (hembedded : ∀ p ∈ photos, p.Embedded N d)
    (haway : ∀ p ∈ photos, ∀ t, p.source.takenAt = some t → AwayFromEnds t)
    (hgroup : ∀ p ∈ group, p ∈ photos ∧ ∃ t, p.source.takenAt = some t) :
    Comparable N d group := by
  intro p hp
  obtain ⟨hp, t, ht⟩ := hgroup p hp
  exact ⟨hembedded p hp, t, ht, haway p hp t ht⟩

theorem comparable_clockAnchors {d : Nat} (hembedded : ∀ p ∈ photos, p.Embedded N d)
    (haway : ∀ p ∈ photos, ∀ t, p.source.takenAt = some t → AwayFromEnds t) :
    Comparable N d (clockAnchors photos) := by
  apply comparable_of_subset hembedded haway
  intro p hp
  obtain ⟨hp, hcond⟩ := List.mem_filter.mp (mem_byId.mp hp)
  exact ⟨hp, Option.isSome_iff_exists.mp (Bool.and_eq_true_iff.mp hcond).2⟩

theorem comparable_target {d : Nat} {target : String × List (PhotoState V)}
    (hembedded : ∀ p ∈ photos, p.Embedded N d)
    (haway : ∀ p ∈ photos, ∀ t, p.source.takenAt = some t → AwayFromEnds t)
    (htarget : target ∈ clockTargets photos) : Comparable N d target.2 := by
  apply comparable_of_subset hembedded haway
  intro p hp
  obtain ⟨hp, hdevice⟩ := (mem_clockTargets htarget).mp hp
  exact ⟨hp, takenAt_of_targetDevice hdevice⟩

/-- One round succeeds where the device can be estimated and corrected. -/
theorem correctDevice_succeeds {state : List (PhotoState V) × List ClockOffset}
    {target : String × List (PhotoState V)} {estimate : Option (Int × Nat)}
    (hstate : List.Forall₂ Timed photos state.1) (htimes : TimesAway state.1)
    (hestimate : estimateDays N limits anchors target.2 = .ok estimate)
    (haway : ∀ days matchedPairs, estimate = some (days, matchedPairs) → ∀ p ∈ photos,
      p.source.targetDevice reference = some target.1 → ∀ t, p.source.takenAt = some t →
        AwayFromEnds (addDays t days)) :
    ∃ state', correctDevice N limits reference anchors state target = .ok state' ∧
      TimesAway state'.1 := by
  cases estimate with
  | none =>
      refine ⟨state, ?_, htimes⟩
      rw [correctDevice, except_bind_eq_ok]
      exact ⟨none, hestimate, rfl⟩
  | some estimate =>
      obtain ⟨days, matchedPairs⟩ := estimate
      -- A photo of the device keeps its source, so its corrected time is one of `haway`.
      have hphoto : ∀ q ∈ state.1, ∃ r,
          (if q.source.targetDevice reference = some target.1 then correctTime days q else .ok q) =
            .ok r ∧ ∀ t, r.takenAt = some t → AwayFromEnds t := by
        intro q hq
        obtain ⟨p, hp, htimed⟩ := exists_left_of_forall₂ hstate hq
        split
        · rename_i hdevice
          rw [htimed.source] at hdevice
          obtain ⟨t, ht⟩ := takenAt_of_targetDevice hdevice
          have haway' := haway days matchedPairs rfl p hp hdevice t ht
          rw [← htimed.source] at ht
          obtain ⟨r, hr, htime⟩ := correctTime_succeeds ht haway'
          refine ⟨r, hr, fun t' ht' => ?_⟩
          rw [htime, Option.some.injEq] at ht'
          exact ht' ▸ haway'
        · exact ⟨q, rfl, htimes q hq⟩
      obtain ⟨photos', hphotos'⟩ := mapM_succeeds fun q hq => (hphoto q hq).imp fun _ h => h.1
      refine ⟨(photos', state.2 ++ [⟨target.1, days, matchedPairs⟩]), ?_, ?_⟩
      · rw [correctDevice, except_bind_eq_ok]
        refine ⟨some (days, matchedPairs), hestimate, ?_⟩
        dsimp only
        rw [except_bind_eq_ok]
        exact ⟨photos', hphotos', rfl⟩
      · intro r hr
        obtain ⟨q, hq, hqr⟩ := exists_left_of_forall₂ (mapM_eq_ok.mp hphotos') hr
        obtain ⟨r', hr', htime⟩ := hphoto q hq
        rw [hqr, Except.ok.injEq] at hr'
        exact hr' ▸ htime

/-- **CLOCK raises nothing** where embeddings and recorded times are in order and no correction
comes near the ends; the times it leaves are away from the ends too. -/
theorem correctClocksWithin_succeeds {d : Nat} (hembedded : ∀ p ∈ photos, p.Embedded N d)
    (haway : ∀ p ∈ photos, ∀ t, p.source.takenAt = some t → AwayFromEnds t)
    (hcorrect : Correctable N limits photos) :
    ∃ result, correctClocksWithin N limits photos = .ok result ∧ TimesAway result.1 := by
  have hjudged : TimesAway (photos.map (judgeTime (referenceDevices (clockAnchors photos)))) := by
    intro q hq t ht
    obtain ⟨p, hp, rfl⟩ := List.mem_map.mp hq
    unfold judgeTime at ht
    split at ht
    · exact haway p hp t ht
    · cases ht
  unfold correctClocksWithin
  dsimp only
  split
  · exact ⟨_, rfl, hjudged⟩
  rename_i hne
  rw [List.isEmpty_iff] at hne
  have hanchors := comparable_clockAnchors hembedded haway
  let P := fun state : List (PhotoState V) × List ClockOffset =>
    List.Forall₂ Timed photos state.1 ∧ TimesAway state.1
  have hround : ∀ state, P state → ∀ target ∈ clockTargets photos, ∃ state',
      correctDevice N limits (referenceDevices (clockAnchors photos)) (clockAnchors photos) state
        target = .ok state' ∧ P state' := by
    rintro state ⟨hstate, htimes⟩ target htarget
    obtain ⟨offsets, hoffsets⟩ := pairOffsets_succeeds limits.pairMinSim
      (comparable_target hembedded haway htarget) hanchors hne
    have hestimate : estimateDays N limits (clockAnchors photos) target.2 =
        .ok (consistentDays offsets limits.minPairs limits.offsetTolerance) := by
      rw [estimateDays, except_bind_eq_ok]
      exact ⟨offsets, hoffsets, rfl⟩
    obtain ⟨state', hstate', htimes'⟩ := correctDevice_succeeds hstate htimes hestimate
      fun days matchedPairs heq p hp hdevice => hcorrect target htarget days matchedPairs
        (heq ▸ hestimate) p ((mem_clockTargets htarget).mpr ⟨hp, hdevice⟩)
    exact ⟨state', hstate', correctDevice_timed hstate hstate', htimes'⟩
  have hstart : P (photos.map (judgeTime (referenceDevices (clockAnchors photos))), []) :=
    ⟨forall₂_map _ fun p _ => timed_judgeTime _ p, hjudged⟩
  obtain ⟨result, hresult, -, htimes⟩ := foldlM_succeeds hround hstart
  exact ⟨result, hresult, htimes⟩

end Yeodam.Pipeline
