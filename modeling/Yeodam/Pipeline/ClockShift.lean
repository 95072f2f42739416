/-
CLOCK and a device whose clock is off by more or fewer whole days.

To add days to every recorded time of a target device shifts each of its differences from the
anchors by as many days, and with them the day offset that is found: half days are thrown out
before parity could decide, and the median moves along. So the report of the device shifts, the
other reports stay, and every photo is given the time it was given before
(`correctClocks_shift`).
-/

import Yeodam.Lib.Permuted
import Yeodam.Pipeline.Clock

namespace Yeodam.Pipeline

open Yeodam.Lib Yeodam.Schemas

variable {V : Type} {N : Numerics V} {limits : ClockLimits} {photos : List (PhotoState V)}
  {p q r : PhotoState V} {device : String} {k days : Int} {reference : List String}
  {anchors : List (PhotoState V)}

/-! ### Shifting a clock -/

def shiftSource (device : String) (k : Int) (s : PhotoSource) : PhotoSource :=
  if s.deviceModel = some device then { s with takenAt := s.takenAt.map fun t => addDays t k }
  else s

/-- The photo, had the clock of the device been `k` days ahead. -/
def shiftClock (device : String) (k : Int) (p : PhotoState V) : PhotoState V :=
  { p with source := shiftSource device k p.source }

/-- The report on a device, had its clock been `k` days ahead. -/
def shiftOffset (device : String) (k : Int) (o : ClockOffset) : ClockOffset :=
  if o.deviceModel = device then { o with days := o.days - k } else o

/-- No photo of the device has both GPS and a time. -/
def Untrusted (device : String) (photos : List (PhotoState V)) : Prop :=
  ∀ p ∈ photos, p.source.deviceModel = some device →
    (p.source.hasGps && p.source.takenAt.isSome) = false

/-- The times of the device can be shifted. -/
def Shiftable (device : String) (k : Int) (photos : List (PhotoState V)) : Prop :=
  ∀ p ∈ photos, p.source.deviceModel = some device → ∀ t, p.source.takenAt = some t →
    representable (addDays t k).instant = true

/-- The same photo with the same time, its clock shifted. -/
structure SameTime (device : String) (k : Int) (p q : PhotoState V) : Prop where
  source : q.source = shiftSource device k p.source
  takenAt : q.takenAt = p.takenAt

/-! ### The day offset -/

theorem votedDays_eq (seconds : ℚ) : votedDays seconds =
    if seconds / secondsPerDay - ⌊seconds / (secondsPerDay : ℚ)⌋ = 1 / 2 then none
    else some (roundHalfEven (seconds / secondsPerDay)) := by
  have hpos : (0 : ℚ) < secondsPerDay := by norm_num [secondsPerDay]
  have hscale : seconds - roundHalfEven (seconds / secondsPerDay) * secondsPerDay =
      (seconds / secondsPerDay - roundHalfEven (seconds / secondsPerDay)) * secondsPerDay := by
    rw [sub_mul, div_mul_cancel₀ _ (ne_of_gt hpos)]
  have hhalf : |seconds - roundHalfEven (seconds / secondsPerDay) * secondsPerDay| =
      (secondsPerDay : ℚ) / 2 ↔
        seconds / secondsPerDay - ⌊seconds / (secondsPerDay : ℚ)⌋ = 1 / 2 := by
    rw [hscale, abs_mul, abs_of_pos hpos, ← abs_sub_roundHalfEven_eq_half]
    constructor
    · intro h
      exact mul_right_cancel₀ (ne_of_gt hpos) (h.trans (by ring))
    · intro h
      rw [h]
      ring
  unfold votedDays
  dsimp only
  by_cases h : seconds / secondsPerDay - ⌊seconds / (secondsPerDay : ℚ)⌋ = 1 / 2
  · rw [if_pos (hhalf.mpr h), if_pos h]
  · rw [if_neg fun hvote => h (hhalf.mp hvote), if_neg h]

/-- **A shift by days shifts what is voted for**, and a half day stays one. -/
theorem votedDays_sub (seconds : ℚ) (k : Int) :
    votedDays (seconds - k * secondsPerDay) = (votedDays seconds).map fun days => days - k := by
  have hne : (secondsPerDay : ℚ) ≠ 0 := by norm_num [secondsPerDay]
  have hdiv : (seconds - k * secondsPerDay) / secondsPerDay = seconds / secondsPerDay - k := by
    rw [sub_div, mul_div_assoc, div_self hne, mul_one]
  have hrest : seconds / secondsPerDay - (k : ℚ) - ⌊seconds / secondsPerDay - (k : ℚ)⌋ =
      seconds / secondsPerDay - ⌊seconds / (secondsPerDay : ℚ)⌋ := by
    rw [Int.floor_sub_intCast]
    push_cast
    ring
  rw [votedDays_eq, votedDays_eq, hdiv, hrest]
  by_cases htie : seconds / secondsPerDay - ⌊seconds / (secondsPerDay : ℚ)⌋ = 1 / 2
  · rw [if_pos htie, if_pos htie]
    rfl
  · rw [if_neg htie, if_neg htie, roundHalfEven_sub_int k htie]
    rfl

/-- A day offset with the differences that speak for it, if they are enough. -/
def dayCandidate (minPairs : Int) (tolerance : ℚ) (group : Int × List (Int × ℚ)) :
    Option (Int × Nat) :=
  let values := group.2.map Prod.snd
  let count := values.countP fun value => |value - median values| ≤ tolerance
  if minPairs ≤ count then some (group.1, count) else none

theorem consistentDays_eq (offsets : List ℚ) (minPairs : Int) (tolerance : ℚ) :
    consistentDays offsets minPairs tolerance =
      match (groupOn Prod.fst (offsets.filterMap fun seconds =>
          (votedDays seconds).map fun days => (days, seconds))).filterMap
        (dayCandidate minPairs tolerance) with
      | [candidate] => some candidate
      | _ => none := rfl

/-- A vote, shifted. -/
def shiftVote (k : Int) (vote : Int × ℚ) : Int × ℚ := (vote.1 - k, vote.2 - k * secondsPerDay)

theorem dayCandidate_shift {minPairs : Int} {tolerance : ℚ} {group : Int × List (Int × ℚ)}
    (hne : group.2 ≠ []) :
    dayCandidate minPairs tolerance (group.1 - k, group.2.map (shiftVote k)) =
      (dayCandidate minPairs tolerance group).map fun estimate => (estimate.1 - k, estimate.2) := by
  have hvalues : (group.2.map (shiftVote k)).map Prod.snd =
      (group.2.map Prod.snd).map fun value => value - k * (secondsPerDay : ℚ) := by
    rw [List.map_map, List.map_map]
    rfl
  have hsome : group.2.map Prod.snd ≠ [] := fun h => hne (List.map_eq_nil_iff.mp h)
  have hcenter := median_map_sub hsome (k * secondsPerDay)
  unfold dayCandidate
  dsimp only
  rw [hvalues, hcenter, List.countP_map]
  have hcount : (group.2.map Prod.snd).countP ((fun value => decide (|value -
        (median (group.2.map Prod.snd) - k * secondsPerDay)| ≤ tolerance)) ∘
          fun value => value - k * (secondsPerDay : ℚ)) =
      (group.2.map Prod.snd).countP fun value =>
        |value - median (group.2.map Prod.snd)| ≤ tolerance := by
    apply List.countP_congr
    intro value _
    rw [Function.comp_apply, sub_sub_sub_cancel_right]
  rw [hcount]
  split <;> rfl

/-- **The day offset shifts** with the differences, and as many pairs say so. -/
theorem consistentDays_sub (offsets : List ℚ) (k : Int) (minPairs : Int) (tolerance : ℚ) :
    consistentDays (offsets.map fun seconds => seconds - k * secondsPerDay) minPairs tolerance =
      (consistentDays offsets minPairs tolerance).map fun estimate =>
        (estimate.1 - k, estimate.2) := by
  have hvotes : (offsets.map fun seconds => seconds - k * (secondsPerDay : ℚ)).filterMap
        (fun seconds => (votedDays seconds).map fun days => (days, seconds)) =
      (offsets.filterMap fun seconds => (votedDays seconds).map fun days => (days, seconds)).map
        (shiftVote k) := by
    rw [List.filterMap_map, List.map_filterMap]
    apply List.filterMap_congr
    intro seconds _
    rw [Function.comp_apply, votedDays_sub, Option.map_map, Option.map_map]
    rfl
  have hinj : Function.Injective fun days : Int => days - k := sub_left_injective
  have hgroups : ∀ votes : List (Int × ℚ), groupOn Prod.fst (votes.map (shiftVote k)) =
      (groupOn Prod.fst votes).map fun group => (group.1 - k, group.2.map (shiftVote k)) :=
    fun votes => groupOn_map Prod.fst (shiftVote k) hinj (fun _ => rfl) votes
  rw [consistentDays_eq, consistentDays_eq, hvotes, hgroups, List.filterMap_map]
  have hshift : ∀ groups : List (Int × List (Int × ℚ)), (∀ group ∈ groups, group.2 ≠ []) →
      groups.filterMap (dayCandidate minPairs tolerance ∘ fun group =>
        (group.1 - k, group.2.map (shiftVote k))) =
      (groups.filterMap (dayCandidate minPairs tolerance)).map fun estimate =>
        (estimate.1 - k, estimate.2) := by
    intro groups hgroups
    rw [List.map_filterMap]
    exact List.filterMap_congr fun group hgroup => dayCandidate_shift (hgroups group hgroup)
  rw [hshift _ fun group => groupOn_ne_nil]
  generalize (groupOn Prod.fst _).filterMap (dayCandidate minPairs tolerance) = candidates
  match candidates with
  | [] => rfl
  | [_] => rfl
  | _ :: _ :: _ => rfl

/-! ### The pairs -/

@[simp] theorem hasGps_shiftSource (s : PhotoSource) :
    (shiftSource device k s).hasGps = s.hasGps := by
  unfold shiftSource
  split <;> rfl

@[simp] theorem deviceModel_shiftSource (s : PhotoSource) :
    (shiftSource device k s).deviceModel = s.deviceModel := by
  unfold shiftSource
  split <;> rfl

@[simp] theorem isSome_takenAt_shiftSource (s : PhotoSource) :
    (shiftSource device k s).takenAt.isSome = s.takenAt.isSome := by
  unfold shiftSource
  split
  · exact Option.isSome_map
  · rfl

@[simp] theorem id_shiftClock (p : PhotoState V) : (shiftClock device k p).id = p.id := by
  unfold shiftClock shiftSource PhotoState.id
  split <;> rfl

@[simp] theorem targetDevice_shiftSource (s : PhotoSource) :
    (shiftSource device k s).targetDevice reference = s.targetDevice reference := by
  have hnone : (shiftSource device k s).takenAt.isNone = s.takenAt.isNone := by
    rw [← Option.not_isSome, ← Option.not_isSome, isSome_takenAt_shiftSource]
  unfold PhotoSource.targetDevice PhotoSource.trusted
  rw [hnone, hasGps_shiftSource, deviceModel_shiftSource]

theorem shiftSource_of_ne {s : PhotoSource} (h : s.deviceModel ≠ some device) :
    shiftSource device k s = s :=
  if_neg h

theorem shiftClock_of_ne (h : p.source.deviceModel ≠ some device) : shiftClock device k p = p := by
  unfold shiftClock
  rw [shiftSource_of_ne h]

/-- The time of a photo of the device is shifted. -/
theorem sourceUtc_shiftClock {t : Int} (hdevice : p.source.deviceModel = some device)
    (hshift : ∀ t, p.source.takenAt = some t → representable (addDays t k).instant = true)
    (h : sourceUtc (some p) = .ok t) :
    sourceUtc (some (shiftClock device k p)) = .ok (t + k * microsPerDay) := by
  unfold sourceUtc at h ⊢
  rw [Option.bind_some] at h ⊢
  unfold shiftClock shiftSource
  rw [if_pos hdevice]
  dsimp only
  cases htime : p.source.takenAt with
  | none =>
      rw [htime] at h
      cases h
  | some time =>
      rw [htime] at h
      have hinstant : (addDays time k).instant = time.instant + k * microsPerDay := by
        unfold addDays AwareTime.instant
        ring
      have hrep := hshift time htime
      dsimp only [Option.map_some] at h ⊢
      unfold astimezoneUtc at h ⊢
      split at h
      · cases h
        rw [if_pos hrep, hinstant]
      · cases h

/-- **The differences of a device shift** against its clock. -/
theorem pairOffsets_shift {group : List (PhotoState V)} {minSim : ℚ} {offsets : List ℚ}
    (hdevice : ∀ p ∈ group, p.source.deviceModel = some device) (hshift : Shiftable device k group)
    (h : pairOffsets N group anchors minSim = .ok offsets) :
    pairOffsets N (group.map (shiftClock device k)) anchors minSim =
      .ok (offsets.map fun seconds => seconds - k * secondsPerDay) := by
  have hvectors : vectors N (group.map (shiftClock device k) ++ anchors) =
      vectors N (group ++ anchors) := by
    unfold vectors
    rw [List.mapM_append, List.mapM_append, List.mapM_map]
    rfl
  obtain ⟨vs, hvs, hoffsets⟩ := except_bind_eq_ok.mp h
  rw [pairOffsets, hvectors, except_bind_eq_ok]
  refine ⟨vs, hvs, ?_⟩
  split at hoffsets
  · cases hoffsets
  rename_i hne
  rw [if_neg hne]
  rw [List.length_map]
  refine mapM_eq_ok.mpr (List.forall₂_map_right_iff.mpr ((mapM_eq_ok.mp hoffsets).imp ?_))
  rintro ⟨index, best⟩ seconds hpair
  obtain ⟨targetTime, htarget, hpair⟩ := except_bind_eq_ok.mp hpair
  obtain ⟨referenceTime, hreference, hpair⟩ := except_bind_eq_ok.mp hpair
  cases hpair
  cases hget : group[index]? with
  | none =>
      rw [hget] at htarget
      cases htarget
  | some p =>
      rw [hget] at htarget
      have hp := List.mem_of_getElem? hget
      dsimp only
      rw [List.getElem?_map, hget, Option.map_some, sourceUtc_shiftClock (hdevice p hp)
        (hshift p hp (hdevice p hp)) htarget, except_ok_bind, hreference, except_ok_bind]
      refine congrArg Except.ok ?_
      simp only [microsPerDay]
      push_cast
      ring

/-! ### The photos -/

theorem Untrusted.not_mem_referenceDevices (h : Untrusted device photos) :
    device ∉ referenceDevices (clockAnchors photos) := by
  intro hmem
  obtain ⟨p, hp, hfilter⟩ := List.mem_filterMap.mp hmem
  obtain ⟨hp, hboth⟩ := List.mem_filter.mp (mem_byId.mp hp)
  have hdevice := (Option.filter_eq_some_iff.mp hfilter).1
  rw [h p hp hdevice] at hboth
  cases hboth

/-- The anchors are not photos of the device. -/
theorem Untrusted.clockAnchors_map (h : Untrusted device photos) :
    clockAnchors (photos.map (shiftClock device k)) = clockAnchors photos := by
  unfold clockAnchors
  have hfilter : (photos.map (shiftClock device k)).filter
        (fun p => p.source.hasGps && p.source.takenAt.isSome) =
      photos.filter fun p => p.source.hasGps && p.source.takenAt.isSome := by
    rw [List.filter_map]
    have hcond : ((fun p : PhotoState V => p.source.hasGps && p.source.takenAt.isSome) ∘
        shiftClock device k) = fun p => p.source.hasGps && p.source.takenAt.isSome := by
      funext p
      rw [Function.comp_apply, shiftClock, hasGps_shiftSource, isSome_takenAt_shiftSource]
    rw [hcond]
    refine (List.map_congr_left fun p hp => ?_).trans (List.map_id _)
    obtain ⟨hp, hboth⟩ := List.mem_filter.mp hp
    apply shiftClock_of_ne
    intro hdevice
    rw [h p hp hdevice] at hboth
    cases hboth
  rw [hfilter]

/-- Each device has the photos it had, its own clock shifted. -/
theorem Untrusted.clockTargets_map (h : Untrusted device photos) :
    clockTargets (photos.map (shiftClock device k)) =
      (clockTargets photos).map fun target => (target.1, target.2.map (shiftClock device k)) := by
  unfold clockTargets
  dsimp only
  rw [h.clockAnchors_map, List.filterMap_map]
  let shiftNamed : String × PhotoState V → String × PhotoState V :=
    fun e => (e.1, shiftClock device k e.2)
  have hnamed : photos.filterMap ((fun p : PhotoState V =>
        (p.source.targetDevice (referenceDevices (clockAnchors photos))).map fun device =>
          (device, p)) ∘ shiftClock device k) =
      (photos.filterMap fun p =>
        (p.source.targetDevice (referenceDevices (clockAnchors photos))).map
        fun device => (device, p)).map shiftNamed := by
    rw [List.map_filterMap]
    apply List.filterMap_congr
    intro p _
    rw [Function.comp_apply, shiftClock, targetDevice_shiftSource, Option.map_map]
    rfl
  rw [hnamed, groupOn_map Prod.fst shiftNamed Function.injective_id fun _ => rfl, List.map_map]
  have hsort : ∀ groups : List (String × List (PhotoState V)),
      (sortOn Prod.fst groups).map (fun target => (target.1, target.2.map (shiftClock device k))) =
        sortOn Prod.fst (groups.map fun target => (target.1, target.2.map (shiftClock device k))) :=
    fun groups => map_sortOn fun _ => rfl
  rw [hsort, List.map_map]
  refine congrArg _ (List.map_congr_left fun g _ => ?_)
  have hbyId : ∀ group : List (PhotoState V), byId (group.map (shiftClock device k)) =
      (byId group).map (shiftClock device k) :=
    fun group => (map_sortOn fun p => id_shiftClock p).symm
  simp only [Function.comp_apply, id_eq, ← hbyId, List.map_map]
  rfl

theorem sameTime_of_ne (h : p.source.deviceModel ≠ some device) : SameTime device k p p :=
  ⟨(shiftSource_of_ne h).symm, rfl⟩

theorem sameTime_judgeTime (h : Untrusted device photos) (hp : p ∈ photos) :
    SameTime device k (judgeTime (referenceDevices (clockAnchors photos)) p)
      (judgeTime (referenceDevices (clockAnchors photos)) (shiftClock device k p)) := by
  by_cases hdevice : p.source.deviceModel = some device
  · have hboth := h p hp hdevice
    have hjudge : ∀ s : PhotoSource, s.hasGps = p.source.hasGps → s.deviceModel = some device →
        s.takenAt.isSome = p.source.takenAt.isSome →
        (s.takenAt.isSome && s.trusted (referenceDevices (clockAnchors photos))) = false := by
      intro s hgps hmodel htime
      unfold PhotoSource.trusted
      rw [hgps, hmodel, htime, Option.any_some, decide_eq_false h.not_mem_referenceDevices,
        Bool.or_false, Bool.and_comm]
      exact hboth
    unfold judgeTime
    rw [if_neg (Bool.eq_false_iff.mp (hjudge p.source rfl hdevice rfl)),
      if_neg (Bool.eq_false_iff.mp
      (hjudge (shiftClock device k p).source (hasGps_shiftSource _)
        ((deviceModel_shiftSource _).trans hdevice) (isSome_takenAt_shiftSource _)))]
    exact ⟨rfl, rfl⟩
  · rw [shiftClock_of_ne hdevice]
    have hsource : (judgeTime (referenceDevices (clockAnchors photos)) p).source = p.source :=
      (timed_judgeTime _ p).source
    exact sameTime_of_ne (hsource ▸ hdevice)

theorem deviceModel_of_targetDevice {s : PhotoSource} {name : String}
    (h : s.targetDevice reference = some name) : s.deviceModel = some name := by
  unfold PhotoSource.targetDevice at h
  split at h
  · cases h
  · exact (Option.filter_eq_some_iff.mp h).1

/-- The days for a device, had the clock of one been `k` days ahead. -/
def shiftDays (device : String) (k : Int) (name : String) (days : Int) : Int :=
  if name = device then days - k else days

theorem correctTime_eq_ok : correctTime days p = .ok q ↔ ∃ t, p.source.takenAt = some t ∧
    representable (addDays t days).wall = true ∧
    q = { p with
      takenAt := some (addDays t days)
      timeStatus := if days = 0 then .original else .corrected } := by
  unfold correctTime
  cases p.source.takenAt with
  | none =>
      constructor
      · intro h
        cases h
      · rintro ⟨t, htime, -⟩
        cases htime
  | some t =>
      dsimp only
      constructor
      · intro h
        split at h
        · rename_i hrep
          cases h
          exact ⟨t, rfl, hrep, rfl⟩
        · cases h
      · rintro ⟨t', htime, hrep, rfl⟩
        cases htime
        rw [if_pos hrep]

/-- **A photo is given the time it was given before.** -/
theorem correctTime_shift {name : String} (hpq : SameTime device k p q)
    (hname : p.source.deviceModel = some name) (h : correctTime days p = .ok r) :
    ∃ r', correctTime (shiftDays device k name days) q = .ok r' ∧ SameTime device k r r' := by
  obtain ⟨t, htime, hrep, rfl⟩ := correctTime_eq_ok.mp h
  have hsource := hpq.source
  unfold shiftDays
  by_cases hdevice : name = device
  · have hback : addDays (addDays t k) (days - k) = addDays t days := by
      unfold addDays
      refine congrArg (fun wall => ({ t with wall := wall } : AwareTime)) ?_
      ring
    have htime' : q.source.takenAt = some (addDays t k) := by
      rw [hsource, shiftSource, if_pos (hdevice ▸ hname), htime]
      rfl
    rw [if_pos hdevice]
    refine ⟨_, correctTime_eq_ok.mpr ⟨_, htime', by rwa [hback], rfl⟩, hsource, ?_⟩
    dsimp only
    rw [hback]
  · have hne : p.source.deviceModel ≠ some device := by
      rw [hname]
      exact fun heq => hdevice (Option.some.inj heq)
    have htime' : q.source.takenAt = some t := by
      rw [hsource, shiftSource_of_ne hne, htime]
    rw [if_neg hdevice]
    exact ⟨_, correctTime_eq_ok.mpr ⟨_, htime', hrep, rfl⟩, hsource, rfl⟩

theorem estimateDays_shift {target : String × List (PhotoState V)} {estimate : Option (Int × Nat)}
    (htarget : target ∈ clockTargets photos) (hshift : Shiftable device k photos)
    (h : estimateDays N limits anchors target.2 = .ok estimate) :
    estimateDays N limits anchors (target.2.map (shiftClock device k)) =
      .ok (estimate.map fun e => (shiftDays device k target.1 e.1, e.2)) := by
  have hnamed : ∀ p ∈ target.2, p ∈ photos ∧ p.source.deviceModel = some target.1 := fun p hp =>
    ((mem_clockTargets htarget).mp hp).imp_right deviceModel_of_targetDevice
  by_cases hdevice : target.1 = device
  · obtain ⟨offsets, hoffsets, h⟩ := except_bind_eq_ok.mp h
    cases h
    have hpairs := pairOffsets_shift (fun p hp => hdevice ▸ (hnamed p hp).2)
      (fun p hp => hshift p (hnamed p hp).1) hoffsets
    rw [estimateDays, hpairs, except_ok_bind]
    unfold shiftDays
    simp only [if_pos hdevice]
    exact congrArg Except.ok (consistentDays_sub offsets k limits.minPairs limits.offsetTolerance)
  · have hsame : target.2.map (shiftClock device k) = target.2 := by
      refine (List.map_congr_left fun p hp => shiftClock_of_ne ?_).trans (List.map_id _)
      rw [(hnamed p hp).2]
      exact fun heq => hdevice (Option.some.inj heq)
    rw [hsame, h]
    unfold shiftDays
    simp only [if_neg hdevice]
    exact congrArg Except.ok Option.map_id'.symm

/-- The state of the loop over the devices, one clock shifted. -/
structure SameState (device : String) (k : Int)
    (state state' : List (PhotoState V) × List ClockOffset) : Prop where
  photos : List.Forall₂ (SameTime device k) state.1 state'.1
  offsets : state'.2 = state.2.map (shiftOffset device k)

theorem correctDevice_shift {state state' result : List (PhotoState V) × List ClockOffset}
    {target : String × List (PhotoState V)} (htarget : target ∈ clockTargets photos)
    (hshift : Shiftable device k photos) (hstate : SameState device k state state')
    (h : correctDevice N limits reference anchors state target = .ok result) :
    ∃ result', correctDevice N limits reference anchors state'
        (target.1, target.2.map (shiftClock device k)) = .ok result' ∧
      SameState device k result result' := by
  obtain ⟨estimate, hestimate, h⟩ := except_bind_eq_ok.mp h
  unfold correctDevice
  rw [estimateDays_shift htarget hshift hestimate, except_ok_bind]
  cases estimate with
  | none =>
      cases h
      exact ⟨state', rfl, hstate⟩
  | some estimate =>
      obtain ⟨days, matchedPairs⟩ := estimate
      obtain ⟨corrected, hcorrected, h⟩ := except_bind_eq_ok.mp h
      cases h
      have hphoto : ∀ p q r : PhotoState V, SameTime device k p q →
          (if p.source.targetDevice reference = some target.1 then correctTime days p else .ok p) =
            .ok r → ∃ r', (if q.source.targetDevice reference = some target.1 then
              correctTime (shiftDays device k target.1 days) q else .ok q) = .ok r' ∧
            SameTime device k r r' := by
        intro p q r hpq hr
        rw [hpq.source, targetDevice_shiftSource]
        split at hr
        · rename_i hnamed
          rw [if_pos hnamed]
          exact correctTime_shift hpq (deviceModel_of_targetDevice hnamed) hr
        · rename_i hother
          cases hr
          rw [if_neg hother]
          exact ⟨q, rfl, hpq⟩
      obtain ⟨corrected', hcorrected', hsame⟩ := mapM_simulates hphoto hstate.photos hcorrected
      refine ⟨(corrected',
        state'.2 ++ [⟨target.1, shiftDays device k target.1 days, matchedPairs⟩]),
        ?_, hsame, ?_⟩
      · dsimp only [Option.map_some]
        rw [hcorrected']
        rfl
      · dsimp only
        rw [hstate.offsets, List.map_append, List.map_singleton]
        refine congrArg (fun o => state.2.map (shiftOffset device k) ++ [o]) ?_
        unfold shiftDays shiftOffset
        dsimp only
        split <;> rfl

/-- **CLOCK does not mind a clock that is off by more days.** The report on the device shifts by
as many days, with the pairs it had, the others stay, and every photo keeps its corrected time. -/
theorem correctClocks_shift {pairMinSim minPairs offsetTolerance : Threshold}
    {result : List (PhotoState V) × List ClockOffset}
    (h : correctClocks N photos pairMinSim minPairs offsetTolerance = .ok result)
    (hdevice : Untrusted device photos) (hshift : Shiftable device k photos) :
    ∃ result', correctClocks N (photos.map (shiftClock device k)) pairMinSim minPairs
        offsetTolerance = .ok result' ∧
      List.Forall₂ (SameTime device k) result.1 result'.1 ∧
      result'.2 = result.2.map (shiftOffset device k) := by
  obtain ⟨limits, hlimits, h⟩ := except_bind_eq_ok.mp h
  unfold correctClocks
  rw [hlimits, except_ok_bind]
  unfold correctClocksWithin at h ⊢
  dsimp only at h ⊢
  rw [hdevice.clockAnchors_map, hdevice.clockTargets_map]
  have hjudged : List.Forall₂ (SameTime device k)
      (photos.map (judgeTime (referenceDevices (clockAnchors photos))))
      ((photos.map (shiftClock device k)).map
        (judgeTime (referenceDevices (clockAnchors photos)))) := by
    rw [List.map_map, List.forall₂_map_left_iff, List.forall₂_map_right_iff, List.forall₂_same]
    exact fun p hp => sameTime_judgeTime hdevice hp
  split at h
  · rename_i hempty
    cases h
    rw [if_pos hempty]
    exact ⟨_, rfl, hjudged, rfl⟩
  · rename_i hsome
    rw [if_neg hsome]
    have hstart : SameState device k
        (photos.map (judgeTime (referenceDevices (clockAnchors photos))), [])
        ((photos.map (shiftClock device k)).map
          (judgeTime (referenceDevices (clockAnchors photos))), []) := ⟨hjudged, rfl⟩
    obtain ⟨result', hresult', hsame⟩ := foldlM_simulates (R := SameState device k)
      (S := fun target target' : String × List (PhotoState V) => target ∈ clockTargets photos ∧
        target' = (target.1, target.2.map (shiftClock device k)))
      (fun state state' target target' result hstate htarget hresult => by
        obtain ⟨hmem, rfl⟩ := htarget
        exact correctDevice_shift hmem hshift hstate hresult)
      (forall₂_map _ fun target htarget => ⟨htarget, rfl⟩) hstart h
    exact ⟨result', hresult', hsame.photos, hsame.offsets⟩

/-- An anchor, and a photo alike from a clock that is two days ahead. -/
def aheadPhotos : List (PhotoState Unit) :=
  [{ source := ⟨1, "", some ⟨0, 0⟩, some (.finite "37.5"), some (.finite "127.0"), some "a"⟩
     embedding := some () },
    { source := ⟨2, "", some ⟨2 * microsPerDay, 0⟩, none, none, some "b"⟩, embedding := some () }]

def aheadClocked : List (PhotoState Unit) × List ClockOffset :=
  (correctClocks sampleNumerics aheadPhotos (.int 0) (.int 1) (.int 60)).toOption.getD ([], [])

theorem correctClocks_shift_aheadPhotos :
    aheadClocked.2.map ClockOffset.days = [-2] ∧
    ∃ result', correctClocks sampleNumerics (aheadPhotos.map (shiftClock "b" 3)) (.int 0) (.int 1)
        (.int 60) = .ok result' ∧
      List.Forall₂ (SameTime "b" 3) aheadClocked.1 result'.1 ∧
      result'.2 = aheadClocked.2.map (shiftOffset "b" 3) := by
  have hclocked : (correctClocks sampleNumerics aheadPhotos (.int 0) (.int 1)
      (.int 60)).toOption.isSome = true := by
    decide +kernel
  have hdevice : Untrusted "b" aheadPhotos := by
    intro p hp hmodel
    rcases List.mem_cons.mp hp with rfl | hp
    · exact absurd hmodel (by decide)
    · obtain rfl := List.mem_singleton.mp hp
      rfl
  have hshift : Shiftable "b" 3 aheadPhotos := by
    intro p hp hmodel t ht
    rcases List.mem_cons.mp hp with rfl | hp
    · exact absurd hmodel (by decide)
    · obtain rfl := List.mem_singleton.mp hp
      cases ht
      decide
  exact ⟨by decide +kernel, correctClocks_shift (eq_ok_getD hclocked ([], [])) hdevice hshift⟩

end Yeodam.Pipeline
