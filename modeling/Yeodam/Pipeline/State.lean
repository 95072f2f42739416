/-
What the steps of the photo pipeline share: the photos they fill in
(`app/pipeline/state.py`), the errors they raise (`app/core/errors.py`) and the libraries
they compute with.

A `PhotoState` keeps the request's values in its `source`, which no step writes, and the
results of the steps in its other fields. The steps take a list of photos and return it
with fields updated, in the same order: what the source writes to shared objects is here
the list returned.

`Numerics` holds numpy, scikit-learn and the zone data, which are not code of this
repository. Numbers are exact.
-/

import Mathlib.Data.Rat.Defs
import Mathlib.Data.Prod.Lex
import Mathlib.Algebra.Order.Ring.Unbundled.Rat
import Mathlib.Algebra.Order.Group.Unbundled.Abs
import Yeodam.Lib.Except
import Yeodam.Lib.Keyed
import Yeodam.Lib.Pointwise
import Yeodam.Schemas.Process

namespace Yeodam.Pipeline

open Yeodam.Lib Yeodam.Schemas

universe u

/-! ### Errors -/

/-- `PipelineError` and the classes derived from it. -/
inductive PipelineError where
  /-- `PipelineError(message)`, reported as `INTERNAL_ERROR`. -/
  | failed (message : String)
  | cancelled
  | downloadFailed (keys : List String)
  | decodeFailed (ids : List Int)
  | agentUnavailable (message : String)
  | agentTimeout (message : String)
deriving DecidableEq

/-- What a step raises: a `PipelineError`, or any other exception, which `run` turns into
one. -/
inductive Raised where
  | pipeline (e : PipelineError)
  | other
deriving DecidableEq

/-- `raise PipelineError(message)`. -/
def fail {α : Type u} (message : String) : Except Raised α := .error (.pipeline (.failed message))

/-- `if bad: raise PipelineError(message)`. -/
def raiseIf (bad : Bool) (message : String) : Except Raised Unit :=
  if bad then fail message else .ok ()

@[simp] theorem raiseIf_eq_ok {bad : Bool} {message : String} {u : Unit} :
    raiseIf bad message = .ok u ↔ bad = false := by
  cases bad <;> simp [raiseIf, fail]

@[simp] theorem raiseIf_false {message : String} : raiseIf false message = .ok () := rfl

theorem raiseIf_succeeds {α : Type} {bad : Bool} {message : String} {f : Unit → Except Raised α}
    (h : bad = false) (hf : ∃ a, f () = .ok a) : ∃ a, (raiseIf bad message >>= f) = .ok a :=
  bind_succeeds (raiseIf_eq_ok.mpr h) hf

@[simp] theorem fail_ne_ok {α : Type u} {message : String} {a : α} : fail message ≠ .ok a := nofun

/-- The computation does not raise a plain `PipelineError`. -/
def Unfailing {α : Type u} (x : Except Raised α) : Prop := ∀ message, x ≠ fail message

section Unfailing

variable {α β : Type u} {x : Except Raised α} {f : α → Except Raised β}

@[simp] theorem unfailing_ok (a : α) : Unfailing (.ok a : Except Raised α) := nofun

@[simp] theorem unfailing_other : Unfailing (.error .other : Except Raised α) := nofun

theorem Unfailing.bind (hx : Unfailing x) (hf : ∀ a, x = .ok a → Unfailing (f a)) :
    Unfailing (x >>= f) := by
  intro message h
  rcases except_bind_eq_error.mp h with h | ⟨a, ha, h⟩
  · exact hx message h
  · exact hf a ha message h

theorem Unfailing.map {g : α → β} (hx : Unfailing x) : Unfailing (x.map g) := by
  cases x with
  | error e =>
      intro message h
      apply hx message
      cases h
      rfl
  | ok a => exact unfailing_ok (g a)

theorem unfailing_mapM {γ : Type} {g : γ → Except Raised β} {xs : List γ}
    (h : ∀ y ∈ xs, Unfailing (g y)) : Unfailing (xs.mapM g) := by
  intro message herror
  obtain ⟨y, hy, hg⟩ := mapM_eq_error herror
  exact h y hy message hg

theorem unfailing_foldlM {γ : Type} {P : α → Prop} {step : α → γ → Except Raised α} {zs : List γ}
    {a : α} (hstep : ∀ a, P a → ∀ z ∈ zs, Unfailing (step a z) ∧ ∀ a', step a z = .ok a' → P a')
    (ha : P a) : Unfailing (zs.foldlM step a) := by
  induction zs generalizing a with
  | nil => exact unfailing_ok a
  | cons z zs ih =>
      obtain ⟨hfirst, hP⟩ := hstep a ha z List.mem_cons_self
      rw [List.foldlM_cons]
      refine hfirst.bind fun a' ha' => ih (fun a ha z hz => ?_) (hP a' ha')
      exact hstep a ha z (List.mem_cons_of_mem _ hz)

end Unfailing

/-! ### Numbers and arrays -/

/-- A value of `thresholds.yaml`. -/
inductive Threshold where
  | bool (b : Bool)
  | int (n : Int)
  | float (x : PyFloat)
deriving DecidableEq

/-- numpy, scikit-learn and the zone data, as the steps use them. `V` is the type of the
one-dimensional arrays an embedding can be. -/
structure Numerics (V : Type) where
  /-- The number a finite float stands for. -/
  value : PyFloat → ℚ
  /-- Not empty, all entries finite, and the norm 1 within `rtol=1e-5, atol=1e-6`. -/
  isUnit : V → Bool
  dim : V → Nat
  /-- `a @ b`, of arrays of one length. -/
  dot : V → V → ℚ
  /-- `DBSCAN(eps=eps, min_samples=min_samples, metric="haversine").fit_predict` of pairs of
  degrees: the label of each row. -/
  dbscan : ℚ → Int → List (PyFloat × PyFloat) → Nat → Int
  /-- The point under the mean of the unit vectors of some coordinates; none where its norm is
  below `1e-12`. -/
  sphericalMean : List (PyFloat × PyFloat) → Option (PyFloat × PyFloat)
  /-- Seconds east of UTC in Asia/Seoul at an instant. -/
  seoulOffset : Int → Int
  /-- `100.0 * (v / (v + 100.0))`, each step rounded as the machine does. -/
  saturation : ℚ → ℚ

/-- One vector, which is like itself, and one label for all points. -/
def sampleNumerics : Numerics Unit :=
  { value := fun _ => 0, isUnit := fun _ => true, dim := fun _ => 1, dot := fun _ _ => 1,
    dbscan := fun _ _ _ _ => 0, sphericalMean := List.head?, seoulOffset := fun _ => 32400
    saturation := fun v => 100 * (v / (v + 100)) }

/-- Embeddings in the plane. -/
def planeNumerics : Numerics (Int × Int) :=
  { value := fun _ => 0, isUnit := fun v => v.1 * v.1 + v.2 * v.2 = 1, dim := fun _ => 2
    dot := fun v w => v.1 * w.1 + v.2 * w.2, dbscan := fun _ _ _ _ => 0, sphericalMean := List.head?
    seoulOffset := fun _ => 32400, saturation := fun v => 100 * (v / (v + 100)) }

/-- A finite number: `np.isfinite(x)` holds and this is its value. -/
def Threshold.finite? {V : Type} (N : Numerics V) : Threshold → Option ℚ
  | .bool b => some (if b then 1 else 0)
  | .int n => some n
  | .float x => if x.isFinite then some (N.value x) else none

/-- A threshold that has to be finite and within bounds. -/
def bounded {V : Type} (N : Numerics V) (ok : ℚ → Bool) (message : String) (t : Threshold) :
    Except Raised ℚ :=
  match t.finite? N with
  | some q => if ok q then .ok q else fail message
  | none => fail message

/-- A threshold that has to be an integer, which a `bool` is not, within bounds. -/
def integer (ok : Int → Bool) (message : String) : Threshold → Except Raised Int
  | .int n => if ok n then .ok n else fail message
  | _ => fail message

theorem bounded_eq_ok {V : Type} {N : Numerics V} {ok : ℚ → Bool} {message : String}
    {t : Threshold} {q : ℚ} : bounded N ok message t = .ok q ↔ t.finite? N = some q ∧ ok q := by
  unfold bounded
  cases t.finite? N with
  | none => simp
  | some r =>
      dsimp only
      split
      · rename_i hok
        rw [Except.ok.injEq, Option.some.injEq]
        exact ⟨fun h => ⟨h, h ▸ hok⟩, fun h => h.1⟩
      · rename_i hok
        rw [Option.some.injEq]
        exact ⟨fun h => absurd h fail_ne_ok, fun h => absurd (h.1 ▸ h.2) hok⟩

theorem integer_eq_ok {ok : Int → Bool} {message : String} {t : Threshold} {n : Int} :
    integer ok message t = .ok n ↔ t = .int n ∧ ok n := by
  unfold integer
  split
  · split
    · rename_i hok
      rw [Except.ok.injEq, Threshold.int.injEq]
      exact ⟨fun h => ⟨h, h ▸ hok⟩, fun h => h.1⟩
    · rename_i hok
      rw [Threshold.int.injEq]
      exact ⟨fun h => absurd h fail_ne_ok, fun h => absurd (h.1 ▸ h.2) hok⟩
  · rename_i hint
    exact ⟨fun h => absurd h fail_ne_ok, fun h => absurd h.1 (hint n)⟩

/-! ### Times -/

def secondsPerDay : Int := 86400
def microsPerDay : Int := secondsPerDay * 1000000

/-- `taken_at.astimezone(UTC)`: `OverflowError` where UTC leaves the years 1 to 9999. -/
def astimezoneUtc (t : AwareTime) : Except Raised Int :=
  if representable t.instant then .ok t.instant else .error .other

/-- `taken_at.astimezone(KST).date()`, in days from the start of 1970. -/
def kstDate {V : Type} (N : Numerics V) (t : AwareTime) : Except Raised Int := do
  let utc ← astimezoneUtc t
  let wall := utc + N.seoulOffset utc * 1000000
  if representable wall then return wall / microsPerDay else .error .other

/-! ### Photos -/

inductive TimeStatus where
  | pending
  | original
  | corrected
  | unknown
deriving DecidableEq

/-- `PhotoSource`: the values of the request. -/
structure PhotoSource where
  tripAttachmentId : Int
  analyzeStorageKey : String
  takenAt : Option AwareTime
  latitude : Option PyFloat
  longitude : Option PyFloat
  deviceModel : Option String
deriving DecidableEq

def PhotoSource.hasGps (s : PhotoSource) : Bool := s.latitude.isSome && s.longitude.isSome

/-- `PhotoState`. -/
structure PhotoState (V : Type) where
  source : PhotoSource
  takenAt : Option AwareTime := none
  timeStatus : TimeStatus := .pending
  latitude : Option PyFloat := none
  longitude : Option PyFloat := none
  regionOrigin : RegionOrigin := .unknown
  embedding : Option V := none
  placeId : Option String := none
  issue : Option Issue := none
  duplicateOfAttachmentId : Option Int := none
deriving DecidableEq

variable {V : Type}

def PhotoState.id (p : PhotoState V) : Int := p.source.tripAttachmentId

/-- The photo of one attachment of a request. -/
def buildPhotoState (a : ProcessAttachment) : PhotoState V :=
  let source : PhotoSource :=
    { tripAttachmentId := a.tripAttachmentId, analyzeStorageKey := a.analyzeStorageKey,
      takenAt := a.takenAt, latitude := a.latitude, longitude := a.longitude,
      deviceModel := a.deviceModel }
  if source.hasGps then
    { source := source, latitude := source.latitude, longitude := source.longitude,
      regionOrigin := .exif }
  else { source := source }

/-- `build_photo_states`. -/
def buildPhotoStates (request : ProcessRequest) : List (PhotoState V) :=
  request.attachments.map buildPhotoState

/-- `sorted(photos, key=lambda photo: photo.source.trip_attachment_id)`. -/
def byId (photos : List (PhotoState V)) : List (PhotoState V) := sortOn PhotoState.id photos

@[simp] theorem mem_byId {photos : List (PhotoState V)} {p : PhotoState V} :
    p ∈ byId photos ↔ p ∈ photos :=
  mem_sortOn

theorem nodup_ids_byId {photos : List (PhotoState V)} (h : (photos.map PhotoState.id).Nodup) :
    ((byId photos).map PhotoState.id).Nodup :=
  nodup_map_sortOn h

/-- The photo as it is now among `photos`: objects are shared between lists. -/
def current (photos : List (PhotoState V)) (id : Int) : Option (PhotoState V) :=
  photos.find? fun p => p.id = id

/-- Write to one photo. -/
def updatePhoto (id : Int) (f : PhotoState V → PhotoState V) (photos : List (PhotoState V)) :
    List (PhotoState V) :=
  photos.map fun p => if p.id = id then f p else p

/-- `photo.place_id`, where it is true. -/
def PhotoState.folder? (p : PhotoState V) : Option String :=
  p.placeId.filter fun place => place ≠ ""

/-- Put a photo into a folder, at the coordinates given. -/
def PhotoState.putInto (place : String) (latitude longitude : Option PyFloat) (p : PhotoState V) :
    PhotoState V :=
  { p with
    placeId := some place
    latitude := latitude
    longitude := longitude
    regionOrigin := .inferred
    issue := none }

/-- The issue of a photo that is neither blurry nor a duplicate, by its folder. -/
def keptIssue : Option String → Option Issue
  | some _ => none
  | none => some .unclearLocation

/-- `float(a.embedding @ b.embedding)`, of photos whose embeddings are there. -/
def similarity (N : Numerics V) (a b : PhotoState V) : ℚ :=
  match a.embedding, b.embedding with
  | some x, some y => N.dot x y
  | _, _ => 0

/-- `np.clip(q, -1.0, 1.0)`. -/
def clip (q : ℚ) : ℚ := max (-1) (min 1 q)

/-- The embedding, checked to be a unit vector. -/
def unitVector (N : Numerics V) (message : String) (p : PhotoState V) : Except Raised V :=
  match p.embedding with
  | some v => if N.isUnit v then .ok v else fail message
  | none => fail message

/-- The vectors have one dimension: `len({vector.shape for vector in vectors}) == 1`, of a
nonempty list. -/
def oneDimension (N : Numerics V) : List V → Bool
  | [] => true
  | v :: vs => vs.all fun w => N.dim w = N.dim v

/-- A latitude or a longitude, of at most `limit` degrees. -/
def validCoordinate (N : Numerics V) (limit : ℚ) (x : PyFloat) : Bool :=
  x.isFinite && |N.value x| ≤ limit

/-- A latitude and a longitude that are in range. -/
def validPoint (N : Numerics V) (point : PyFloat × PyFloat) : Bool :=
  validCoordinate N 90 point.1 && validCoordinate N 180 point.2

/-- Both coordinates. -/
def PhotoState.point? (p : PhotoState V) : Option (PyFloat × PyFloat) :=
  match p.latitude, p.longitude with
  | some latitude, some longitude => some (latitude, longitude)
  | _, _ => none

/-- The photo is not known to be taken outside the period, whose ends count as inside. -/
def inPeriod (N : Numerics V) (period : Period) (p : PhotoState V) : Except Raised Bool :=
  match p.takenAt with
  | none => .ok true
  | some t => do
      let day ← kstDate N t
      return period.startDate ≤ day && day ≤ period.endDate

/-! ### Photos in a list -/

section Lists

variable {photos : List (PhotoState V)} {photo p q : PhotoState V} {id : Int}
  {f : PhotoState V → PhotoState V} {place : String}

theorem current_mem (h : current photos id = some photo) : photo ∈ photos ∧ photo.id = id :=
  ⟨List.mem_of_find?_eq_some h, by simpa using List.find?_some h⟩

/-- Ids name photos. -/
theorem eq_of_id (hnodup : (photos.map PhotoState.id).Nodup) (hp : p ∈ photos) (hq : q ∈ photos)
    (h : p.id = q.id) : p = q :=
  List.inj_on_of_nodup_map hnodup hp hq h

theorem current_of_mem (hnodup : (photos.map PhotoState.id).Nodup) (hp : p ∈ photos) :
    current photos p.id = some p := by
  cases h : current photos p.id with
  | none =>
      have hne := List.find?_eq_none.mp h p hp
      simp at hne
  | some q =>
      obtain ⟨hq, hid⟩ := current_mem h
      rw [eq_of_id hnodup hq hp hid]

theorem mem_updatePhoto :
    q ∈ updatePhoto id f photos ↔ ∃ p ∈ photos, q = if p.id = id then f p else p := by
  rw [updatePhoto, List.mem_map]
  simp only [eq_comm]

theorem ids_updatePhoto (hf : ∀ p, (f p).id = p.id) :
    (updatePhoto id f photos).map PhotoState.id = photos.map PhotoState.id := by
  rw [updatePhoto, List.map_map]
  apply List.map_congr_left
  intro p _
  simp only [Function.comp_apply]
  split
  · exact hf p
  · rfl

@[simp] theorem id_putInto {latitude longitude : Option PyFloat} :
    (p.putInto place latitude longitude).id = p.id := rfl

theorem folder?_eq_some : p.folder? = some place ↔ p.placeId = some place ∧ place ≠ "" := by
  rw [PhotoState.folder?, Option.filter_eq_some_iff]
  simp

end Lists

/-! ### Embedded photos -/

/-- The photo has a unit embedding of dimension `d`. -/
def PhotoState.Embedded (N : Numerics V) (d : Nat) (p : PhotoState V) : Prop :=
  ∃ v, p.embedding = some v ∧ N.isUnit v = true ∧ N.dim v = d

section Embedded

variable {N : Numerics V} {d : Nat} {message : PhotoState V → String}
  {photos : List (PhotoState V)}

theorem unitVectors_succeed (message : PhotoState V → String)
    (h : ∀ p ∈ photos, p.Embedded N d) :
    ∃ vs, photos.mapM (fun p => unitVector N (message p) p) = .ok vs ∧
      oneDimension N vs = true := by
  have hvector : ∀ p ∈ photos, ∃ v, unitVector N (message p) p = .ok v := by
    intro p hp
    obtain ⟨v, hv, hunit, -⟩ := h p hp
    refine ⟨v, ?_⟩
    unfold unitVector
    simp only [hv, hunit, if_true]
  obtain ⟨vs, hvs⟩ := mapM_succeeds hvector
  have hdim : ∀ v ∈ vs, N.dim v = d := by
    intro v hv
    obtain ⟨p, hp, hpv⟩ := exists_left_of_forall₂ (mapM_eq_ok.mp hvs) hv
    obtain ⟨w, hw, hunit, hdim⟩ := h p hp
    simp only [unitVector, hw, hunit, if_true, Except.ok.injEq] at hpv
    exact hpv ▸ hdim
  refine ⟨vs, hvs, ?_⟩
  cases vs with
  | nil => rfl
  | cons v vs =>
      refine List.all_eq_true.mpr fun w hw => decide_eq_true ?_
      rw [hdim w (List.mem_cons_of_mem _ hw), hdim v List.mem_cons_self]

end Embedded

/-! ### Times away from the ends of the range -/

/-- Three days at least from `datetime.min` and `datetime.max`, with an offset below a day, as
every offset is. -/
structure AwayFromEnds (t : AwareTime) : Prop where
  afterMin : datetimeMin + 3 * microsPerDay ≤ t.wall
  beforeMax : t.wall + 3 * microsPerDay ≤ datetimeMax
  offset : |t.offset| < secondsPerDay

theorem AwayFromEnds.astimezoneUtc {t : AwareTime} (h : AwayFromEnds t) :
    astimezoneUtc t = .ok t.instant := by
  obtain ⟨hmin, hmax, hoffset⟩ := h
  rw [abs_lt] at hoffset
  have hrep : representable t.instant = true := by
    rw [representable_iff, AwareTime.instant]
    simp only [datetimeMin, datetimeMax, microsPerDay, secondsPerDay] at *
    omega
  rw [Pipeline.astimezoneUtc, if_pos hrep]

theorem AwayFromEnds.kstDate {N : Numerics V} {t : AwareTime} (h : AwayFromEnds t)
    (hzone : ∀ utc, |N.seoulOffset utc| < secondsPerDay) : ∃ day, kstDate N t = .ok day := by
  have hutc := h.astimezoneUtc
  obtain ⟨hmin, hmax, hoffset⟩ := h
  have hseoul := hzone t.instant
  rw [abs_lt] at hoffset hseoul
  have hrep : representable (t.instant + N.seoulOffset t.instant * 1000000) = true := by
    rw [representable_iff]
    simp only [AwareTime.instant] at hseoul ⊢
    simp only [datetimeMin, datetimeMax, microsPerDay, secondsPerDay] at *
    omega
  refine ⟨(t.instant + N.seoulOffset t.instant * 1000000) / microsPerDay, ?_⟩
  rw [Pipeline.kstDate, except_bind_eq_ok]
  refine ⟨t.instant, hutc, ?_⟩
  dsimp only
  rw [if_pos hrep]
  rfl

/-- The times judged so far are away from the ends. -/
def TimesAway (photos : List (PhotoState V)) : Prop :=
  ∀ p ∈ photos, ∀ t, p.takenAt = some t → AwayFromEnds t

theorem inPeriod_succeeds {N : Numerics V} (period : Period) {photos : List (PhotoState V)}
    {p : PhotoState V} (hzone : ∀ utc, |N.seoulOffset utc| < secondsPerDay)
    (haway : TimesAway photos) (hp : p ∈ photos) : ∃ inside, inPeriod N period p = .ok inside := by
  cases ht : p.takenAt with
  | none =>
      refine ⟨true, ?_⟩
      simp only [inPeriod, ht]
  | some t =>
      obtain ⟨day, hday⟩ := (haway p hp t ht).kstDate hzone
      refine ⟨period.startDate ≤ day && day ≤ period.endDate, ?_⟩
      simp only [inPeriod, ht, except_bind_eq_ok]
      exact ⟨day, hday, rfl⟩

/-! ### Order -/

/-- `(taken_at is None, instant, id)`, compared from the left; the instant of an unknown time is
that of `datetime.max`. -/
abbrev OrderKey := Bool ×ₗ Int ×ₗ Int

def PhotoState.orderKey (p : PhotoState V) : OrderKey :=
  toLex (p.takenAt.isNone, toLex ((p.takenAt.map AwareTime.instant).getD datetimeMax, p.id))

/-- `_order`: the key, where the time can be brought to UTC. -/
def utcOrder (p : PhotoState V) : Except Raised OrderKey :=
  match p.takenAt with
  | none => .ok p.orderKey
  | some t => do
      let _ ← astimezoneUtc t
      return p.orderKey

/-- The time and its status do not go together. -/
def PhotoState.timeInconsistent (p : PhotoState V) : Bool :=
  p.timeStatus = .pending || (p.timeStatus = .unknown) != p.takenAt.isNone

theorem utcOrder_eq_ok {p : PhotoState V} {key : OrderKey} (h : utcOrder p = .ok key) :
    key = p.orderKey := by
  unfold utcOrder at h
  split at h
  · cases h
    rfl
  · obtain ⟨_, -, h⟩ := except_bind_eq_ok.mp h
    cases h
    rfl

theorem utcOrder_succeeds {photos : List (PhotoState V)} {p : PhotoState V}
    (haway : TimesAway photos) (hp : p ∈ photos) : utcOrder p = .ok p.orderKey := by
  unfold utcOrder
  split
  · rfl
  · rename_i t ht
    rw [(haway p hp t ht).astimezoneUtc]
    rfl

end Yeodam.Pipeline
