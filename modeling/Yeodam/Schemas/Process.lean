/-
Requests and results of `process` (`app/schemas/process.py`).

Requests keep the fields the schema knows and ignore others. Results are validated by
the rules of the specification, and their times are rendered in Asia/Seoul. A result with
a time that has no clock reading there is not rendered at all.
-/

import Mathlib.Data.List.Dedup
import Yeodam.Schemas.Pydantic

namespace Yeodam.Schemas

open Yeodam.Lib

/-- The time on a clock in Seoul, whatever its year. -/
def inSeoul (lib : Libraries) (t : AwareTime) : AwareTime :=
  let offset := lib.seoulOffset t.instant
  { wall := t.instant + offset * 1000000, offset := offset }

/-- `to_kst`: the way to Seoul is by UTC, and `astimezone` raises an `OverflowError` where
either clock leaves the years 1 to 9999. -/
def toKst (lib : Libraries) (t : AwareTime) : Option AwareTime :=
  if representable t.instant && representable (inSeoul lib t).wall then some (inSeoul lib t)
  else none

theorem toKst_eq_some {lib : Libraries} {t kst : AwareTime} (h : toKst lib t = some kst) :
    kst = inSeoul lib t := by
  obtain ⟨-, h⟩ := Option.ite_none_right_eq_some.mp h
  exact (Option.some.inj h).symm

/-- The time as a result renders it. -/
def renderKst (lib : Libraries) (t : AwareTime) : Option Value :=
  (toKst lib t).map fun kst => .ofString (lib.renderTime kst)

/-! ### Requests -/

/-- The steps of `process` (`app/schemas/task.py`). -/
inductive ProcessStep where
  | downloading
  | embedding
  | clock
  | locating
  | clustering
  | filtering
  | finalizing
deriving DecidableEq, Repr

def ProcessStep.text : ProcessStep → String
  | .downloading => "DOWNLOADING"
  | .embedding => "EMBEDDING"
  | .clock => "CLOCK"
  | .locating => "LOCATING"
  | .clustering => "CLUSTERING"
  | .filtering => "FILTERING"
  | .finalizing => "FINALIZING"

structure Period where
  startDate : Int
  endDate : Int

structure Region where
  latitude : PyFloat
  longitude : PyFloat

structure ProcessAttachment where
  tripAttachmentId : Int
  analyzeStorageKey : String
  takenAt : Option AwareTime
  latitude : Option PyFloat
  longitude : Option PyFloat
  deviceModel : Option String

structure ExistingPlace where
  tripPlaceId : Int
  latitude : PyFloat
  longitude : PyFloat

/-- `ProcessRequest`. -/
structure ProcessRequest where
  executionId : Option String
  tripName : String
  period : Period
  regions : List Region
  attachments : List ProcessAttachment
  existingPlaces : List ExistingPlace

variable (lib : Libraries)

def Period.validate : Value → Option Period := model fun v => do
  let startDate ← required lib.date "start_date" v
  let endDate ← required lib.date "end_date" v
  return ⟨startDate, endDate⟩

def Period.render (p : Period) : Value :=
  .record [("start_date", .ofString (lib.renderDate p.startDate)),
    ("end_date", .ofString (lib.renderDate p.endDate))]

def Region.validate : Value → Option Region := model fun v => do
  let latitude ← required lib.float "latitude" v
  let longitude ← required lib.float "longitude" v
  return ⟨latitude, longitude⟩

def Region.render (r : Region) : Value :=
  .record [("latitude", .float r.latitude), ("longitude", .float r.longitude)]

def ProcessAttachment.validate : Value → Option ProcessAttachment := model fun v => do
  let tripAttachmentId ← required lib.int "trip_attachment_id" v
  let analyzeStorageKey ←
    required (constrained str fun s => 1 ≤ s.length) "analyze_storage_key" v
  let takenAt ← optional none (nullable lib.awareDatetime) "taken_at" v
  let latitude ← optional none (nullable lib.float) "latitude" v
  let longitude ← optional none (nullable lib.float) "longitude" v
  let deviceModel ← optional none (nullable str) "device_model" v
  return ⟨tripAttachmentId, analyzeStorageKey, takenAt, latitude, longitude, deviceModel⟩

def ProcessAttachment.render (a : ProcessAttachment) : Value :=
  .record [("trip_attachment_id", .int a.tripAttachmentId),
    ("analyze_storage_key", .ofString a.analyzeStorageKey),
    ("taken_at", orNull (fun t => .ofString (lib.renderTime t)) a.takenAt),
    ("latitude", orNull .float a.latitude), ("longitude", orNull .float a.longitude),
    ("device_model", orNull .ofString a.deviceModel)]

/-- `ExistingPlace`, of which `ProcessMessage` keeps nothing. -/
def existingPlace : Value → Option Unit := model fun v => do
  let _ ← required lib.int "trip_place_id" v
  let _ ← required lib.float "latitude" v
  let _ ← required lib.float "longitude" v
  return ()

/-! ### Results -/

inductive RegionOrigin where
  | exif
  | inferred
  | unknown
deriving DecidableEq

def RegionOrigin.text : RegionOrigin → String
  | .exif => "EXIF"
  | .inferred => "INFERRED"
  | .unknown => "UNKNOWN"

inductive Issue where
  | unclearLocation
  | blurry
  | duplicated
deriving DecidableEq

def Issue.text : Issue → String
  | .unclearLocation => "UNCLEAR_LOCATION"
  | .blurry => "BLURRY"
  | .duplicated => "DUPLICATED"

structure PlaceAttachment where
  tripAttachmentId : Int
  takenAt : Option AwareTime
  latitude : PyFloat
  longitude : PyFloat
  regionOrigin : RegionOrigin
  evaluation : Int

structure Place where
  placeId : String
  matchedTripPlaceId : Option Int
  latitude : PyFloat
  longitude : PyFloat
  firstTakenAt : Option AwareTime
  lastTakenAt : Option AwareTime
  representativeAttachmentId : Int
  attachments : List PlaceAttachment

structure UnclassifiedAttachment where
  tripAttachmentId : Int
  issue : Issue
  placeId : Option String
  duplicateOfAttachmentId : Option Int
  takenAt : Option AwareTime
  latitude : Option PyFloat
  longitude : Option PyFloat
  regionOrigin : RegionOrigin
  evaluation : Option Int

structure ClockOffset where
  deviceModel : String
  days : Int
  matchedPairs : Int

structure ProcessResult where
  places : List Place
  unclassified : List UnclassifiedAttachment
  /-- `failed`: the photo, its reason always being `DECODE_FAILED`. -/
  failed : List Int
  clockOffsets : List ClockOffset

def RegionOrigin.validate : Value → Option RegionOrigin :=
  oneOf ([.exif, .inferred, .unknown].map fun o => (o.text, o))

def Issue.validate : Value → Option Issue :=
  oneOf ([.unclearLocation, .blurry, .duplicated].map fun i => (i.text, i))

/-- The field `evaluation`, from 0 to 100. -/
def percent : Value → Option Int := constrained lib.int fun n => 0 ≤ n && n ≤ 100

def PlaceAttachment.validate : Value → Option PlaceAttachment := model fun v => do
  let tripAttachmentId ← required lib.int "trip_attachment_id" v
  let takenAt ← optional none (nullable lib.awareDatetime) "taken_at" v
  let latitude ← required lib.float "latitude" v
  let longitude ← required lib.float "longitude" v
  let regionOrigin ← required RegionOrigin.validate "region_origin" v
  let evaluation ← required (percent lib) "evaluation" v
  -- `_origin_known`
  if regionOrigin = .unknown then none
  else return ⟨tripAttachmentId, takenAt, latitude, longitude, regionOrigin, evaluation⟩

def PlaceAttachment.render (a : PlaceAttachment) : Option Value := do
  let takenAt ← orNull? (renderKst lib) a.takenAt
  return .record [("trip_attachment_id", .int a.tripAttachmentId), ("taken_at", takenAt),
    ("latitude", .float a.latitude), ("longitude", .float a.longitude),
    ("region_origin", .ofString a.regionOrigin.text), ("evaluation", .int a.evaluation)]

def Place.validate : Value → Option Place := model fun v => do
  let placeId ← required str "place_id" v
  let matchedTripPlaceId ← optional none (nullable lib.int) "matched_trip_place_id" v
  let latitude ← required lib.float "latitude" v
  let longitude ← required lib.float "longitude" v
  let firstTakenAt ← optional none (nullable lib.awareDatetime) "first_taken_at" v
  let lastTakenAt ← optional none (nullable lib.awareDatetime) "last_taken_at" v
  let representativeAttachmentId ← required lib.int "representative_attachment_id" v
  let attachments ← required
    (constrained (listOf (PlaceAttachment.validate lib)) fun xs => !xs.isEmpty) "attachments" v
  -- `_representative_in_attachments`
  if representativeAttachmentId ∉ attachments.map PlaceAttachment.tripAttachmentId then none
  else return ⟨placeId, matchedTripPlaceId, latitude, longitude, firstTakenAt, lastTakenAt,
    representativeAttachmentId, attachments⟩

def Place.render (p : Place) : Option Value := do
  let firstTakenAt ← orNull? (renderKst lib) p.firstTakenAt
  let lastTakenAt ← orNull? (renderKst lib) p.lastTakenAt
  let attachments ← renderList? (PlaceAttachment.render lib) p.attachments
  return .record [("place_id", .ofString p.placeId),
    ("matched_trip_place_id", orNull .int p.matchedTripPlaceId), ("latitude", .float p.latitude),
    ("longitude", .float p.longitude), ("first_taken_at", firstTakenAt),
    ("last_taken_at", lastTakenAt),
    ("representative_attachment_id", .int p.representativeAttachmentId),
    ("attachments", attachments)]

def UnclassifiedAttachment.validate : Value → Option UnclassifiedAttachment := model fun v => do
  let tripAttachmentId ← required lib.int "trip_attachment_id" v
  let issue ← required Issue.validate "issue" v
  let placeId ← optional none (nullable str) "place_id" v
  let duplicateOfAttachmentId ← optional none (nullable lib.int) "duplicate_of_attachment_id" v
  let takenAt ← optional none (nullable lib.awareDatetime) "taken_at" v
  let latitude ← optional none (nullable lib.float) "latitude" v
  let longitude ← optional none (nullable lib.float) "longitude" v
  let regionOrigin ← required RegionOrigin.validate "region_origin" v
  let evaluation ← optional none (nullable (percent lib)) "evaluation" v
  -- `_issue_rules`
  if issue = .duplicated ∧ duplicateOfAttachmentId = none then none
  else return ⟨tripAttachmentId, issue, placeId, duplicateOfAttachmentId, takenAt, latitude,
    longitude, regionOrigin, evaluation⟩

def UnclassifiedAttachment.render (a : UnclassifiedAttachment) : Option Value := do
  let takenAt ← orNull? (renderKst lib) a.takenAt
  return .record [("trip_attachment_id", .int a.tripAttachmentId),
    ("issue", .ofString a.issue.text), ("place_id", orNull .ofString a.placeId),
    ("duplicate_of_attachment_id", orNull .int a.duplicateOfAttachmentId), ("taken_at", takenAt),
    ("latitude", orNull .float a.latitude), ("longitude", orNull .float a.longitude),
    ("region_origin", .ofString a.regionOrigin.text), ("evaluation", orNull .int a.evaluation)]

/-- `FailedAttachment`. -/
def failedAttachment : Value → Option Int := model fun v => do
  let tripAttachmentId ← required lib.int "trip_attachment_id" v
  let _ ← required (oneOf [("DECODE_FAILED", ())]) "reason" v
  return tripAttachmentId

def renderFailed (tripAttachmentId : Int) : Value :=
  .record [("trip_attachment_id", .int tripAttachmentId), ("reason", .ofString "DECODE_FAILED")]

def ClockOffset.validate : Value → Option ClockOffset := model fun v => do
  let deviceModel ← required str "device_model" v
  let days ← required lib.int "days" v
  let matchedPairs ← required (constrained lib.int fun n => 0 ≤ n) "matched_pairs" v
  return ⟨deviceModel, days, matchedPairs⟩

def ClockOffset.render (c : ClockOffset) : Value :=
  .record [("device_model", .ofString c.deviceModel), ("days", .int c.days),
    ("matched_pairs", .int c.matchedPairs)]

/-- Every photo a result names, in the order the result names them. -/
def ProcessResult.ids (r : ProcessResult) : List Int :=
  (r.places.flatMap fun p => p.attachments.map PlaceAttachment.tripAttachmentId) ++
    r.unclassified.map UnclassifiedAttachment.tripAttachmentId ++ r.failed

def ProcessResult.validate : Value → Option ProcessResult := model fun v => do
  let places ← required (listOf (Place.validate lib)) "places" v
  let unclassified ← required (listOf (UnclassifiedAttachment.validate lib)) "unclassified" v
  let failed ← optional [] (listOf (failedAttachment lib)) "failed" v
  let clockOffsets ← optional [] (listOf (ClockOffset.validate lib)) "clock_offsets" v
  let result : ProcessResult := ⟨places, unclassified, failed, clockOffsets⟩
  -- `_attachment_ids_unique`
  if result.ids.Nodup then return result else none

/-- `model_dump(mode="json")`. -/
def ProcessResult.render (r : ProcessResult) : Option Value := do
  let places ← renderList? (Place.render lib) r.places
  let unclassified ← renderList? (UnclassifiedAttachment.render lib) r.unclassified
  return .record [("places", places), ("unclassified", unclassified),
    ("failed", renderList renderFailed r.failed),
    ("clock_offsets", renderList ClockOffset.render r.clockOffsets)]

end Yeodam.Schemas
