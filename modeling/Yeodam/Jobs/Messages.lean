/-
The messages of the request topics and the result of a story (`app/jobs/models.py`).

`MESSAGE` validates a `process` or `story` body; what is stored is its rendering, which
knows only the fields of the schema, so its nesting is bounded (`nesting_renderMessage`).
-/

import Yeodam.Schemas.Process
import Yeodam.Jobs.Models

namespace Yeodam.Jobs

open Yeodam.Lib Yeodam.Schemas

variable (lib : Libraries)

/-- `int` greater than 0. -/
def positive : Value → Option Int := constrained lib.int fun n => 0 < n

/-- `str` of at least `lo` and at most `hi` characters. -/
def strBetween (lo hi : Nat) : Value → Option String :=
  constrained str fun s => lo ≤ s.length && s.length ≤ hi

/-- `list[X]` of at least 1 and at most `hi` members. -/
def listUpTo {α : Type} (decode : Value → Option α) (hi : Nat) : Value → Option (List α) :=
  constrained (listOf decode) fun xs => 1 ≤ xs.length && xs.length ≤ hi

/-! ### `process` -/

inductive Trigger where
  | tripCreated
  | photosAdded
deriving DecidableEq

def Trigger.text : Trigger → String
  | .tripCreated => "TRIP_CREATED"
  | .photosAdded => "PHOTOS_ADDED"

def Trigger.validate : Value → Option Trigger :=
  oneOf ([.tripCreated, .photosAdded].map fun t => (t.text, t))

/-- `original_input_only` empties `existing_places`, so no field keeps them. -/
structure ProcessMessage where
  executionId : String
  tripName : String
  period : Period
  regions : List Region
  attachments : List ProcessAttachment
  tripId : Int
  trigger : Trigger

def ProcessMessage.validate : Value → Option ProcessMessage := model fun v => do
  let executionId ← required (strBetween 1 128) "execution_id" v
  let tripName ← required (strBetween 1 10) "trip_name" v
  let period ← required (Period.validate lib) "period" v
  let regions ← required (listUpTo (Region.validate lib) 10) "regions" v
  let attachments ← required (listUpTo (ProcessAttachment.validate lib) 200) "attachments" v
  let _ ← optional [] (listOf (existingPlace lib)) "existing_places" v
  let _ ← required (oneOf [("process", ())]) "type" v
  let tripId ← required (positive lib) "trip_id" v
  let trigger ← required Trigger.validate "trigger" v
  return ⟨executionId, tripName, period, regions, attachments, tripId, trigger⟩

def ProcessMessage.render (m : ProcessMessage) : Value :=
  .record [("execution_id", .ofString m.executionId), ("trip_name", .ofString m.tripName),
    ("period", m.period.render lib), ("regions", renderList Region.render m.regions),
    ("attachments", renderList (ProcessAttachment.render lib) m.attachments),
    ("existing_places", .arr []), ("type", .ofString "process"), ("trip_id", .int m.tripId),
    ("trigger", .ofString m.trigger.text)]

/-! ### `story` -/

inductive Mood where
  | plain
  | emotional
  | humorous
  | calm
  | literary
deriving DecidableEq

def Mood.text : Mood → String
  | .plain => "PLAIN"
  | .emotional => "EMOTIONAL"
  | .humorous => "HUMOROUS"
  | .calm => "CALM"
  | .literary => "LITERARY"

def Mood.validate : Value → Option Mood :=
  oneOf ([.plain, .emotional, .humorous, .calm, .literary].map fun m => (m.text, m))

structure StoryAttachment where
  tripAttachmentId : Int
  analyzeStorageKey : String
  takenAt : AwareTime
  evaluation : Option Int

structure StoryPlace where
  tripPlaceId : Int
  placeName : String
  attachments : List StoryAttachment

structure StoryMessage where
  tripId : Int
  executionId : String
  tripName : String
  period : Period
  mood : Mood
  places : List StoryPlace

def StoryAttachment.validate : Value → Option StoryAttachment := model fun v => do
  let tripAttachmentId ← required (positive lib) "trip_attachment_id" v
  let analyzeStorageKey ←
    required (constrained str fun s => 1 ≤ s.length) "analyze_storage_key" v
  let takenAt ← required lib.awareDatetime "taken_at" v
  let evaluation ← optional none (nullable (percent lib)) "evaluation" v
  return ⟨tripAttachmentId, analyzeStorageKey, takenAt, evaluation⟩

def StoryAttachment.render (a : StoryAttachment) : Value :=
  .record [("trip_attachment_id", .int a.tripAttachmentId),
    ("analyze_storage_key", .ofString a.analyzeStorageKey),
    ("taken_at", .ofString (lib.renderTime a.takenAt)), ("evaluation", orNull .int a.evaluation)]

def StoryPlace.validate : Value → Option StoryPlace := model fun v => do
  let tripPlaceId ← required (positive lib) "trip_place_id" v
  let placeName ← required str "place_name" v
  let attachments ← required (listUpTo (StoryAttachment.validate lib) 200) "attachments" v
  return ⟨tripPlaceId, placeName, attachments⟩

def StoryPlace.render (p : StoryPlace) : Value :=
  .record [("trip_place_id", .int p.tripPlaceId), ("place_name", .ofString p.placeName),
    ("attachments", renderList (StoryAttachment.render lib) p.attachments)]

def StoryMessage.validate : Value → Option StoryMessage := model fun v => do
  let _ ← required (oneOf [("story", ())]) "type" v
  let tripId ← required (positive lib) "trip_id" v
  let executionId ← required (strBetween 1 128) "execution_id" v
  let tripName ← required (strBetween 1 10) "trip_name" v
  let period ← required (Period.validate lib) "period" v
  let mood ← required Mood.validate "mood" v
  let places ← required (listUpTo (StoryPlace.validate lib) 10) "places" v
  return ⟨tripId, executionId, tripName, period, mood, places⟩

def StoryMessage.render (m : StoryMessage) : Value :=
  .record [("type", .ofString "story"), ("trip_id", .int m.tripId),
    ("execution_id", .ofString m.executionId), ("trip_name", .ofString m.tripName),
    ("period", m.period.render lib), ("mood", .ofString m.mood.text),
    ("places", renderList (StoryPlace.render lib) m.places)]

/-! ### `MESSAGE` -/

/-- `MESSAGE.validate_python(data).model_dump(mode="json")`, the union discriminated by
`type`; `none` when the body fails its schema. -/
def renderMessage (data : Value) : Option Value :=
  match (data.get? "type").bind str with
  | some "process" => (ProcessMessage.validate lib data).map (ProcessMessage.render lib)
  | some "story" => (StoryMessage.validate lib data).map (StoryMessage.render lib)
  | _ => none

/-! ### Results of a story -/

structure StoryBlock where
  orderNumber : Int
  tripPlaceId : Int
  tripAttachmentId : Int
  dayLabel : String
  detailSummary : String
  memo : String

structure StoryResult where
  storySummary : String
  blocks : List StoryBlock
  /-- `verification`: whether it passed, and the retries. -/
  passed : Bool
  retryCount : Int

/-- A `StrictModel`: an object without other keys. -/
def strictModel {α : Type} (keys : List String) (decode : Value → Option α) (v : Value) :
    Option α :=
  if onlyKeys keys v then model decode v else none

def StoryBlock.validate : Value → Option StoryBlock :=
  strictModel ["order_number", "trip_place_id", "trip_attachment_id", "day_label",
    "detail_summary", "memo"] fun v => do
    let orderNumber ← required (positive lib) "order_number" v
    let tripPlaceId ← required lib.int "trip_place_id" v
    let tripAttachmentId ← required lib.int "trip_attachment_id" v
    let dayLabel ← required (strBetween 0 40) "day_label" v
    let detailSummary ← required (strBetween 0 40) "detail_summary" v
    let memo ← required (strBetween 0 125) "memo" v
    return ⟨orderNumber, tripPlaceId, tripAttachmentId, dayLabel, detailSummary, memo⟩

def StoryBlock.render (b : StoryBlock) : Value :=
  .record [("order_number", .int b.orderNumber), ("trip_place_id", .int b.tripPlaceId),
    ("trip_attachment_id", .int b.tripAttachmentId), ("day_label", .ofString b.dayLabel),
    ("detail_summary", .ofString b.detailSummary), ("memo", .ofString b.memo)]

/-- `Verification`. -/
def verification : Value → Option (Bool × Int) :=
  strictModel ["passed", "retry_count"] fun v => do
    let passed ← required bool "passed" v
    let retryCount ← required (constrained lib.int fun n => 0 ≤ n) "retry_count" v
    return (passed, retryCount)

def StoryResult.validate : Value → Option StoryResult :=
  strictModel ["story_summary", "blocks", "verification"] fun v => do
    let storySummary ← required (strBetween 0 40) "story_summary" v
    let blocks ← required (listUpTo (StoryBlock.validate lib) 30) "blocks" v
    let (passed, retryCount) ← required (verification lib) "verification" v
    return ⟨storySummary, blocks, passed, retryCount⟩

def StoryResult.render (r : StoryResult) : Value :=
  .record [("story_summary", .ofString r.storySummary),
    ("blocks", renderList StoryBlock.render r.blocks),
    ("verification", .record [("passed", .bool r.passed), ("retry_count", .int r.retryCount)])]

/-- A result validated by the schema of its event type and dumped with `mode="json"`;
`none` when the schema rejects it or a time in it cannot be dumped. -/
def renderResult (type : EventType) (result : Value) : Option Value :=
  match type with
  | .processResult => (ProcessResult.validate lib result).bind (ProcessResult.render lib)
  | .storyResult => (StoryResult.validate lib result).map StoryResult.render

/-! ### What is rendered is shallow -/

theorem nesting_record {fields : List (String × Value)} {n : Nat}
    (h : ∀ f ∈ fields, f.2.nesting ≤ n) : (Value.record fields).nesting ≤ 1 + n := by
  simp only [Value.record, Value.nesting]
  induction fields with
  | nil => exact Nat.zero_le _
  | cons f fields ih =>
      simp only [List.map_cons, Value.nestingFields]
      have hfirst := Nat.add_le_add_left (h f List.mem_cons_self) 1
      exact max_le hfirst (ih fun g hg => h g (List.mem_cons_of_mem _ hg))

theorem nesting_flat {fields : List (String × Value)} (h : ∀ f ∈ fields, f.2.nesting = 0) :
    (Value.record fields).nesting ≤ 1 :=
  nesting_record fun f hf => (h f hf).le

theorem nesting_renderList {α : Type} {render : α → Value} {n : Nat} (xs : List α)
    (h : ∀ x, (render x).nesting ≤ n) : (renderList render xs).nesting ≤ 1 + n := by
  simp only [renderList, Value.nesting]
  induction xs with
  | nil => exact Nat.zero_le _
  | cons x xs ih =>
      simp only [List.map_cons, Value.nestingList]
      exact max_le (Nat.add_le_add_left (h x) 1) ih

theorem nesting_orNull {α : Type} {render : α → Value} (h : ∀ x, (render x).nesting = 0)
    (x : Option α) : (orNull render x).nesting = 0 := by
  cases x with
  | none => rfl
  | some x => exact h x

@[simp] theorem nesting_ofString (s : String) : (Value.ofString s).nesting = 0 := rfl
@[simp] theorem nesting_int (n : Int) : (Value.int n).nesting = 0 := rfl
@[simp] theorem nesting_float (x : PyFloat) : (Value.float x).nesting = 0 := rfl

theorem nesting_period (p : Period) : (p.render lib).nesting ≤ 1 := nesting_flat (by simp)

theorem nesting_region (r : Region) : r.render.nesting ≤ 1 := nesting_flat (by simp)

theorem nesting_processAttachment (a : ProcessAttachment) : (a.render lib).nesting ≤ 1 := by
  have hfloat := nesting_orNull nesting_float
  have hstring := nesting_orNull nesting_ofString
  have htime := nesting_orNull fun t => nesting_ofString (lib.renderTime t)
  exact nesting_flat (by simp [hfloat, hstring, htime])

theorem nesting_storyAttachment (a : StoryAttachment) : (a.render lib).nesting ≤ 1 := by
  have hint := nesting_orNull nesting_int
  exact nesting_flat (by simp [hint])

theorem nesting_storyPlace (p : StoryPlace) : (p.render lib).nesting ≤ 3 := by
  have hlist := nesting_renderList p.attachments (nesting_storyAttachment lib)
  exact nesting_record (n := 2) (by simpa using hlist)

/-- A valid body is stored with at most five levels of nesting. -/
theorem nesting_renderMessage {data request : Value} (h : renderMessage lib data = some request) :
    request.nesting ≤ 5 := by
  unfold renderMessage at h
  split at h
  · obtain ⟨m, -, rfl⟩ := Option.map_eq_some_iff.mp h
    have hregions := nesting_renderList m.regions nesting_region
    have hattachments := nesting_renderList m.attachments (nesting_processAttachment lib)
    have hperiod := nesting_period lib m.period
    apply nesting_record (n := 4)
    simp [Value.nesting, Value.nestingList]
    omega
  · obtain ⟨m, -, rfl⟩ := Option.map_eq_some_iff.mp h
    have hplaces := nesting_renderList m.places (nesting_storyPlace lib)
    have hperiod := nesting_period lib m.period
    apply nesting_record (n := 4)
    simp
    omega
  · cases h

/-! ### What is rendered is text -/

theorem encodable_record {fields : List (String × Value)}
    (h : ∀ f ∈ fields, f.2.encodable = true) : (Value.record fields).encodable = true := by
  simp only [Value.record, Value.encodable]
  induction fields with
  | nil => rfl
  | cons f fields ih =>
      have hf := h f List.mem_cons_self
      have hrest := ih fun g hg => h g (List.mem_cons_of_mem _ hg)
      simp [Value.encodableFields, PyStr.encodable, hf, hrest]

theorem encodable_renderList {α : Type} {render : α → Value} (xs : List α)
    (h : ∀ x, (render x).encodable = true) : (renderList render xs).encodable = true := by
  simp only [renderList, Value.encodable]
  induction xs with
  | nil => rfl
  | cons x xs ih => simp [Value.encodableList, h x, ih]

theorem encodable_orNull {α : Type} {render : α → Value} (h : ∀ x, (render x).encodable = true)
    (x : Option α) : (orNull render x).encodable = true := by
  cases x with
  | none => rfl
  | some x => exact h x

@[simp] theorem encodable_ofString (s : String) : (Value.ofString s).encodable = true := rfl
@[simp] theorem encodable_int (n : Int) : (Value.int n).encodable = true := rfl
@[simp] theorem encodable_float (x : PyFloat) : (Value.float x).encodable = true := rfl

theorem encodable_period (p : Period) : (p.render lib).encodable = true :=
  encodable_record (by simp)

theorem encodable_processAttachment (a : ProcessAttachment) :
    (a.render lib).encodable = true := by
  have hfloat := encodable_orNull encodable_float
  have hstring := encodable_orNull encodable_ofString
  have htime := encodable_orNull fun t => encodable_ofString (lib.renderTime t)
  exact encodable_record (by simp [hfloat, hstring, htime])

theorem encodable_storyPlace (p : StoryPlace) : (p.render lib).encodable = true := by
  have hattachment : ∀ a : StoryAttachment, (a.render lib).encodable = true := by
    intro a
    have hint := encodable_orNull encodable_int
    exact encodable_record (by simp [hint])
  exact encodable_record (by simp [encodable_renderList p.attachments hattachment])

/-- A valid body is stored as text. -/
theorem encodable_renderMessage {data request : Value} (h : renderMessage lib data = some request) :
    request.encodable = true := by
  unfold renderMessage at h
  split at h
  · obtain ⟨m, -, rfl⟩ := Option.map_eq_some_iff.mp h
    have hregions := encodable_renderList m.regions fun r : Region =>
      encodable_record (by simp :
        ∀ f ∈ [("latitude", Value.float r.latitude), ("longitude", Value.float r.longitude)],
          f.2.encodable = true)
    have hattachments := encodable_renderList m.attachments (encodable_processAttachment lib)
    apply encodable_record
    simp [encodable_period, hattachments, Value.encodable, Value.encodableList]
    exact hregions
  · obtain ⟨m, -, rfl⟩ := Option.map_eq_some_iff.mp h
    have hplaces := encodable_renderList m.places (encodable_storyPlace lib)
    exact encodable_record (by simp [encodable_period, hplaces])
  · cases h

end Yeodam.Jobs
