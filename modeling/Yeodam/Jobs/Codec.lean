/-
What the job store takes from its environment, and how a record passes through
its JSON text (`app/jobs/models.py`).

A record is written with `model_dump_json` and read with `model_validate_json`.
Neither is the identity:

* `dump` fails on nesting beyond `writeNesting` and on an unpaired surrogate, and
  writes a float that is not finite as `null`;
* `load` fails on nesting beyond `readNesting`, and validates the event again:
  `check_payload` puts a result through its schema and renders it again.

`core` is what both keep: every field of the record but the free-form JSON values, which are
the request, the result and the `detail` of an error. Of a result it says only that there is one.
`load_core` and `dump_core` are the lemmas every invariant of the store goes
through.
-/

import Yeodam.Jobs.Messages

namespace Yeodam.Jobs

open Yeodam.Lib Yeodam.Schemas

/-- The deployment: the settings all replicas share and what comes from outside
the program. -/
structure Env where
  cfg : JobsSettings
  /-- `hashlib.sha256(execution_id.encode()).hexdigest()`. -/
  sha256 : String → String
  /-- How many containers around a value `model_validate_json` accepts. It descends into
  no empty one, and neither does `model_dump_json`. -/
  readNesting : Nat
  /-- How many containers around a value `model_dump_json` accepts. -/
  writeNesting : Nat
  libraries : Libraries
  readNesting_ge : 8 ≤ readNesting
  nesting_lt : readNesting < writeNesting

/-- Exceptions a store operation raises. -/
inductive JobError where
  /-- pydantic `ValidationError`. -/
  | validation (message : String)
  /-- pydantic `PydanticSerializationError`. -/
  | serialization
  | value (message : String)
  | type
  | memory
  | app (code : ErrorCode)
deriving DecidableEq, Repr

/-- The exceptions that are `ValueError`s: pydantic's two are subclasses of it. -/
def JobError.isValueError : JobError → Bool
  | .validation _ | .serialization | .value _ => true
  | .type | .memory | .app _ => false

/-- `sys.maxsize`: no text has more bytes. -/
def maxTextBytes : Nat := 2 ^ 63 - 1

variable (env : Env)

/-! ### Events -/

/-- `JobResultEvent.check_payload`, which runs whenever an event is built or read.
The schema's own dump must be finite and encodable text. -/
def JobResultEvent.checkPayload (e : JobResultEvent) : Except JobError JobResultEvent :=
  if decide (e.status = .completed) != e.result.isSome then
    .error (.validation "COMPLETED만 result를 가져야 함")
  else if decide (e.status = .failed) != e.error.isSome then
    .error (.validation "FAILED만 error를 가져야 함")
  else match e.result with
    | none => .ok e
    | some result =>
        match renderResult env.libraries e.type result with
        | none => .error (.validation "result")
        | some result' =>
            if result'.finite && result'.encodable then .ok { e with result := some result' }
            else .error (.validation "result")

/-- The event that replaces one of `size` bytes. -/
def JobResultEvent.tooLarge (e : JobResultEvent) (size : Nat) : JobResultEvent where
  type := e.type
  tripId := e.tripId
  executionId := e.executionId
  status := .failed
  error := some
    { code := .resultTooLarge
      message := resultTooLargeMessage
      detail := .record [("max_bytes", .int resultMaxBytes), ("actual_bytes", .int size)] }

def JobResultEvent.enforceSizeLimit (e : JobResultEvent) : Except JobError JobResultEvent :=
  if e.toValue.nesting ≤ env.writeNesting && e.toValue.encodable then
    if e.byteSize ≤ resultMaxBytes then .ok e
    else if e.byteSize ≤ maxTextBytes then .ok (e.tooLarge e.byteSize)
    else .error .memory
  else .error .serialization

/-! ### Records through their JSON text -/

def ErrorBody.wire (b : ErrorBody) : ErrorBody := { b with detail := b.detail.wire }

def JobResultEvent.wire (e : JobResultEvent) : JobResultEvent :=
  { e with result := e.result.map Value.wire, error := e.error.map ErrorBody.wire }

def JobRecord.wire (r : JobRecord) : JobRecord :=
  { r with request := r.request.wire, event := r.event.map JobResultEvent.wire }

/-- `record.model_dump_json()`, as the record the text denotes. -/
def JobRecord.dump (r : JobRecord) : Except JobError JobRecord :=
  if r.nesting ≤ env.writeNesting && r.encodable then .ok r.wire else .error .serialization

/-- `JobRecord.model_validate_json(raw)`. -/
def JobRecord.load (raw : JobRecord) : Except JobError JobRecord :=
  if raw.nesting ≤ env.readNesting then
    match raw.event with
    | none => .ok raw
    | some e => (e.checkPayload env).map fun e => { raw with event := some e }
  else .error (.validation "recursion limit exceeded")

/-- `PhotoBatchBuffer.model_validate_json(raw)`. -/
def PhotoBatchBuffer.load (raw : PhotoBatchBuffer) : Except JobError PhotoBatchBuffer :=
  if raw.toValue.nesting ≤ env.readNesting then .ok raw
  else .error (.validation "recursion limit exceeded")

/-! ### What the text keeps -/

@[simp] theorem ErrorBody.toValue_wire (b : ErrorBody) : b.wire.toValue = b.toValue.wire := by
  simp [toValue, wire, Value.record, Value.ofString, Value.wire, Value.wireFields]

@[simp] theorem JobResultEvent.toValue_wire (e : JobResultEvent) :
    e.wire.toValue = e.toValue.wire := by
  cases hr : e.result <;> cases he : e.error <;>
    simp [toValue, wire, hr, he, Value.record, Value.ofString, Value.wire, Value.wireFields]

@[simp] theorem JobResultEvent.byteSize_wire (e : JobResultEvent) :
    e.wire.byteSize = e.byteSize := by
  simp [byteSize]

@[simp] theorem JobRecord.nesting_wire (r : JobRecord) : r.wire.nesting = r.nesting := by
  cases he : r.event <;> simp [nesting, wire, he]

@[simp] theorem JobRecord.encodable_wire (r : JobRecord) : r.wire.encodable = r.encodable := by
  cases he : r.event <;> simp [encodable, wire, he]

/-- An event without its free-form values: of its result it is kept only that there is one. -/
def JobResultEvent.core (e : JobResultEvent) : JobResultEvent :=
  { e with
    result := e.result.map fun _ => .null
    error := e.error.map fun b => { b with detail := .null } }

/-- A record without its free-form values. -/
def JobRecord.core (r : JobRecord) : JobRecord :=
  { r with request := .null, event := r.event.map JobResultEvent.core }

variable {env}

theorem JobResultEvent.checkPayload_core {e e' : JobResultEvent}
    (h : e.checkPayload env = .ok e') : e'.core = e.core := by
  unfold checkPayload at h
  split at h
  · cases h
  split at h
  · cases h
  split at h
  · cases h
    rfl
  · rename_i result hres
    split at h
    · cases h
    split at h
    · cases h
      simp [core, hres]
    · cases h

theorem JobRecord.load_core {raw r : JobRecord} (h : raw.load env = .ok r) :
    r.core = raw.core := by
  unfold load at h
  split at h
  · split at h
    · cases h
      rfl
    · rename_i e he
      cases hc : e.checkPayload env with
      | error err => simp [hc, Except.map] at h
      | ok e' =>
          simp only [hc, Except.map, Except.ok.injEq] at h
          subst h
          simp [core, he, JobResultEvent.checkPayload_core hc]
  · cases h

theorem JobRecord.dump_core {r stored : JobRecord} (h : r.dump env = .ok stored) :
    stored.core = r.core := by
  unfold dump at h
  split at h
  · cases h
    cases he : r.event with
    | none => simp [core, wire, he]
    | some e => simp [core, wire, he, JobResultEvent.core, JobResultEvent.wire, ErrorBody.wire,
        Function.comp_def]
  · cases h

end Yeodam.Jobs
