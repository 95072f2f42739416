/-
The request intake (`RequestReceiver` in `app/jobs/kafka.py`): what becomes of one Kafka
message.

`parse` is what the receiver reads in a message, `accept` what it does with it: one
transaction on the job store, or the count of a validation failure and, from the third
on, the dead-letter topic. Redis and the producer may fail at each of these
(`Faults`), and a transaction that failed may have been carried out.

The receiver checks no nesting. Whether a message can be survived therefore depends on
the two JSON encoders: see `survives_iff`.
-/

import Yeodam.Jobs.Outcomes

namespace Yeodam.Jobs

open Yeodam.Lib Yeodam.Schemas

/-! ### Messages -/

structure Incoming where
  topic : String
  partition : Nat
  offset : Nat
  key : Option ByteArray
  value : Option ByteArray

/-- The `json` module. -/
structure JsonLibrary where
  /-- Container nesting `loads` and `dumps` accept. -/
  nesting : Nat
  /-- `json.loads`; `none` where it raises a `ValueError` or a `RecursionError`. -/
  loads : ByteArray → Option Value
  loads_nesting : ∀ bytes v, loads bytes = some v → v.depth ≤ nesting
  /-- An integer of more digits is a `ValueError`. -/
  loads_digits : ∀ bytes v n, loads bytes = some v → v.get? "trip_id" = some (.int n) →
    (toString n).length ≤ 4300

/-- `json.dumps(data, ensure_ascii=False, allow_nan=False).encode("utf-8")` succeeds. -/
def JsonLibrary.dumps (json : JsonLibrary) (v : Value) : Bool :=
  v.depth ≤ json.nesting && v.finite && v.encodable

/-- Why a message is rejected: `"invalid_json"`, `"invalid_envelope"`,
`"invalid_identity_or_route"` and `"invalid_photos_ready"`. -/
inductive RejectReason where
  | json
  | envelope
  | identityOrRoute
  | photosReady
deriving DecidableEq, Repr

def allowedTypes : JobKind → List String
  | .process => ["process", "photos_ready"]
  | .story => ["story"]

/-- The fields that identify an execution, checked. -/
structure Envelope where
  tripId : Int
  executionId : String
  type : String
  trip_pos : 0 < tripId
  trip_digits : (toString tripId).length ≤ 4300
  execution_length : 1 ≤ executionId.length ∧ executionId.length ≤ 128

def envelope (kind : JobKind) (m : Incoming) (data : Value)
    (hdigits : ∀ n, data.get? "trip_id" = some (.int n) → (toString n).length ≤ 4300) :
    Option Envelope :=
  match htrip : data.get? "trip_id", data.get? "execution_id", data.get? "type" with
  | some (.int tripId), some (.str (.text executionId)), some (.str (.text type)) =>
      if h : 0 < tripId ∧ 1 ≤ executionId.length ∧ executionId.length ≤ 128 ∧
          type ∈ allowedTypes kind ∧ m.key = some (toString tripId).toUTF8 then
        some ⟨tripId, executionId, type, h.1, hdigits tripId htrip, h.2.1, h.2.2.1⟩
      else none
  | _, _, _ => none

/-! ### `photos_ready` -/

def ReadyAttachment.validate (lib : Libraries) : Value → Option ReadyAttachment := model fun v => do
  let tripAttachmentId ← required (positive lib) "trip_attachment_id" v
  let analyzeStorageKey ← required (strBetween 1 1024) "analyze_storage_key" v
  if h : 0 < tripAttachmentId ∧
      (1 ≤ analyzeStorageKey.length ∧ analyzeStorageKey.length ≤ 1024) ∧
      analyzeStorageKey.utf8ByteSize ≤ 1024 then
    return ⟨tripAttachmentId, analyzeStorageKey, h.1, h.2.1, h.2.2⟩
  else none

def PhotosReadyMessage.validate (lib : Libraries) : Value → Option PhotosReadyMessage :=
  model fun v => do
    let _ ← required (oneOf [("photos_ready", ())]) "type" v
    let tripId ← required (positive lib) "trip_id" v
    let executionId ← required (strBetween 1 128) "execution_id" v
    let batchNo ← required (positive lib) "batch_no" v
    let attachments ← required (listUpTo (ReadyAttachment.validate lib) 16) "attachments" v
    if h : 0 < tripId ∧ (1 ≤ executionId.length ∧ executionId.length ≤ 128) ∧ 0 < batchNo ∧
        (1 ≤ attachments.length ∧ attachments.length ≤ 16) ∧
        (attachments.map ReadyAttachment.tripAttachmentId).Nodup then
      return ⟨tripId, executionId, batchNo, attachments, h.1, h.2.1, h.2.2.1, h.2.2.2.1,
        h.2.2.2.2⟩
    else none

/-! ### What a message asks for -/

inductive Request where
  | photos (message : PhotosReadyMessage)
  | job (request : Intake)

/-- The record to register: the rendered body, or the body as it came where it fails its
schema. -/
def Envelope.intake (lib : Libraries) (kind : JobKind) (resultTopic : String) (m : Incoming)
    (data : Value) (e : Envelope) : Intake :=
  let rendered := renderMessage lib data
  let request := rendered.getD data
  { tripId := e.tripId
    kind := kind
    executionId := e.executionId
    request := request
    requestTopic := m.topic
    resultTopic := resultTopic
    total := match kind with
      | .story => 4
      | .process => (((request.get? "attachments").map Value.items).getD []).length
    invalid := rendered.isNone
    trip_pos := e.trip_pos
    trip_digits := e.trip_digits
    execution_length := e.execution_length }

def parse (env : Env) (json : JsonLibrary) (kind : JobKind) (resultTopic : String) (m : Incoming) :
    Except RejectReason Request :=
  match hdata : json.loads (m.value.getD .empty) with
  | none => .error .json
  | some data =>
      if !json.dumps data then .error .json
      else if !data.isObj then .error .envelope
      else match envelope kind m data fun n => json.loads_digits _ data n hdata with
        | none => .error .identityOrRoute
        | some e =>
            if e.type = "photos_ready" then
              match PhotosReadyMessage.validate env.libraries data with
              | none => .error .photosReady
              | some message => .ok (.photos message)
            else .ok (.job (e.intake env.libraries kind resultTopic m data))

/-! ### Accepting a message -/

/-- A message in a dead-letter topic. -/
structure DeadLetter where
  source : Incoming
  reason : RejectReason

/-- What the receiver works on: the job store, the counts of validation failures under
`invalid:<sha256>`, and the dead-letter topics. -/
structure Services where
  store : Store
  invalid : String → Option (Expiring Nat)
  deadLetters : List DeadLetter

/-- How Redis fares with a transaction: it answers, it fails before `EXEC`, or it carries
the transaction out and the answer is lost. -/
inductive RedisFault where
  | none
  | lost
  | unanswered
deriving DecidableEq

/-- What an exception of the producer is an instance of; a timeout is an `OSError`. -/
inductive SendError where
  | tooLarge
  | kafka
  | os
deriving DecidableEq

/-- What the producer reports, and whether the broker has the message all the same. -/
inductive SendOutcome where
  | acknowledged
  | failed (error : SendError) (appended : Bool)
deriving DecidableEq

structure Faults where
  store : RedisFault := .none
  counter : RedisFault := .none
  send : SendOutcome := .acknowledged

inductive Raised where
  | invalidMessage (reason : RejectReason)
  | redis
  | send (error : SendError)
  | job (error : JobError)
deriving DecidableEq

/-- `consume_requests` has a handler for the exception. -/
def Raised.handled : Raised → Bool
  | .invalidMessage _ | .redis | .send _ => true
  | .job _ => false

inductive Outcome where
  | stored (reply : Reply)
  | quarantined
  | raised (exception : Raised)

def Outcome.handled : Outcome → Bool
  | .stored _ | .quarantined => true
  | .raised e => e.handled

/-- A transaction on the store under a fault. What the program itself raises, it raises
before `EXEC`. -/
def transact (fault : RedisFault) (s : Store) (result : Except JobError (Reply × Store)) :
    Outcome × Store :=
  match fault, result with
  | .lost, _ => (.raised .redis, s)
  | _, .error e => (.raised (.job e), s)
  | .none, .ok (reply, s') => (.stored reply, s')
  | .unanswered, .ok (_, s') => (.raised .redis, s')

variable (env : Env) (json : JsonLibrary)

/-- What the receiver makes of a message before it rejects: a validation failure, or the
outcome of the transaction. -/
inductive Verdict where
  | invalid (reason : RejectReason)
  | settled (outcome : Outcome) (store : Store)

def examine (m : Incoming) (fault : RedisFault) (now : Time) (s : Store) : Verdict :=
  match env.cfg.topics.lookup m.topic with
  | none => .settled (.raised (.job (.value "허용하지 않은 요청 토픽"))) s
  | some (kind, resultTopic) =>
      match parse env json kind resultTopic m with
      | .error reason => .invalid reason
      | .ok (.photos message) =>
          match transact fault s (perform env now s (.stagePhotos message m.topic)) with
          | (.raised (.job e), s') =>
              if e.isValueError then .invalid .photosReady
              else .settled (.raised (.job e)) s'
          | (outcome, s') => .settled outcome s'
      | .ok (.job q) =>
          let (outcome, s') := transact fault s (perform env now s (.register q))
          .settled outcome s'

/-- `f"{topic}:{partition}:{offset}"`. -/
def Incoming.source (m : Incoming) : String :=
  m.topic ++ ":" ++ toString m.partition ++ ":" ++ toString m.offset

/-- The count under a key, unless its time is over. -/
def Services.attempts (services : Services) (key : String) (now : Time) : Nat :=
  (((services.invalid key).filter fun n => now < n.expireAt).map Expiring.value).getD 0

/-- `set(key, attempts, ex=30 * 86400)`. -/
def Services.count (services : Services) (key : String) (attempts : Nat) (now : Time) : Services :=
  { services with
    invalid := Function.update services.invalid key
      (some { value := attempts, expireAt := now + 30 * 86400 }) }

def quarantine (m : Incoming) (reason : RejectReason) (send : SendOutcome) (services : Services) :
    Outcome × Services :=
  let appended : Services := { services with deadLetters := ⟨m, reason⟩ :: services.deadLetters }
  match send with
  | .acknowledged => (.quarantined, appended)
  | .failed e reached => (.raised (.send e), if reached then appended else services)

/-- What becomes of a message whose validation failure is counted. -/
inductive Strike where
  | unanswered
  | again
  | last
deriving DecidableEq

/-- The count in `reject`. -/
def strike (m : Incoming) (fault : RedisFault) (now : Time) (services : Services) :
    Strike × Services :=
  let key := env.sha256 m.source
  let attempts := min 3 (services.attempts key now + 1)
  match fault with
  | .lost => (.unanswered, services)
  | .unanswered => (.unanswered, services.count key attempts now)
  | .none => (if attempts < 3 then .again else .last, services.count key attempts now)

def reject (m : Incoming) (reason : RejectReason) (faults : Faults) (now : Time)
    (services : Services) : Outcome × Services :=
  match strike env m faults.counter now services with
  | (.unanswered, services) => (.raised .redis, services)
  | (.again, services) => (.raised (.invalidMessage reason), services)
  | (.last, services) => quarantine m reason faults.send services

def accept (m : Incoming) (faults : Faults) (now : Time) (services : Services) :
    Outcome × Services :=
  match examine env json m faults.store now services.store with
  | .invalid reason => reject env m reason faults now services
  | .settled outcome s' => (outcome, { services with store := s' })

/-! ### What becomes of the store -/

variable {env} {m : Incoming} {now : Time}

theorem strike_store (fault : RedisFault) (services : Services) :
    (strike env m fault now services).2.store = services.store := by
  cases fault <;> rfl

theorem quarantine_store (reason : RejectReason) (send : SendOutcome) (services : Services) :
    (quarantine m reason send services).2.store = services.store := by
  cases send with
  | acknowledged => rfl
  | failed e reached => cases reached <;> rfl

theorem reject_store (reason : RejectReason) (faults : Faults) (services : Services) :
    (reject env m reason faults now services).2.store = services.store := by
  have hstore : (strike env m faults.counter now services).2.store = services.store :=
    strike_store faults.counter services
  unfold reject
  cases hstrike : strike env m faults.counter now services with
  | mk strike counted =>
      rw [hstrike] at hstore
      cases strike with
      | unanswered | again => exact hstore
      | last => exact (quarantine_store reason faults.send counted).trans hstore

theorem transact_store (fault : RedisFault) (s : Store)
    (result : Except JobError (Reply × Store)) :
    (transact fault s result).2 = s ∨
      ∃ reply, result = .ok (reply, (transact fault s result).2) := by
  unfold transact
  split
  · exact .inl rfl
  · exact .inl rfl
  · exact .inr ⟨_, rfl⟩
  · exact .inr ⟨_, rfl⟩

/-! ### A request for a job -/

variable {json : JsonLibrary} {kind : JobKind} {resultTopic : String} {data : Value} {e : Envelope}
  {q : Intake}

theorem envelope_key
    {hdigits : ∀ n, data.get? "trip_id" = some (.int n) → (toString n).length ≤ 4300}
    (h : envelope kind m data hdigits = some e) : m.key = some (toString e.tripId).toUTF8 := by
  unfold envelope at h
  split at h
  · split at h
    · rename_i hvalid
      cases h
      exact hvalid.2.2.2.2
    · cases h
  · cases h

/-- The body of a request for a job was read and can be dumped, and the key is its trip. -/
theorem parse_job (h : parse env json kind resultTopic m = .ok (.job q)) :
    ∃ data e, json.loads (m.value.getD .empty) = some data ∧ json.dumps data = true ∧
      m.key = some (toString e.tripId).toUTF8 ∧
      q = Envelope.intake env.libraries kind resultTopic m data e := by
  unfold parse at h
  split at h
  · cases h
  rename_i data hdata
  split at h
  · cases h
  rename_i hdumps
  split at h
  · cases h
  split at h
  · cases h
  rename_i e he
  split at h
  · split at h <;> cases h
  · cases h
    exact ⟨data, e, hdata, by simpa using hdumps, envelope_key he, rfl⟩

end Yeodam.Jobs
