/-
Records and messages of the v2 jobs (`app/jobs/models.py`, `app/schemas/task.py`,
`app/core/errors.py`).

* `JobRecord` is the shared record of one execution, `JobResultEvent` the result
  event it ends with.
* `PhotosReadyMessage` and `PhotoBatchBuffer` are the upload batches kept before a
  `process` request arrives.
* `identity` is the text that names an execution in every key.

A record is kept as the value its JSON text denotes, so the free-form parts
(`request`, an event's `result`, an error's `detail`) are `Value`s and the text
length of an event is `JobResultEvent.byteSize`.
-/

import Yeodam.Lib.Json
import Yeodam.Jobs.Config

namespace Yeodam.Jobs

open Yeodam.Lib

/-! ### Statuses and error codes -/

inductive TaskStatus where
  | queued
  | processing
  | completed
  | failed
  | canceled
deriving DecidableEq, Repr

/-- Membership in `TERMINAL_STATUSES`. -/
def TaskStatus.terminal : TaskStatus → Bool
  | .completed | .failed | .canceled => true
  | .queued | .processing => false

inductive TerminalStatus where
  | completed
  | failed
  | canceled
deriving DecidableEq, Repr

/-- `TaskStatus(event.status)`. -/
def TerminalStatus.toTaskStatus : TerminalStatus → TaskStatus
  | .completed => .completed
  | .failed => .failed
  | .canceled => .canceled

def TerminalStatus.text : TerminalStatus → String
  | .completed => "COMPLETED"
  | .failed => "FAILED"
  | .canceled => "CANCELED"

@[simp] theorem TerminalStatus.terminal_toTaskStatus (t : TerminalStatus) :
    t.toTaskStatus.terminal = true := by
  cases t <;> rfl

theorem TerminalStatus.toTaskStatus_injective {t u : TerminalStatus}
    (h : t.toTaskStatus = u.toTaskStatus) : t = u := by
  cases t <;> cases u <;> first | rfl | cases h

/-- The error codes of jobs, tasks and the intake. -/
inductive ErrorCode where
  | invalidRequest
  | duplicateTask
  | taskNotCancelable
  | taskNotFound
  | rateLimited
  | modelNotReady
  | vlmUnavailable
  | downloadFailed
  | workerDead
  | timeout
  | internalError
  | resultTooLarge
  | canceled
  | decodeFailed
  | workerBusy
deriving DecidableEq, Repr

def ErrorCode.text : ErrorCode → String
  | .invalidRequest => "INVALID_REQUEST"
  | .duplicateTask => "DUPLICATE_TASK"
  | .taskNotCancelable => "TASK_NOT_CANCELABLE"
  | .taskNotFound => "TASK_NOT_FOUND"
  | .rateLimited => "RATE_LIMITED"
  | .modelNotReady => "MODEL_NOT_READY"
  | .vlmUnavailable => "VLM_UNAVAILABLE"
  | .downloadFailed => "DOWNLOAD_FAILED"
  | .workerDead => "WORKER_DEAD"
  | .timeout => "TIMEOUT"
  | .internalError => "INTERNAL_ERROR"
  | .resultTooLarge => "RESULT_TOO_LARGE"
  | .canceled => "CANCELED"
  | .decodeFailed => "DECODE_FAILED"
  | .workerBusy => "WORKER_BUSY"

/-- `DEFAULT_MESSAGE[RESULT_TOO_LARGE]`. -/
def resultTooLargeMessage : String := "작업 결과가 허용된 크기를 초과했습니다."

/-- `DEFAULT_MESSAGE`. -/
def ErrorCode.defaultMessage : ErrorCode → String
  | .invalidRequest => "요청 형식이 올바르지 않습니다."
  | .duplicateTask => "같은 여행의 작업이 진행 중입니다."
  | .taskNotCancelable => "이미 종료된 작업은 취소할 수 없습니다."
  | .taskNotFound => "작업 기록이 없습니다. 다시 요청해 주세요."
  | .rateLimited => "대기열이 가득 찼습니다. 잠시 후 다시 요청해 주세요."
  | .modelNotReady => "모델 적재가 끝나지 않았습니다."
  | .vlmUnavailable => "스토리 생성 서버를 사용할 수 없습니다."
  | .downloadFailed => "사본 다운로드에 실패했습니다."
  | .workerDead => "워커 응답이 끊겼습니다."
  | .timeout => "처리 시간 상한을 초과했습니다."
  | .internalError => "내부 오류가 발생했습니다."
  | .resultTooLarge => resultTooLargeMessage
  | .canceled => "작업이 취소되었습니다."
  | .decodeFailed => "이미지 디코딩에 실패했습니다."
  | .workerBusy => "워커가 다른 작업을 실행 중입니다."

structure Progress where
  done : Nat
  total : Nat
deriving DecidableEq, Repr

structure ErrorBody where
  code : ErrorCode
  message : String
  detail : Value := .obj []
deriving Repr

def ErrorBody.toValue (e : ErrorBody) : Value :=
  .record [("code", .ofString e.code.text), ("message", .ofString e.message),
    ("detail", e.detail)]

/-! ### Result events -/

/-- `RESULT_MAX_BYTES`. -/
def resultMaxBytes : Nat := 512 * 1024

/-- `PHOTOS_READY_MAX_BYTES`. -/
def photosReadyMaxBytes : Nat := 2 * 1024 * 1024

inductive EventType where
  | processResult
  | storyResult
deriving DecidableEq, Repr

/-- `f"{kind}_result"`. -/
def JobKind.eventType : JobKind → EventType
  | .process => .processResult
  | .story => .storyResult

def EventType.text : EventType → String
  | .processResult => "process_result"
  | .storyResult => "story_result"

structure JobResultEvent where
  type : EventType
  tripId : Int
  executionId : String
  status : TerminalStatus
  result : Option Value := none
  error : Option ErrorBody := none
deriving Repr

namespace JobResultEvent

def toValue (e : JobResultEvent) : Value :=
  .record [("type", .ofString e.type.text), ("trip_id", .int e.tripId),
    ("execution_id", .ofString e.executionId), ("status", .ofString e.status.text),
    ("result", e.result.getD .null),
    ("error", (e.error.map ErrorBody.toValue).getD .null)]

/-- `len(event.model_dump_json().encode("utf-8"))`. -/
def byteSize (e : JobResultEvent) : Nat := e.toValue.byteSize

end JobResultEvent

/-! ### Job records -/

/-- `identity(trip_id, kind, execution_id)`, over the SHA-256 hex digest. -/
def identity (sha256 : String → String) (tripId : Int) (kind : JobKind) (executionId : String) :
    String :=
  kind.text ++ ":" ++ toString tripId ++ ":" ++ sha256 executionId

structure JobRecord where
  tripId : Int
  kind : JobKind
  executionId : String
  request : Value
  requestTopic : String
  resultTopic : String
  createdAt : Time
  status : TaskStatus := .queued
  progress : Progress
  currentStep : Option String := none
  owner : Option String := none
  heartbeatAt : Option Time := none
  startedAt : Option Time := none
  cancelRequested : Bool := false
  event : Option JobResultEvent := none
  publishOwner : Option String := none
  publishUntil : Time := 0
  published : Bool := false
deriving Repr

namespace JobRecord

def identity (sha256 : String → String) (r : JobRecord) : String :=
  Jobs.identity sha256 r.tripId r.kind r.executionId

/-- Nesting of the record's JSON text: `progress` is one level below the record
itself, the free-form values are as deep as they come. -/
def nesting (r : JobRecord) : Nat :=
  1 + max 1 (max r.request.nesting ((r.event.map fun e => e.toValue.nesting).getD 0))

/-- No unpaired surrogate in the free-form parts of the record. -/
def encodable (r : JobRecord) : Bool :=
  r.request.encodable && (r.event.all fun e => e.toValue.encodable)

end JobRecord

/-! ### Upload batches -/

structure ReadyAttachment where
  tripAttachmentId : Int
  analyzeStorageKey : String
  id_pos : 0 < tripAttachmentId
  key_length : 1 ≤ analyzeStorageKey.length ∧ analyzeStorageKey.length ≤ 1024
  /-- `valid_s3_key`. -/
  key_bytes : analyzeStorageKey.utf8ByteSize ≤ 1024
deriving DecidableEq

structure PhotosReadyMessage where
  tripId : Int
  executionId : String
  batchNo : Int
  attachments : List ReadyAttachment
  trip_pos : 0 < tripId
  execution_length : 1 ≤ executionId.length ∧ executionId.length ≤ 128
  batch_pos : 0 < batchNo
  attachments_length : 1 ≤ attachments.length ∧ attachments.length ≤ 16
  /-- `unique_photos`. -/
  unique_photos : (attachments.map ReadyAttachment.tripAttachmentId).Nodup

/-- Batches belong to the `process` execution of their trip. -/
def PhotosReadyMessage.identity (sha256 : String → String) (m : PhotosReadyMessage) : String :=
  Jobs.identity sha256 m.tripId .process m.executionId

structure PhotoBatchBuffer where
  requestTopic : String
  /-- `dict[str, list[ReadyAttachment]]`, in insertion order. -/
  batches : List (String × List ReadyAttachment) := []
deriving DecidableEq

def ReadyAttachment.toValue (a : ReadyAttachment) : Value :=
  .record [("trip_attachment_id", .int a.tripAttachmentId),
    ("analyze_storage_key", .ofString a.analyzeStorageKey)]

def PhotoBatchBuffer.toValue (b : PhotoBatchBuffer) : Value :=
  .record [("request_topic", .ofString b.requestTopic),
    ("batches", .record (b.batches.map fun batch =>
      (batch.1, .arr (batch.2.map ReadyAttachment.toValue))))]

end Yeodam.Jobs
