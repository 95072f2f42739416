/-
The shared job store (`app/jobs/redis_store.py`).

`Store` is the part of Redis the store uses, one field for each family of keys.
Every operation is one WATCH/MULTI transaction, here one function from the store
and the Redis time to an outcome and the store after it; an exception leaves the
store as it was, because the pipeline is discarded before `EXEC`. A read that a
method makes before its transaction is an argument of it (the identity `latest` names
in `cancel`) or a function of its own (the scan of `recover`).

Operations appear in the order of the source: upload batches, registration,
claiming, `change` and what goes through it, publication.
-/

import Yeodam.Lib.Except
import Yeodam.Lib.SortedSet
import Yeodam.Lib.Text
import Yeodam.Jobs.Codec
import Yeodam.Observability.Metrics

namespace Yeodam.Jobs

open Yeodam.Lib Yeodam.Observability

/-- A value stored with `EX`: it is gone at `expireAt`. -/
structure Expiring (α : Type) where
  value : α
  expireAt : Time

structure Store where
  /-- `job:<identity>` -/
  jobs : String → Option JobRecord
  /-- `ignored:<identity>` -/
  ignored : String → Bool
  /-- `latest:<kind>:<trip_id>` -/
  latest : JobKind → Int → Option String
  /-- `enqueue_sequence` -/
  enqueueSequence : Nat
  /-- `queue:<kind>` -/
  queue : JobKind → SortedSet String Time
  running : SortedSet String Time
  pending : SortedSet String Time
  /-- The identity a slot key holds. -/
  slots : String → Option String
  /-- `photo_batches:<identity>` -/
  photoBatches : String → Option (Expiring PhotoBatchBuffer)
  /-- `queue:photo_batch` -/
  batchQueue : SortedSet String Time
  /-- `metrics:operations` -/
  operations : Operations

/-- The key space before the first request. -/
def Store.initial : Store where
  jobs := fun _ => none
  ignored := fun _ => false
  latest := fun _ _ => none
  enqueueSequence := 0
  queue := fun _ => ∅
  running := ∅
  pending := ∅
  slots := fun _ => none
  photoBatches := fun _ => none
  batchQueue := ∅
  operations := fun _ => 0

/-- The slot keys of a kind. The first is shared with older single runners, the
others are for stories only. -/
def slotKeys (kind : JobKind) : List String :=
  let base := "slot:" ++ kind.text
  base :: match kind with
    | .story => (List.range' 1 (maxStoryConcurrency - 1)).map fun i => base ++ ":" ++ toString i
    | .process => []

/-- `photo_batch_member`. -/
def photoBatchMember (identity batchNo : String) : String := identity ++ "#" ++ batchNo

namespace Store

variable (s : Store)

/-! ### Single commands -/

def setJob (identity : String) (r : JobRecord) : Store :=
  { s with jobs := Function.update s.jobs identity (some r) }

/-- `zadd queue:<kind>` -/
def enqueue (kind : JobKind) (identity : String) (score : Time) : Store :=
  { s with queue := Function.update s.queue kind ((s.queue kind).add identity score) }

/-- `zrem queue:<kind>` -/
def dequeue (kind : JobKind) (identity : String) : Store :=
  { s with queue := Function.update s.queue kind ((s.queue kind).remove identity) }

/-- `zadd running` -/
def addRunning (identity : String) (deadline : Time) : Store :=
  { s with running := s.running.add identity deadline }

/-- `zrem running` -/
def removeRunning (identity : String) : Store :=
  { s with running := s.running.remove identity }

/-- `zadd pending` -/
def addPending (identity : String) (score : Time) : Store :=
  { s with pending := s.pending.add identity score }

/-- `zrem pending` -/
def removePending (identity : String) : Store :=
  { s with pending := s.pending.remove identity }

/-- `set <slot>` -/
def setSlot (slot identity : String) : Store :=
  { s with slots := Function.update s.slots slot (some identity) }

/-- `delete <slots>` -/
def deleteSlots (keys : List String) : Store :=
  { s with slots := fun key => if key ∈ keys then none else s.slots key }

/-- Delete the slot keys of `kind` that hold `identity`. -/
def releaseSlots (kind : JobKind) (identity : String) : Store :=
  { s with slots := fun key =>
      if key ∈ slotKeys kind ∧ s.slots key = some identity then none else s.slots key }

/-- The buffer of an execution, unless its time is over. -/
def photoBatchesAt (now : Time) (identity : String) : Option PhotoBatchBuffer :=
  ((s.photoBatches identity).filter fun b => now < b.expireAt).map Expiring.value

/-- An execution is closed once it has a record or an ignored marker. -/
def closed (identity : String) : Bool :=
  (s.jobs identity).isSome || s.ignored identity

def setLatest (kind : JobKind) (tripId : Int) (identity : String) : Store :=
  { s with
    latest := Function.update s.latest kind
      (Function.update (s.latest kind) tripId (some identity)) }

def setIgnored (identity : String) : Store :=
  { s with ignored := Function.update s.ignored identity true }

def setSequence (order : Nat) : Store := { s with enqueueSequence := order }

/-- Delete the buffer of an execution together with its unpopped queue items. -/
def dropBatches (identity : String) (staged : List String) : Store :=
  { s with
    photoBatches := Function.update s.photoBatches identity none
    batchQueue := staged.foldl (fun q no => q.remove (photoBatchMember identity no)) s.batchQueue }

def observeTerminal (r : JobRecord) (now : Time) : Store :=
  { s with operations := terminalCommands s.operations r now }

end Store

variable (env : Env)

/-! ### Upload batches -/

inductive StageReply where
  | staged
  | duplicate
  | closed
deriving DecidableEq, Repr

/-- Copy keys by photo, a later entry for the same photo replacing the earlier. -/
abbrev KnownPhotos := List (Int × String)

def KnownPhotos.set (known : KnownPhotos) (photo : ReadyAttachment) : KnownPhotos :=
  (photo.tripAttachmentId, photo.analyzeStorageKey) ::
    known.filter fun k => k.1 ≠ photo.tripAttachmentId

/-- The copy keys a buffer already holds. -/
def PhotoBatchBuffer.known (b : PhotoBatchBuffer) : KnownPhotos :=
  (b.batches.flatMap Prod.snd).foldl KnownPhotos.set []

/-- The loop over the new photos: a known photo must keep its copy key. -/
def KnownPhotos.extend : KnownPhotos → List ReadyAttachment → Except JobError KnownPhotos
  | known, [] => .ok known
  | known, photo :: photos =>
      if (known.lookup photo.tripAttachmentId).all fun key => key = photo.analyzeStorageKey then
        KnownPhotos.extend (known.set photo) photos
      else .error (.value "같은 실행의 사진 사본 경로가 변경됨")

/-- `sorted(attachments, key=trip_attachment_id)`. -/
def sortedPhotos (photos : List ReadyAttachment) : List ReadyAttachment :=
  photos.insertionSort fun a b => a.tripAttachmentId ≤ b.tripAttachmentId

/-- Add a batch to a buffer, with the bounds on what is kept for one execution. -/
def PhotoBatchBuffer.insert (b : PhotoBatchBuffer) (batchNo : String)
    (photos : List ReadyAttachment) : Except JobError PhotoBatchBuffer := do
  let known ← b.known.extend photos
  if known.length > 200 ∨ b.batches.length ≥ 200 then
    .error (.value "실행당 사진 또는 묶음 보관 상한 200개 초과")
  else
    let b := { b with batches := b.batches ++ [(batchNo, photos)] }
    if b.toValue.byteSize > photosReadyMaxBytes then
      .error (.value "실행당 사진 묶음 보관 크기 상한 2MiB 초과")
    else .ok b

/-- The writes of a staged batch: the buffer with a fresh deadline, the queue item,
and the trim of the queue. -/
def Store.stage (s : Store) (identity batchNo : String) (buffer : PhotoBatchBuffer) (now : Time) :
    Store :=
  let ttl : Time := env.cfg.jobsPhotosReadyTtlSec
  { s with
    photoBatches :=
      Function.update s.photoBatches identity (some { value := buffer, expireAt := now + ttl })
    batchQueue :=
      (s.batchQueue.add (photoBatchMember identity batchNo) now).removeBelow (now - ttl) }

/-- The buffer a new batch joins: the one kept so far, or an empty one. -/
def bufferFor (identity requestTopic : String) (now : Time) (s : Store) :
    Except JobError PhotoBatchBuffer :=
  match s.photoBatchesAt now identity with
  | some raw => raw.load env
  | none => .ok { requestTopic := requestTopic }

def stagePhotos (message : PhotosReadyMessage) (requestTopic : String) (now : Time) (s : Store) :
    Except JobError (StageReply × Store) :=
  let identity := message.identity env.sha256
  let batchNo := toString message.batchNo
  let photos := sortedPhotos message.attachments
  if s.closed identity then .ok (.closed, s)
  else do
    let buffer ← bufferFor env identity requestTopic now s
    if buffer.requestTopic ≠ requestTopic then
      .error (.value "같은 실행의 묶음은 같은 요청 토픽을 사용해야 함")
    else match buffer.batches.lookup batchNo with
      | some previous =>
          if previous ≠ photos then
            .error (.value "같은 묶음 번호의 사진 목록 또는 경로가 변경됨")
          else .ok (.duplicate, s)
      | none => do
          let buffer ← buffer.insert batchNo photos
          .ok (.staged, s.stage env identity batchNo buffer now)

/-- An upload batch a worker took from the queue. -/
structure PhotoBatchClaim where
  identity : String
  batchNo : Int
  enqueuedAt : Time
deriving DecidableEq

/-- `PhotoBatchClaim.trip_id`, read back out of the identity. -/
def PhotoBatchClaim.tripId (c : PhotoBatchClaim) : Option Int :=
  (secondField ':' c.identity).bind String.toInt?

/-- `zpopmin` on the batch queue, the first half of a turn of `claim_batch`. -/
def popBatch (s : Store) : Option (String × Time) × Store :=
  match s.batchQueue.first? with
  | none => (none, s)
  | some (member, score) =>
      (some (member, score), { s with batchQueue := s.batchQueue.remove member })

/-- The second half of a turn of `claim_batch`: the popped batch, or `none` where its
buffer is gone and the next item is tried. -/
def openBatch (popped : String × Time) (now : Time) (s : Store) :
    Except JobError (Option PhotoBatchClaim) :=
  match rsplitOnce '#' popped.1 with
  | none => .error (.value "not enough values to unpack (expected 2, got 1)")
  | some (identity, batchNo) =>
      if (s.photoBatchesAt now identity).isSome then
        match batchNo.toInt? with
        | none => .error (.value "invalid literal for int() with base 10")
        | some batchNo => .ok (some ⟨identity, batchNo, popped.2⟩)
      else .ok none

/-! ### Reads -/

def get (identity : String) (s : Store) : Except JobError (Option JobRecord) :=
  match s.jobs identity with
  | none => .ok none
  | some raw => (raw.load env).map some

/-- The record a key that holds an identity points at: the latest pointer of a
trip, or a slot. -/
def follow (pointer : Option String) (s : Store) : Except JobError (Option JobRecord) :=
  match pointer with
  | none => .ok none
  | some identity => get env identity s

/-! ### Registration -/

inductive RegisterReply where
  | accepted
  | duplicate
  | busy
deriving DecidableEq, Repr

/-- The writes of an accepted registration. -/
def Store.accept (s : Store) (identity : String) (record : JobRecord) (staged : List String)
    (now : Time) : Store :=
  let order := s.enqueueSequence + 1
  let s := (((s.dropBatches identity staged).setSequence order).setJob identity record).setLatest
    record.kind record.tripId identity
  if record.event.isSome then (s.addPending identity now).observeTerminal record now
  else s.enqueue record.kind identity order

/-- The writes of a registration that finds the trip busy. -/
def Store.ignore (s : Store) (identity : String) (staged : List String) : Store :=
  (s.dropBatches identity staged).setIgnored identity

/-- The numbers of the batches a registration finds unread. -/
def stagedBatches (identity : String) (now : Time) (s : Store) : Except JobError (List String) :=
  match s.photoBatchesAt now identity with
  | some raw => (raw.load env).map fun b => b.batches.map Prod.fst
  | none => .ok []

def register (record : JobRecord) (now : Time) (s : Store) :
    Except JobError (RegisterReply × Store) :=
  let identity := record.identity env.sha256
  if s.closed identity then .ok (.duplicate, s)
  else do
    let staged ← stagedBatches env identity now s
    let previous ← follow env (s.latest record.kind record.tripId) s
    if previous.any fun p => !p.status.terminal then
      -- The ignored execution is marked too: a redelivery must not run it later.
      .ok (.busy, s.ignore identity staged)
    else do
      let stored ← { record with createdAt := now }.dump env
      .ok (.accepted, s.accept identity stored staged now)

/-! ### Claiming -/

/-- One turn of the loop in `claim`: `retry` after it cleaned something up. -/
inductive ClaimReply where
  | idle
  | retry
  | claimed (record : JobRecord) (queueScore : Time)

/-- Slots held by a job that has ended, which an older recovery loop left behind. -/
def staleSlots (s : Store) : List String → Except JobError (List String)
  | [] => .ok []
  | key :: keys => do
      let record ← follow env (s.slots key) s
      let stale ← staleSlots s keys
      .ok (if record.any fun r => r.status.terminal then key :: stale else stale)

/-- Executions of a kind allowed at once. -/
def slotLimit : JobKind → Nat
  | .process => 1
  | .story => env.cfg.jobsStoryConcurrency

/-- The record a worker takes over. -/
def JobRecord.start (r : JobRecord) (owner : String) (now : Time) : JobRecord :=
  { r with
    status := .processing
    owner := some owner
    startedAt := some now
    heartbeatAt := some now }

/-- The writes of a successful claim. -/
def Store.occupy (s : Store) (slot identity : String) (record : JobRecord) (now : Time) : Store :=
  let deadline := now + min env.cfg.jobsLeaseSec (env.cfg.jobTimeout record.kind)
  (((s.dequeue record.kind identity).setSlot slot identity).setJob identity record).addRunning
    identity deadline

/-- `owner` is `worker + ":" + uuid4().hex`, `stop` what `should_stop` answers
before the transaction is sent. -/
def claim (kind : JobKind) (owner : String) (stop : Bool) (now : Time) (s : Store) :
    Except JobError (ClaimReply × Store) := do
  let slots := slotKeys kind
  let stale ← staleSlots env s slots
  if stale ≠ [] then
    .ok (.retry, s.deleteSlots stale)
  else if slotLimit env kind ≤ (slots.filter fun key => (s.slots key).isSome).length then
    .ok (.idle, s)
  else match slots.find? fun key => (s.slots key).isNone with
    | none => .error (.value "None is not in list")
    | some slot =>
        match (s.queue kind).first? with
        | none => .ok (.idle, s)
        | some (identity, queueScore) => do
            let record ← get env identity s
            match record.filter fun r => r.status = .queued with
            | none => .ok (.retry, s.dequeue kind identity)
            | some record =>
                let record := record.start owner now
                if stop then .ok (.idle, s)
                else do
                  let stored ← record.dump env
                  .ok (.claimed record queueScore, s.occupy env slot identity stored now)

/-! ### Changing a record -/

/-- The end of the lease or of the job's time, whichever comes first. -/
def JobRecord.deadline (r : JobRecord) : Option Time :=
  match r.heartbeatAt, r.startedAt with
  | some heartbeat, some started =>
      some (min (heartbeat + env.cfg.jobsLeaseSec) (started + env.cfg.jobTimeout r.kind))
  | _, _ => none

/-- The index writes of a record that has ended. -/
def Store.close (s : Store) (identity : String) (r : JobRecord) (now : Time) : Store :=
  let s := ((s.dequeue r.kind identity).removeRunning identity).releaseSlots r.kind identity
  if r.published then s else s.addPending identity (max now r.publishUntil)

/-- The index writes of a record that goes back to its queue. -/
def Store.requeue (s : Store) (identity : String) (kind : JobKind) (score : Time) : Store :=
  ((s.removeRunning identity).releaseSlots kind identity).enqueue kind identity score

/-- The writes of `change`, by the new status. -/
def writeChange (identity : String) (wasTerminal : Bool) (record : JobRecord)
    (queueScore : Option Time) (now : Time) (s : Store) : Except JobError Store := do
  let stored ← record.dump env
  let s := s.setJob identity stored
  match record.status with
  | .completed | .failed | .canceled =>
      let s := if wasTerminal then s else s.observeTerminal record now
      .ok (s.close identity record now)
  | .processing =>
      match record.deadline env with
      | none => .error .type
      | some deadline => .ok (s.addRunning identity deadline)
  | .queued =>
      match queueScore with
      | none => .ok s
      | some score => .ok (s.requeue identity record.kind score)

/-- An update either declines (`none`) or gives the record to store. -/
abbrev Update := JobRecord → Time → Except JobError (Option JobRecord)

/-- Check the condition and store the change in one transaction. -/
def change (identity : String) (update : Update) (queueScore : Option Time) (now : Time)
    (s : Store) : Except JobError (Option JobRecord × Store) :=
  match s.jobs identity with
  | none => .ok (none, s)
  | some raw => do
      let record ← raw.load env
      match ← update record now with
      | none => .ok (none, s)
      | some changed => do
          let s' ← writeChange env identity record.status.terminal changed queueScore now s
          .ok (some changed, s')

/-- The caller holds the record and neither its lease nor its time has run out. A
`PROCESSING` record always carries both times. -/
def owns (r : JobRecord) (owner : String) (now : Time) : Bool :=
  r.status = .processing && r.owner = some owner &&
    (r.heartbeatAt.any fun h => now < h + env.cfg.jobsLeaseSec) &&
    (r.startedAt.any fun t => now < t + env.cfg.jobTimeout r.kind)

/-- `terminate`: build the event, cut it to size, and end the record as the event
that remains says. -/
def terminate (r : JobRecord) (status : TerminalStatus) (result : Option Value)
    (error : Option ErrorBody) : Except JobError JobRecord := do
  let event ← JobResultEvent.checkPayload env
    { type := r.kind.eventType, tripId := r.tripId, executionId := r.executionId, status := status,
      result := result, error := error }
  let event ← event.enforceSizeLimit env
  .ok { r with
    event := some event
    status := event.status.toTaskStatus
    currentStep := none
    progress := if event.status = .completed then { r.progress with done := r.progress.total }
      else r.progress }

/-- A job that was claimed but not started goes back to its place, unless it was
cancelled meanwhile. -/
def returnUnstartedUpdate (owner : String) : Update := fun r now =>
  if owns env r owner now then
    if r.cancelRequested then (terminate env r .canceled none none).map some
    else .ok (some { r with
      status := .queued, owner := none, startedAt := none, heartbeatAt := none })
  else .ok none

def returnUnstarted (identity owner : String) (queueScore : Time) (now : Time) (s : Store) :
    Except JobError (Option JobRecord × Store) :=
  change env identity (returnUnstartedUpdate env owner) (some queueScore) now s

def heartbeatUpdate (owner : String) : Update := fun r now =>
  if owns env r owner now then .ok (some { r with heartbeatAt := some now }) else .ok none

def heartbeat (identity owner : String) (now : Time) (s : Store) :
    Except JobError (Option JobRecord × Store) :=
  change env identity (heartbeatUpdate env owner) none now s

/-- The steps a kind may report. -/
def allowedSteps : JobKind → List String
  | .process => ["DOWNLOADING", "EMBEDDING", "CLOCK", "LOCATING", "CLUSTERING", "FILTERING",
      "FINALIZING"]
  | .story => ["SELECTING", "CAPTIONING", "WRITING", "VERIFYING"]

def progressUpdate (owner step : String) (done total : Int) : Update := fun r now =>
  if owns env r owner now && !r.cancelRequested then
    if step ∉ allowedSteps r.kind ∨ total ≠ r.progress.total ∨ ¬ (0 ≤ done ∧ done ≤ total) then
      .error (.value "작업 종류와 진행률 계약 불일치")
    else .ok (some { r with
      currentStep := some step, progress := { done := done.toNat, total := total.toNat } })
  else .ok none

def progress (identity owner step : String) (done total : Int) (now : Time) (s : Store) :
    Except JobError (Option JobRecord × Store) :=
  change env identity (progressUpdate env owner step done total) none now s

def finishUpdate (owner : String) (status : TerminalStatus) (result : Option Value)
    (error : Option ErrorBody) : Update := fun r now =>
  if owns env r owner now then
    if r.cancelRequested then (terminate env r .canceled none none).map some
    else (terminate env r status result error).map some
  else .ok none

def finish (identity owner : String) (status : TerminalStatus) (result : Option Value)
    (error : Option ErrorBody) (now : Time) (s : Store) :
    Except JobError (Option JobRecord × Store) :=
  change env identity (finishUpdate env owner status result error) none now s

def cancelUpdate : Update := fun r _ =>
  if r.status.terminal then .error (.app .taskNotCancelable)
  else
    let r := { r with cancelRequested := true }
    if r.status = .queued then (terminate env r .canceled none none).map some else .ok (some r)

/-- The transaction of `cancel` on the execution `latest` named. The pointer is read
before it and may have moved since. -/
def cancel (target : String) (now : Time) (s : Store) :
    Except JobError (Option JobRecord × Store) := do
  let (changed, s') ← change env target (cancelUpdate env) none now s
  match changed with
  | none => .error (.app .taskNotFound)
  | some record => .ok (some record, s')

/-! ### Recovery -/

/-- The identities one scan of `recover` looks at. -/
def recoverScan (now : Time) (s : Store) : List String := s.running.below now 100

def timedOut (r : JobRecord) (now : Time) : Bool :=
  r.startedAt.any fun t => t + env.cfg.jobTimeout r.kind ≤ now

def dead (r : JobRecord) (now : Time) : Bool :=
  r.heartbeatAt.any fun h => h + env.cfg.jobsLeaseSec ≤ now

def recoverUpdate : Update := fun r now =>
  if r.status ≠ .processing then .ok none
  else if !timedOut env r now && !dead env r now then .ok none
  else
    let code := if timedOut env r now then ErrorCode.timeout else .workerDead
    (terminate env r .failed none (some { code := code, message := "실행이 중단되었습니다." })).map
      some

/-- The transaction of `recover` on one identity of its scan. -/
def recoverOne (identity : String) (now : Time) (s : Store) :
    Except JobError (Option JobRecord × Store) :=
  change env identity (recoverUpdate env) none now s

/-! ### Publication -/

def claimResultUpdate (publisher : String) : Update := fun r now =>
  if r.event.isNone || r.published || now < r.publishUntil then .ok none
  else .ok (some { r with
    publishOwner := some publisher, publishUntil := now + env.cfg.jobsPublishLeaseSec })

def claimResult (identity publisher : String) (now : Time) (s : Store) :
    Except JobError (Option JobRecord × Store) :=
  change env identity (claimResultUpdate env publisher) none now s

def acknowledgeResult (identity publisher : String) (s : Store) :
    Except JobError (Bool × Store) :=
  match s.jobs identity with
  | none => .ok (false, s)
  | some raw => do
      let record ← raw.load env
      if record.publishOwner ≠ some publisher then .ok (false, s)
      else do
        let stored ← { record with published := true }.dump env
        .ok (true, (s.setJob identity stored).removePending identity)

end Yeodam.Jobs
