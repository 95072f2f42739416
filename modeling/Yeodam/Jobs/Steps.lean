/-
The job store as a transition system, and what one transition can do.

`Op` lists the transactions any replica may send; `World` is the store with the
Redis clock, and `Step` fires one transaction at a time that is not in the past.
A transaction that raises leaves the store alone.

Invariants never unfold an operation. `Edit` lists every way `change` rewrites a
record, `Transaction` every way an operation rewrites the store, and
`transaction_of_perform` says an operation does nothing else.
-/

import Yeodam.Lib.Run
import Yeodam.Jobs.RedisStore

namespace Yeodam.Jobs

open Yeodam.Lib Yeodam.Schemas

/-! ### Operations -/

/-- What `RequestReceiver.accept` hands to `register`: the fields it has checked.
`json.loads` refuses an integer of more than 4300 digits. -/
structure Intake where
  tripId : Int
  kind : JobKind
  executionId : String
  request : Value
  requestTopic : String
  resultTopic : String
  total : Nat
  /-- The body failed its schema; the record is registered as failed. -/
  invalid : Bool
  trip_pos : 0 < tripId
  trip_digits : (toString tripId).length ≤ 4300
  execution_length : 1 ≤ executionId.length ∧ executionId.length ≤ 128

/-- The error of a body that identifies its execution and fails its schema. -/
def invalidRequest : ErrorBody where
  code := .invalidRequest
  message := "요청 형식이 올바르지 않습니다."

/-- The record as it is before a possible failure: waiting, with no event. -/
def Intake.blank (q : Intake) : JobRecord where
  tripId := q.tripId
  kind := q.kind
  executionId := q.executionId
  request := q.request
  requestTopic := q.requestTopic
  resultTopic := q.resultTopic
  createdAt := 0
  progress := { done := 0, total := q.total }

def Intake.record (env : Env) (q : Intake) : Except JobError JobRecord :=
  if q.invalid then terminate env q.blank .failed none (some invalidRequest) else .ok q.blank

inductive Op where
  | register (request : Intake)
  | claim (kind : JobKind) (owner : String) (stop : Bool)
  | returnUnstarted (identity owner : String) (queueScore : Time)
  | heartbeat (identity owner : String)
  | progress (identity owner step : String) (done total : Int)
  | finish (identity owner : String) (status : TerminalStatus) (result : Option Value)
      (error : Option ErrorBody)
  | cancel (target : String)
  | recover (identity : String)
  | claimResult (identity publisher : String)
  | acknowledgeResult (identity publisher : String)
  | stagePhotos (message : PhotosReadyMessage) (requestTopic : String)
  | popBatch

/-- The execution whose record an operation goes for, where it names one. -/
def Op.target : Op → Option String
  | .returnUnstarted identity _ _ | .heartbeat identity _ | .progress identity _ _ _ _
  | .finish identity _ _ _ _ | .cancel identity | .recover identity | .claimResult identity _
  | .acknowledgeResult identity _ => some identity
  | .register _ | .claim .. | .stagePhotos .. | .popBatch => none

/-- The owner token of an operation a worker makes for its claim. -/
def Op.caller : Op → Option String
  | .returnUnstarted _ owner _ | .heartbeat _ owner | .progress _ owner _ _ _
  | .finish _ owner _ _ _ => some owner
  | _ => none

inductive Reply where
  | register (reply : RegisterReply)
  | claim (reply : ClaimReply)
  | changed (record : Option JobRecord)
  | acknowledged (done : Bool)
  | stage (reply : StageReply)
  | batch (popped : Option (String × Time))

def perform (env : Env) (now : Time) (s : Store) : Op → Except JobError (Reply × Store)
  | .register q => do
      let record ← q.record env
      let (reply, s') ← register env record now s
      .ok (.register reply, s')
  | .claim kind owner stop => do
      let (reply, s') ← claim env kind owner stop now s
      .ok (.claim reply, s')
  | .returnUnstarted identity owner score => do
      let (r, s') ← returnUnstarted env identity owner score now s
      .ok (.changed r, s')
  | .heartbeat identity owner => do
      let (r, s') ← heartbeat env identity owner now s
      .ok (.changed r, s')
  | .progress identity owner step done total => do
      let (r, s') ← progress env identity owner step done total now s
      .ok (.changed r, s')
  | .finish identity owner status result error => do
      let (r, s') ← finish env identity owner status result error now s
      .ok (.changed r, s')
  | .cancel target => do
      let (r, s') ← cancel env target now s
      .ok (.changed r, s')
  | .recover identity => do
      let (r, s') ← recoverOne env identity now s
      .ok (.changed r, s')
  | .claimResult identity publisher => do
      let (r, s') ← claimResult env identity publisher now s
      .ok (.changed r, s')
  | .acknowledgeResult identity publisher => do
      let (done, s') ← acknowledgeResult env identity publisher s
      .ok (.acknowledged done, s')
  | .stagePhotos message topic => do
      let (reply, s') ← stagePhotos env message topic now s
      .ok (.stage reply, s')
  | .popBatch => .ok (.batch (popBatch s).1, (popBatch s).2)

/-- The store after an operation; an exception discards the transaction. -/
def after (env : Env) (now : Time) (op : Op) (s : Store) : Store :=
  match perform env now s op with
  | .ok (_, s') => s'
  | .error _ => s

/-! ### The transition system -/

structure World where
  clock : Time
  store : Store

structure Event where
  time : Time
  op : Op

/-- The world after an event. -/
def World.next (env : Env) (w : World) (e : Event) : World :=
  ⟨e.time, after env e.time e.op w.store⟩

def Step (env : Env) (w : World) (e : Event) (w' : World) : Prop :=
  w.clock ≤ e.time ∧ w' = w.next env e

def Initial (w : World) : Prop := w.store = Store.initial

/-- Worlds some interleaving of transactions leads to. -/
abbrev Reached (env : Env) : World → Prop := Reachable Initial (Step env)

/-- The world a schedule of transactions leads to. -/
def replay (env : Env) : World → List Event → World
  | w, [] => w
  | w, e :: es => replay env (w.next env e) es

/-- The times of a schedule do not go back. -/
def Ordered : Time → List Event → Bool
  | _, [] => true
  | clock, e :: es => decide (clock ≤ e.time) && Ordered e.time es

theorem run_replay {env : Env} {w : World} {es : List Event} (h : Ordered w.clock es = true) :
    Run (Step env) w es (replay env w es) := by
  induction es generalizing w with
  | nil => exact .refl w
  | cons e es ih =>
      simp only [Ordered, Bool.and_eq_true, decide_eq_true_eq] at h
      exact .cons ⟨h.1, rfl⟩ (ih h.2)

/-- An ordered schedule from the empty store reaches its world. -/
theorem reached_replay {env : Env} {es : List Event} (h : Ordered 0 es = true) :
    Reached env (replay env ⟨0, .initial⟩ es) :=
  ⟨⟨0, .initial⟩, es, rfl, run_replay h⟩

/-! ### A deployment to evaluate on -/

/-- The SHA-256 hex digests of three execution ids; other ids keep their text. -/
def sampleDigest : String → String
  | "e1" => "8b5cc4df7eec7d32a7814eca4af047ae33b2d52342667715682e19c25b0b9faa"
  | "e2" => "ac0f09c0f8bf5e7a4b063d863255f16d8ce9abe600e288d934cf313bcbff63eb"
  | "e3" => "cef7fc13a38180936ffa2635489088778e059f07a5d1beda53f1719d35577631"
  | id => id

/-- Times as pydantic reads and writes them: one of today, some of the morning of
1 January 1900, when the offset of Seoul had seconds, and one that is past the last year in
Seoul. -/
def sampleTimes : List (String × AwareTime) :=
  [("2024-05-01T10:00:00+09:00", ⟨1714557600000000, 32400⟩),
   ("1900-01-01T09:00:00+09:00", ⟨-2208956400000000, 32400⟩),
   ("1900-01-01T08:27:52+08:27", ⟨-2208958328000000, 30420⟩),
   ("1900-01-01T08:28:44+08:27", ⟨-2208958276000000, 30420⟩),
   ("1900-01-01T08:29:36+08:27", ⟨-2208958224000000, 30420⟩),
   ("9999-12-31T23:59:59Z", ⟨253402300799000000, 0⟩)]

/-- The text of a time: its offset without seconds. -/
def sampleRenderTime (t : AwareTime) : String :=
  ((sampleTimes.find? fun entry =>
    entry.2.wall = t.wall ∧ entry.2.offset = t.offset - t.offset % 60).map Prod.fst).getD ""

def sampleLibraries : Libraries where
  int
    | .int n => some n
    | _ => none
  float
    | .float x => some x
    | .str (.text "nan") => some .nan
    | _ => none
  date
    | .str (.text "2024-05-01") => some 19844
    | .str (.text "2024-05-02") => some 19845
    | _ => none
  awareDatetime
    | .str (.text s) => sampleTimes.lookup s
    | _ => none
  renderDate days := if days = 19844 then "2024-05-01" else "2024-05-02"
  renderTime := sampleRenderTime
  -- The local mean time of Seoul until April 1908.
  seoulOffset instant := if instant < -1948782472000000 then 30472 else 32400

/-- The default settings and the limits of pydantic. -/
def sampleEnv : Env where
  cfg := .default
  sha256 := sampleDigest
  readNesting := 200
  writeNesting := 255
  libraries := sampleLibraries
  readNesting_ge := by decide
  nesting_lt := by decide

/-- A story request as the receiver stores it. -/
def sampleRequest (executionId : String) : Value :=
  .record [("type", .ofString "story"), ("trip_id", .int 7),
    ("execution_id", .ofString executionId), ("trip_name", .ofString "제주"),
    ("period", .record [("start_date", .ofString "2024-05-01"),
      ("end_date", .ofString "2024-05-02")]),
    ("mood", .ofString "CALM"),
    ("places", .arr [.record [("trip_place_id", .int 1), ("place_name", .ofString "성산"),
      ("attachments", .arr [.record [("trip_attachment_id", .int 1),
        ("analyze_storage_key", .ofString "k"),
        ("taken_at", .ofString "2024-05-01T10:00:00+09:00"), ("evaluation", .null)]])]])]

theorem e1_length : 1 ≤ "e1".length ∧ "e1".length ≤ 128 := by decide

theorem e2_length : 1 ≤ "e2".length ∧ "e2".length ≤ 128 := by decide

def sampleIntake (executionId : String)
    (h : 1 ≤ executionId.length ∧ executionId.length ≤ 128 := by decide) : Intake where
  tripId := 7
  kind := .story
  executionId := executionId
  request := sampleRequest executionId
  requestTopic := "local.yeodam.story-create.request"
  resultTopic := "local.yeodam.story-create.result"
  total := 4
  invalid := false
  trip_pos := by decide
  trip_digits := by decide
  execution_length := h

/-- A process request of another trip, with one photo. -/
def sampleProcess : Intake where
  tripId := 8
  kind := .process
  executionId := "e2"
  request := .record [("execution_id", .ofString "e2"), ("trip_name", .ofString "제주"),
    ("period", .record [("start_date", .ofString "2024-05-01"),
      ("end_date", .ofString "2024-05-02")]),
    ("regions", .arr [.record [("latitude", .float (.finite "33.4")),
      ("longitude", .float (.finite "126.5"))]]),
    ("attachments", .arr [.record [("trip_attachment_id", .int 1),
      ("analyze_storage_key", .ofString "k"), ("taken_at", .null), ("latitude", .null),
      ("longitude", .null), ("device_model", .null)]]),
    ("existing_places", .arr []), ("type", .ofString "process"), ("trip_id", .int 8),
    ("trigger", .ofString "TRIP_CREATED")]
  requestTopic := "local.yeodam.trip-create.request"
  resultTopic := "local.yeodam.trip-create.result"
  total := 1
  invalid := false
  trip_pos := by decide
  trip_digits := by decide
  execution_length := by decide

theorem batchNo_two : (0 : Int) < 2 := by decide

/-- An upload batch of trip 8, with one photo numbered like the batch. -/
def sampleBatch (executionId : String) (batchNo : Int)
    (h : 1 ≤ executionId.length ∧ executionId.length ≤ 128 := by decide)
    (hpos : 0 < batchNo := by decide) : PhotosReadyMessage where
  tripId := 8
  executionId := executionId
  batchNo := batchNo
  attachments := [⟨batchNo, "k", hpos, by decide, by decide⟩]
  trip_pos := by decide
  execution_length := h
  batch_pos := hpos
  attachments_length := by simp
  unique_photos := by simp

/-- A story is registered and a worker takes it. -/
def sampleSchedule : List Event :=
  [⟨1, .register (sampleIntake "e1" e1_length)⟩, ⟨2, .claim .story "worker:1" false⟩]

def sampleWorld : World := replay sampleEnv ⟨0, .initial⟩ sampleSchedule

theorem reached_sampleWorld : Reached sampleEnv sampleWorld :=
  reached_replay (by decide +kernel)

/-- The identity of the story in `sampleWorld`. -/
def sampleIdentity : String := identity sampleDigest 7 .story "e1"

/-! ### What `change` can do to a record -/

section Edits

variable (env : Env) (now : Time)

/-- The ways an operation rewrites a record it read, with the queue score it hands
to `change`. -/
inductive Edit : Op → JobRecord → JobRecord → Option Time → Prop where
  | renew {i owner : String} {r : JobRecord} :
      owns env r owner now = true →
      Edit (.heartbeat i owner) r { r with heartbeatAt := some now } none
  | report {i owner step : String} {done total : Int} {p : Progress} {r : JobRecord} :
      owns env r owner now = true → r.cancelRequested = false → p.total = r.progress.total →
      Edit (.progress i owner step done total) r { r with currentStep := some step, progress := p }
        none
  | finish {i owner : String} {status : TerminalStatus} {result : Option Value}
      {error : Option ErrorBody} {r r' : JobRecord} :
      owns env r owner now = true → r.cancelRequested = false →
      terminate env r status result error = .ok r' →
      Edit (.finish i owner status result error) r r' none
  | stop {op : Op} {owner : String} {queueScore : Option Time} {r r' : JobRecord} :
      op.caller = some owner → owns env r owner now = true → r.cancelRequested = true →
      terminate env r .canceled none none = .ok r' → Edit op r r' queueScore
  | giveBack {i owner : String} {score : Time} {r : JobRecord} :
      owns env r owner now = true → r.cancelRequested = false →
      Edit (.returnUnstarted i owner score) r
        { r with status := .queued, owner := none, startedAt := none, heartbeatAt := none }
        (some score)
  | flag {i : String} {r : JobRecord} :
      r.status = .processing → Edit (.cancel i) r { r with cancelRequested := true } none
  | cancelQueued {i : String} {r r' : JobRecord} :
      r.status = .queued →
      terminate env { r with cancelRequested := true } .canceled none none = .ok r' →
      Edit (.cancel i) r r' none
  | recover {i : String} {error : ErrorBody} {r r' : JobRecord} :
      r.status = .processing → (timedOut env r now || dead env r now) = true →
      terminate env r .failed none (some error) = .ok r' → Edit (.recover i) r r' none
  | leaseResult {i publisher : String} {until_ : Time} {r : JobRecord} :
      r.event.isSome = true → r.published = false →
      Edit (.claimResult i publisher) r
        { r with publishOwner := some publisher, publishUntil := until_ } none

variable {env now} {identity : String}

theorem owns_iff {r : JobRecord} {owner : String} :
    owns env r owner now = true ↔ r.status = .processing ∧ r.owner = some owner ∧
      ∃ h t, r.heartbeatAt = some h ∧ r.startedAt = some t ∧
        now < h + env.cfg.jobsLeaseSec ∧ now < t + env.cfg.jobTimeout r.kind := by
  simp only [owns, Bool.and_eq_true, decide_eq_true_eq, Option.any_eq_true, and_assoc]
  constructor
  · rintro ⟨hs, ho, ⟨h, hh, hlt⟩, t, ht, hlt'⟩
    exact ⟨hs, ho, h, t, hh, ht, hlt, hlt'⟩
  · rintro ⟨hs, ho, h, t, hh, ht, hlt, hlt'⟩
    exact ⟨hs, ho, ⟨h, hh, hlt⟩, t, ht, hlt'⟩

theorem returnUnstarted_edit {owner : String} {score : Time} {r r' : JobRecord}
    (h : returnUnstartedUpdate env owner r now = .ok (some r')) :
    Edit env now (.returnUnstarted identity owner score) r r' (some score) := by
  unfold returnUnstartedUpdate at h
  split at h
  · rename_i howns
    split at h
    · rename_i hc
      obtain ⟨r'', hr, heq⟩ := except_map_eq_ok.mp h
      cases heq
      exact .stop rfl howns hc hr
    · rename_i hc
      cases h
      exact .giveBack howns (Bool.not_eq_true _ ▸ hc)
  · cases h

theorem heartbeat_edit {owner : String} {r r' : JobRecord}
    (h : heartbeatUpdate env owner r now = .ok (some r')) :
    Edit env now (.heartbeat identity owner) r r' none := by
  unfold heartbeatUpdate at h
  split at h
  · rename_i howns
    cases h
    exact .renew howns
  · cases h

theorem progress_edit {owner step : String} {done total : Int} {r r' : JobRecord}
    (h : progressUpdate env owner step done total r now = .ok (some r')) :
    Edit env now (.progress identity owner step done total) r r' none := by
  unfold progressUpdate at h
  split at h
  · rename_i howns
    simp only [Bool.and_eq_true, Bool.not_eq_true'] at howns
    split at h
    · cases h
    · rename_i hcontract
      cases h
      refine .report howns.1 howns.2 ?_
      dsimp only
      omega
  · cases h

theorem finish_edit {owner : String} {status : TerminalStatus} {result : Option Value}
    {error : Option ErrorBody} {r r' : JobRecord}
    (h : finishUpdate env owner status result error r now = .ok (some r')) :
    Edit env now (.finish identity owner status result error) r r' none := by
  unfold finishUpdate at h
  split at h
  · rename_i howns
    split at h
    · rename_i hc
      obtain ⟨r'', hr, heq⟩ := except_map_eq_ok.mp h
      cases heq
      exact .stop rfl howns hc hr
    · rename_i hc
      obtain ⟨r'', hr, heq⟩ := except_map_eq_ok.mp h
      cases heq
      exact .finish howns (Bool.not_eq_true _ ▸ hc) hr
  · cases h

theorem cancel_edit {r r' : JobRecord} (h : cancelUpdate env r now = .ok (some r')) :
    Edit env now (.cancel identity) r r' none := by
  unfold cancelUpdate at h
  split at h
  · cases h
  · rename_i hterm
    dsimp only at h
    split at h
    · rename_i hq
      obtain ⟨r'', hr, heq⟩ := except_map_eq_ok.mp h
      cases heq
      exact .cancelQueued hq hr
    · rename_i hq
      cases h
      refine .flag ?_
      cases hs : r.status <;> simp_all [TaskStatus.terminal]

theorem recover_edit {r r' : JobRecord} (h : recoverUpdate env r now = .ok (some r')) :
    Edit env now (.recover identity) r r' none := by
  unfold recoverUpdate at h
  split at h
  · cases h
  · rename_i hs
    split at h
    · cases h
    · rename_i hlate
      obtain ⟨r'', hr, heq⟩ := except_map_eq_ok.mp h
      cases heq
      refine .recover (not_not.mp hs) ?_ hr
      cases ht : timedOut env r now <;> cases hd : dead env r now <;> simp_all

theorem claimResult_edit {publisher : String} {r r' : JobRecord}
    (h : claimResultUpdate env publisher r now = .ok (some r')) :
    Edit env now (.claimResult identity publisher) r r' none := by
  unfold claimResultUpdate at h
  split at h
  · cases h
  · rename_i hopen
    cases h
    simp only [Bool.or_eq_true, decide_eq_true_eq, not_or, Bool.not_eq_true,
      Option.isNone_eq_false_iff] at hopen
    exact .leaseResult hopen.1.1 hopen.1.2

end Edits

/-! ### What an operation can do to the store -/

section Transactions

variable (env : Env) (now : Time) (s : Store)

/-- Occupied slots of a kind. -/
def Store.occupied (kind : JobKind) : Nat :=
  ((slotKeys kind).filter fun key => (s.slots key).isSome).length

/-- The store after one transaction, by the operation and the branch that committed. -/
inductive Transaction : Op → Store → Prop where
  | unchanged {op : Op} : Transaction op s
  | accepted {q : Intake} {record stored : JobRecord} {staged : List String} :
      q.record env = .ok record → s.closed (record.identity env.sha256) = false →
      (∀ previous r, s.latest record.kind record.tripId = some previous →
        s.jobs previous = some r → r.status.terminal = true) →
      JobRecord.dump env { record with createdAt := now } = .ok stored →
      stagedBatches env (record.identity env.sha256) now s = .ok staged →
      Transaction (.register q) (s.accept (record.identity env.sha256) stored staged now)
  | ignored {q : Intake} {record : JobRecord} {staged : List String} :
      q.record env = .ok record → s.closed (record.identity env.sha256) = false →
      stagedBatches env (record.identity env.sha256) now s = .ok staged →
      Transaction (.register q) (s.ignore (record.identity env.sha256) staged)
  | swept {kind : JobKind} {owner : String} {stop : Bool} {stale : List String} :
      (∀ key ∈ stale, ∃ occupant r, s.slots key = some occupant ∧ s.jobs occupant = some r ∧
        r.status.terminal = true) →
      Transaction (.claim kind owner stop) (s.deleteSlots stale)
  | unqueued {kind : JobKind} {owner : String} {stop : Bool} {identity : String} {score : Time} :
      (s.queue kind).first? = some (identity, score) →
      (∀ r, s.jobs identity = some r → r.status ≠ .queued) →
      Transaction (.claim kind owner stop) (s.dequeue kind identity)
  | claimed {kind : JobKind} {owner : String} {stop : Bool} {slot identity : String} {score : Time}
      {raw record stored : JobRecord} :
      slot ∈ slotKeys kind → s.slots slot = none → s.occupied kind < slotLimit env kind →
      (s.queue kind).first? = some (identity, score) → s.jobs identity = some raw →
      raw.load env = .ok record → record.status = .queued →
      (record.start owner now).dump env = .ok stored →
      Transaction (.claim kind owner stop) (s.occupy env slot identity stored now)
  | changed {op : Op} {identity : String} {raw record changed : JobRecord}
      {queueScore : Option Time} {s' : Store} :
      op.target = some identity → s.jobs identity = some raw → raw.load env = .ok record →
      Edit env now op record changed queueScore →
      writeChange env identity record.status.terminal changed queueScore now s = .ok s' →
      Transaction op s'
  | acknowledged {identity publisher : String} {raw record stored : JobRecord} :
      s.jobs identity = some raw → raw.load env = .ok record →
      record.publishOwner = some publisher →
      JobRecord.dump env { record with published := true } = .ok stored →
      Transaction (.acknowledgeResult identity publisher)
        ((s.setJob identity stored).removePending identity)
  | staged {message : PhotosReadyMessage} {topic : String} {old buffer : PhotoBatchBuffer} :
      s.closed (message.identity env.sha256) = false →
      (s.photoBatchesAt now (message.identity env.sha256) = some old ∨
        s.photoBatchesAt now (message.identity env.sha256) = none ∧
          old = { requestTopic := topic }) →
      old.batches.lookup (toString message.batchNo) = none →
      old.insert (toString message.batchNo) (sortedPhotos message.attachments) = .ok buffer →
      Transaction (.stagePhotos message topic)
        (s.stage env (message.identity env.sha256) (toString message.batchNo) buffer now)
  | popped {member : String} {score : Time} :
      s.batchQueue.first? = some (member, score) →
      Transaction .popBatch { s with batchQueue := s.batchQueue.remove member }

variable {env now s}

/-! #### One lemma for each operation -/

/-- A successful `change` declined, or stored one edit of the record it read. -/
theorem change_cases {identity : String} {update : Update} {queueScore : Option Time}
    {reply : Option JobRecord} {s' : Store}
    (h : change env identity update queueScore now s = .ok (reply, s')) :
    (reply = none ∧ s' = s) ∨
    ∃ raw record changed, reply = some changed ∧ s.jobs identity = some raw ∧
      raw.load env = .ok record ∧ update record now = .ok (some changed) ∧
      writeChange env identity record.status.terminal changed queueScore now s = .ok s' := by
  unfold change at h
  split at h
  · cases h
    exact .inl ⟨rfl, rfl⟩
  · rename_i raw hraw
    obtain ⟨record, hload, h⟩ := except_bind_eq_ok.mp h
    obtain ⟨changed, hupd, h⟩ := except_bind_eq_ok.mp h
    cases changed with
    | none =>
        cases h
        exact .inl ⟨rfl, rfl⟩
    | some changed =>
        obtain ⟨s'', hw, h⟩ := except_bind_eq_ok.mp h
        cases h
        exact .inr ⟨raw, record, changed, rfl, hraw, hload, hupd, hw⟩

/-- `change` succeeds when its three parts do. -/
theorem change_ok {identity : String} {update : Update} {queueScore : Option Time}
    {raw record changed : JobRecord} {s' : Store} (hraw : s.jobs identity = some raw)
    (hload : raw.load env = .ok record) (hupd : update record now = .ok (some changed))
    (hw : writeChange env identity record.status.terminal changed queueScore now s = .ok s') :
    change env identity update queueScore now s = .ok (some changed, s') := by
  simp only [change, hraw]
  exact except_bind_eq_ok.mpr ⟨record, hload, except_bind_eq_ok.mpr
    ⟨some changed, hupd, except_bind_eq_ok.mpr ⟨s', hw, rfl⟩⟩⟩

/-- What goes through `change` is one edit. -/
theorem transaction_of_change {op : Op} {identity : String} {update : Update}
    {queueScore : Option Time} {reply : Option JobRecord} {s' : Store}
    (htarget : op.target = some identity)
    (hedit : ∀ r r', update r now = .ok (some r') → Edit env now op r r' queueScore)
    (h : change env identity update queueScore now s = .ok (reply, s')) :
    Transaction env now s op s' := by
  rcases change_cases h with ⟨-, rfl⟩ | ⟨raw, record, changed, -, hraw, hload, hupd, hw⟩
  · exact .unchanged
  · exact .changed htarget hraw hload (hedit _ _ hupd) hw

theorem get_cases {identity : String} {reply : Option JobRecord}
    (h : get env identity s = .ok reply) :
    (reply = none ∧ s.jobs identity = none) ∨
    ∃ raw record, reply = some record ∧ s.jobs identity = some raw ∧
      raw.load env = .ok record := by
  unfold get at h
  split at h
  · rename_i hnone
    cases h
    exact .inl ⟨rfl, hnone⟩
  · rename_i raw hraw
    obtain ⟨record, hload, rfl⟩ := except_map_eq_ok.mp h
    exact .inr ⟨raw, record, rfl, hraw, hload⟩

theorem JobRecord.status_eq_of_core {r r' : JobRecord} (h : r.core = r'.core) :
    r.status = r'.status :=
  (congrArg JobRecord.status h : r.core.status = r'.core.status)

/-- A pointer is followed to the stored record, or there is none behind it. -/
theorem follow_cases {pointer : Option String} {reply : Option JobRecord}
    (h : follow env pointer s = .ok reply) :
    (reply = none ∧ ∀ identity, pointer = some identity → s.jobs identity = none) ∨
    ∃ identity raw record, reply = some record ∧ pointer = some identity ∧
      s.jobs identity = some raw ∧ record.status = raw.status := by
  unfold follow at h
  split at h
  · cases h
    exact .inl ⟨rfl, fun _ h => nomatch h⟩
  · rename_i identity
    rcases get_cases h with ⟨rfl, hnone⟩ | ⟨raw, record, rfl, hraw, hload⟩
    · refine .inl ⟨rfl, ?_⟩
      rintro _ ⟨⟩
      exact hnone
    · exact .inr ⟨identity, raw, record, rfl, rfl, hraw,
        JobRecord.status_eq_of_core (JobRecord.load_core hload)⟩

theorem staleSlots_spec {keys stale : List String} (h : staleSlots env s keys = .ok stale) :
    ∀ key ∈ stale, ∃ occupant r, s.slots key = some occupant ∧ s.jobs occupant = some r ∧
      r.status.terminal = true := by
  induction keys generalizing stale with
  | nil =>
      cases h
      simp
  | cons key keys ih =>
      rw [staleSlots] at h
      obtain ⟨record, hrec, h⟩ := except_bind_eq_ok.mp h
      obtain ⟨rest, hrest, h⟩ := except_bind_eq_ok.mp h
      cases h
      intro key' hkey'
      split at hkey'
      · rename_i hterm
        rcases List.mem_cons.mp hkey' with rfl | hmem
        · rcases follow_cases hrec with ⟨rfl, -⟩ | ⟨occupant, raw, r, rfl, hslot, hraw, hstatus⟩
          · cases hterm
          · exact ⟨occupant, raw, hslot, hraw, hstatus ▸ hterm⟩
        · exact ih hrest key' hmem
      · exact ih hrest key' hkey'

theorem register_cases {record : JobRecord} {reply : RegisterReply} {s' : Store}
    (h : register env record now s = .ok (reply, s')) :
    (reply = .duplicate ∧ s.closed (record.identity env.sha256) = true ∧ s' = s) ∨
    (reply = .busy ∧ s.closed (record.identity env.sha256) = false ∧
      (∃ previous r, s.latest record.kind record.tripId = some previous ∧
        s.jobs previous = some r ∧ r.status.terminal = false) ∧
      ∃ staged, stagedBatches env (record.identity env.sha256) now s = .ok staged ∧
        s' = s.ignore (record.identity env.sha256) staged) ∨
    (reply = .accepted ∧ s.closed (record.identity env.sha256) = false ∧
      (∀ previous r, s.latest record.kind record.tripId = some previous →
        s.jobs previous = some r → r.status.terminal = true) ∧
      ∃ staged stored, JobRecord.dump env { record with createdAt := now } = .ok stored ∧
        stagedBatches env (record.identity env.sha256) now s = .ok staged ∧
        s' = s.accept (record.identity env.sha256) stored staged now) := by
  unfold register at h
  dsimp only at h
  split at h
  · rename_i hclosed
    cases h
    exact .inl ⟨rfl, hclosed, rfl⟩
  · rename_i hopen
    rw [Bool.not_eq_true] at hopen
    obtain ⟨staged, hstaged, h⟩ := except_bind_eq_ok.mp h
    obtain ⟨previous, hprev, h⟩ := except_bind_eq_ok.mp h
    split at h
    · rename_i hbusy
      cases h
      refine .inr (.inl ⟨rfl, hopen, ?_, staged, hstaged, rfl⟩)
      rcases follow_cases hprev with ⟨rfl, -⟩ | ⟨previousId, raw, r, rfl, hl, hraw, hstatus⟩
      · cases hbusy
      · refine ⟨previousId, raw, hl, hraw, ?_⟩
        rw [← hstatus]
        simpa using hbusy
    · rename_i hidle
      obtain ⟨stored, hdump, h⟩ := except_bind_eq_ok.mp h
      cases h
      refine .inr (.inr ⟨rfl, hopen, ?_, staged, stored, hdump, hstaged, rfl⟩)
      intro previousId raw hl hraw
      rcases follow_cases hprev with ⟨-, hnone⟩ | ⟨previousId', raw', r, rfl, hl', hraw', hstatus⟩
      · rw [hnone previousId hl] at hraw
        cases hraw
      · rw [hl] at hl'
        cases hl'
        rw [hraw] at hraw'
        cases hraw'
        rw [← hstatus]
        simpa using hidle

/-- The record a claim found at the head of the queue, or why it found none. -/
theorem claim_cases {kind : JobKind} {owner : String} {stop : Bool} {reply : ClaimReply}
    {s' : Store} (h : claim env kind owner stop now s = .ok (reply, s')) :
    Transaction env now s (.claim kind owner stop) s' ∧
    (∀ record score, reply = .claimed record score →
      ∃ slot identity raw found stored,
        slot ∈ slotKeys kind ∧ s.slots slot = none ∧ s.occupied kind < slotLimit env kind ∧
        (s.queue kind).first? = some (identity, score) ∧ s.jobs identity = some raw ∧
        raw.load env = .ok found ∧ found.status = .queued ∧ record = found.start owner now ∧
        record.dump env = .ok stored ∧ s' = s.occupy env slot identity stored now) := by
  unfold claim at h
  obtain ⟨stale, hstale, h⟩ := except_bind_eq_ok.mp h
  dsimp only at h
  split at h
  · cases h
    exact ⟨.swept (staleSlots_spec hstale), fun _ _ h => nomatch h⟩
  split at h
  · cases h
    exact ⟨.unchanged, fun _ _ h => nomatch h⟩
  rename_i hfree
  split at h
  · cases h
  rename_i slot hslot
  split at h
  · cases h
    exact ⟨.unchanged, fun _ _ h => nomatch h⟩
  rename_i identity score hfirst
  obtain ⟨found?, hget, h⟩ := except_bind_eq_ok.mp h
  split at h
  · rename_i hnone
    cases h
    refine ⟨.unqueued hfirst ?_, fun _ _ h => nomatch h⟩
    intro raw hraw hqueued
    rcases get_cases hget with ⟨-, hmissing⟩ | ⟨raw', r, rfl, hraw', hload⟩
    · rw [hraw] at hmissing
      cases hmissing
    · rw [hraw] at hraw'
      cases hraw'
      have hstatus := JobRecord.status_eq_of_core (JobRecord.load_core hload)
      simp [Option.filter, hstatus, hqueued] at hnone
  · rename_i found hfound
    obtain ⟨hfound, hqueued⟩ := Option.filter_eq_some_iff.mp hfound
    split at h
    · cases h
      exact ⟨.unchanged, fun _ _ h => nomatch h⟩
    · obtain ⟨stored, hdump, h⟩ := except_bind_eq_ok.mp h
      cases h
      rcases get_cases hget with ⟨rfl, -⟩ | ⟨raw, r, rfl, hraw, hload⟩
      · cases hfound
      · cases hfound
        have hmem := List.mem_of_find?_eq_some hslot
        have hnone : s.slots slot = none := by simpa using List.find?_some hslot
        have hlimit : s.occupied kind < slotLimit env kind := not_le.mp hfree
        have hstatus : found.status = .queued := by simpa using hqueued
        refine ⟨.claimed hmem hnone hlimit hfirst hraw hload hstatus hdump, ?_⟩
        rintro _ _ ⟨⟩
        exact ⟨slot, identity, raw, found, stored, hmem, hnone, hlimit, hfirst, hraw, hload,
          hstatus, rfl, hdump, rfl⟩

theorem cancel_cases {target : String} {reply : Option JobRecord} {s' : Store}
    (h : cancel env target now s = .ok (reply, s')) :
    ∃ record, reply = some record ∧
      change env target (cancelUpdate env) none now s = .ok (some record, s') := by
  unfold cancel at h
  obtain ⟨⟨changed, s''⟩, hc, h⟩ := except_bind_eq_ok.mp h
  cases changed with
  | none => cases h
  | some record =>
      cases h
      exact ⟨record, rfl, hc⟩

theorem acknowledgeResult_cases {identity publisher : String} {done : Bool} {s' : Store}
    (h : acknowledgeResult env identity publisher s = .ok (done, s')) :
    (done = false ∧ s' = s) ∨
    ∃ raw record stored, done = true ∧ s.jobs identity = some raw ∧ raw.load env = .ok record ∧
      record.publishOwner = some publisher ∧
      JobRecord.dump env { record with published := true } = .ok stored ∧
      s' = (s.setJob identity stored).removePending identity := by
  unfold acknowledgeResult at h
  split at h
  · cases h
    exact .inl ⟨rfl, rfl⟩
  · rename_i raw hraw
    obtain ⟨record, hload, h⟩ := except_bind_eq_ok.mp h
    split at h
    · cases h
      exact .inl ⟨rfl, rfl⟩
    · rename_i howner
      obtain ⟨stored, hdump, h⟩ := except_bind_eq_ok.mp h
      cases h
      exact .inr ⟨raw, record, stored, rfl, hraw, hload, not_not.mp howner, hdump, rfl⟩

theorem stagePhotos_cases {message : PhotosReadyMessage} {topic : String} {reply : StageReply}
    {s' : Store} (h : stagePhotos env message topic now s = .ok (reply, s')) :
    (reply = .closed ∧ s.closed (message.identity env.sha256) = true ∧ s' = s) ∨
    (reply = .duplicate ∧ s.closed (message.identity env.sha256) = false ∧ s' = s) ∨
    (reply = .staged ∧ s.closed (message.identity env.sha256) = false ∧
      ∃ old buffer, old.batches.lookup (toString message.batchNo) = none ∧
        old.insert (toString message.batchNo) (sortedPhotos message.attachments) = .ok buffer ∧
        (s.photoBatchesAt now (message.identity env.sha256) = some old ∨
          s.photoBatchesAt now (message.identity env.sha256) = none ∧
            old = { requestTopic := topic }) ∧
        s' = s.stage env (message.identity env.sha256) (toString message.batchNo) buffer now) := by
  unfold stagePhotos at h
  dsimp only at h
  split at h
  · rename_i hclosed
    cases h
    exact .inl ⟨rfl, hclosed, rfl⟩
  rename_i hopen
  rw [Bool.not_eq_true] at hopen
  obtain ⟨old, hold, h⟩ := except_bind_eq_ok.mp h
  split at h
  · cases h
  split at h
  · split at h
    · cases h
    · cases h
      exact .inr (.inl ⟨rfl, hopen, rfl⟩)
  · rename_i hnew
    obtain ⟨buffer, hins, h⟩ := except_bind_eq_ok.mp h
    cases h
    refine .inr (.inr ⟨rfl, hopen, old, buffer, hnew, hins, ?_, rfl⟩)
    unfold bufferFor at hold
    split at hold
    · rename_i raw hraw
      unfold PhotoBatchBuffer.load at hold
      split at hold
      · cases hold
        exact .inl hraw
      · cases hold
    · rename_i hnone
      cases hold
      exact .inr ⟨hnone, rfl⟩

/-- **Everything an operation can do.** -/
theorem transaction_of_perform {op : Op} {reply : Reply} {s' : Store}
    (h : perform env now s op = .ok (reply, s')) : Transaction env now s op s' := by
  cases op with
  | register q =>
      obtain ⟨record, hrec, h⟩ := except_bind_eq_ok.mp h
      obtain ⟨⟨reply, s''⟩, hreg, h⟩ := except_bind_eq_ok.mp h
      cases h
      rcases register_cases hreg with ⟨-, -, rfl⟩ | ⟨-, hopen, -, staged, hstaged, rfl⟩ |
        ⟨-, hopen, hidle, staged, stored, hdump, hstaged, rfl⟩
      · exact .unchanged
      · exact .ignored hrec hopen hstaged
      · exact .accepted hrec hopen hidle hdump hstaged
  | claim kind owner stop =>
      obtain ⟨⟨reply, s''⟩, hc, h⟩ := except_bind_eq_ok.mp h
      cases h
      exact (claim_cases hc).1
  | returnUnstarted identity owner score =>
      obtain ⟨⟨r, s''⟩, hc, h⟩ := except_bind_eq_ok.mp h
      cases h
      exact transaction_of_change rfl (fun _ _ => returnUnstarted_edit) hc
  | heartbeat identity owner =>
      obtain ⟨⟨r, s''⟩, hc, h⟩ := except_bind_eq_ok.mp h
      cases h
      exact transaction_of_change rfl (fun _ _ => heartbeat_edit) hc
  | progress identity owner step done total =>
      obtain ⟨⟨r, s''⟩, hc, h⟩ := except_bind_eq_ok.mp h
      cases h
      exact transaction_of_change rfl (fun _ _ => progress_edit) hc
  | finish identity owner status result error =>
      obtain ⟨⟨r, s''⟩, hc, h⟩ := except_bind_eq_ok.mp h
      cases h
      exact transaction_of_change rfl (fun _ _ => finish_edit) hc
  | cancel target =>
      obtain ⟨⟨r, s''⟩, hc, h⟩ := except_bind_eq_ok.mp h
      cases h
      obtain ⟨record, -, hc⟩ := cancel_cases hc
      exact transaction_of_change rfl (fun _ _ => cancel_edit) hc
  | recover identity =>
      obtain ⟨⟨r, s''⟩, hc, h⟩ := except_bind_eq_ok.mp h
      cases h
      exact transaction_of_change rfl (fun _ _ => recover_edit) hc
  | claimResult identity publisher =>
      obtain ⟨⟨r, s''⟩, hc, h⟩ := except_bind_eq_ok.mp h
      cases h
      exact transaction_of_change rfl (fun _ _ => claimResult_edit) hc
  | acknowledgeResult identity publisher =>
      obtain ⟨⟨done, s''⟩, hc, h⟩ := except_bind_eq_ok.mp h
      cases h
      rcases acknowledgeResult_cases hc with ⟨-, rfl⟩ |
        ⟨raw, record, stored, -, hraw, hload, howner, hdump, rfl⟩
      · exact .unchanged
      · exact .acknowledged hraw hload howner hdump
  | stagePhotos message topic =>
      obtain ⟨⟨reply, s''⟩, hc, h⟩ := except_bind_eq_ok.mp h
      cases h
      rcases stagePhotos_cases hc with ⟨-, -, rfl⟩ | ⟨-, -, rfl⟩ |
        ⟨-, hopen, old, buffer, hnew, hins, hold, rfl⟩
      · exact .unchanged
      · exact .unchanged
      · exact .staged hopen hold hnew hins
  | popBatch =>
      cases h
      unfold popBatch
      split
      · exact .unchanged
      · rename_i hfirst
        exact .popped hfirst

theorem transaction_after (env : Env) (now : Time) (s : Store) (op : Op) :
    Transaction env now s op (after env now op s) := by
  unfold after
  split
  · rename_i hperf
    exact transaction_of_perform hperf
  · exact .unchanged

end Transactions

end Yeodam.Jobs
