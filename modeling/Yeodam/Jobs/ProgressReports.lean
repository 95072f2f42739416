/-
The progress reports of `process` on their way into the job store
(`RedisJobStore.progress`).

The store compares the total of a report with the one its record was registered with.
Both count the same photos: the intake counts the members of `attachments` in the stored
request, and the handler validates the same request and hands its photos to `run`.
`JobRecord.Counts` is the invariant: no step of the store separates the two, whatever
else it does to the record.
-/

import Yeodam.Jobs.Kafka
import Yeodam.Jobs.Slots
import Yeodam.Pipeline.Conservation
import Yeodam.Pipeline.Reports
import Yeodam.Schemas.Rendering

namespace Yeodam.Jobs

open Yeodam.Lib Yeodam.Schemas

variable {env : Env} {now : Time} {i : String} {op : Op} {s : Store} {n : Nat}
  {r r' raw stored : JobRecord}

/-- `ProcessMessage` is a `ProcessRequest`; `original_input_only` empties the places. -/
def ProcessMessage.toRequest (m : ProcessMessage) : ProcessRequest where
  executionId := some m.executionId
  tripName := m.tripName
  period := m.period
  regions := m.regions
  attachments := m.attachments
  existingPlaces := []

/-- What `progress` raises for a report that does not fit its record. -/
def contractError : JobError := .value "작업 종류와 진행률 계약 불일치"

/-! ### The photos of a request -/

/-- The members of `attachments` in a request. -/
def photoCount (request : Value) : Nat :=
  (((request.get? "attachments").map Value.items).getD []).length

theorem photoCount_wire (request : Value) : photoCount request.wire = photoCount request := by
  unfold photoCount
  rw [Value.get?_wire]
  cases request.get? "attachments" with
  | none => rfl
  | some v => exact v.length_items_wire

theorem length_of_listOf {α : Type} {decode : Value → Option α} {v : Value} {xs : List α}
    (h : listOf decode v = some xs) : v.items.length = xs.length := by
  unfold listOf at h
  split at h
  · rename_i us
    induction us generalizing xs with
    | nil =>
        cases h
        rfl
    | cons u us ih =>
        simp only [List.mapM_cons, Option.bind_eq_bind, Option.bind_eq_some_iff, Option.pure_def,
          Option.some.injEq] at h
        obtain ⟨y, -, ys, hys, rfl⟩ := h
        exact congrArg (· + 1) (ih hys)
  · cases h

/-- A request that validates has the photos its text has. -/
theorem photoCount_of_validate {lib : Libraries} {request : Value} {m : ProcessMessage}
    (h : ProcessMessage.validate lib request = some m) :
    photoCount request = m.attachments.length := by
  have h := model_cases h
  simp only [Option.bind_eq_bind, Option.bind_eq_some_iff, Option.pure_def,
    Option.some.injEq] at h
  obtain ⟨_, -, _, -, _, -, _, -, attachments, hattachments, _, -, _, -, _, -, _, -, rfl⟩ := h
  obtain ⟨v, hv, hdecode⟩ := Option.bind_eq_some_iff.mp hattachments
  unfold photoCount
  rw [hv]
  exact length_of_listOf (constrained_cases hdecode).1

/-! ### The record counts its photos -/

/-- The record of a `process` of `n` photos. -/
structure JobRecord.Counts (n : Nat) (r : JobRecord) : Prop where
  kind : r.kind = .process
  total : r.progress.total = n
  photos : photoCount r.request = n

theorem JobRecord.Counts.load (h : raw.Counts n) (hload : raw.load env = .ok r) : r.Counts n := by
  unfold JobRecord.load at hload
  split at hload
  · split at hload
    · cases hload
      exact h
    · obtain ⟨e, -, rfl⟩ := except_map_eq_ok.mp hload
      exact ⟨h.kind, h.total, h.photos⟩
  · cases hload

theorem JobRecord.Counts.dump (h : r.Counts n) (hdump : r.dump env = .ok stored) :
    stored.Counts n := by
  unfold JobRecord.dump at hdump
  split at hdump
  · cases hdump
    exact ⟨h.kind, h.total, (photoCount_wire r.request).trans h.photos⟩
  · cases hdump

theorem JobRecord.Counts.terminate (h : r.Counts n) {status : TerminalStatus}
    {result : Option Value} {error : Option ErrorBody}
    (hterm : terminate env r status result error = .ok r') : r'.Counts n := by
  obtain ⟨_, e, -, -, rfl⟩ := terminate_cases hterm
  refine ⟨h.kind, ?_, h.photos⟩
  dsimp only
  split <;> exact h.total

theorem Edit.counts {queueScore : Option Time} (h : Edit env now op r r' queueScore)
    (hr : r.Counts n) : r'.Counts n := by
  cases h with
  | renew | giveBack | flag | leaseResult => exact ⟨hr.kind, hr.total, hr.photos⟩
  | report _ _ htotal => exact ⟨hr.kind, htotal.trans hr.total, hr.photos⟩
  | finish _ _ hterm => exact hr.terminate hterm
  | stop _ _ _ hterm => exact hr.terminate hterm
  | recover _ _ hterm => exact hr.terminate hterm
  | cancelQueued _ hterm =>
      refine JobRecord.Counts.terminate ?_ hterm
      exact ⟨hr.kind, hr.total, hr.photos⟩

theorem RecordStep.counts (h : RecordStep env now i op (some raw) (some stored))
    (hraw : raw.Counts n) : stored.Counts n := by
  cases h with
  | keep => exact hraw
  | started hload _ hdump =>
      have hr := hraw.load hload
      refine JobRecord.Counts.dump ?_ hdump
      exact ⟨hr.kind, hr.total, hr.photos⟩
  | edited _ hload hedit hdump => exact (hedit.counts (hraw.load hload)).dump hdump
  | acknowledged hload _ hdump =>
      have hr := hraw.load hload
      refine JobRecord.Counts.dump ?_ hdump
      exact ⟨hr.kind, hr.total, hr.photos⟩

/-- **No run of the store separates a record from the photos of its request.** -/
theorem counts_of_run {w w' : World} {es : List Event} (h : Run (Step env) w es w')
    (hw : ∃ r, w.store.jobs i = some r ∧ r.Counts n) :
    ∃ r, w'.store.jobs i = some r ∧ r.Counts n := by
  refine h.preserves (P := fun w => ∃ r, w.store.jobs i = some r ∧ r.Counts n) ?_ hw
  rintro w e w' ⟨raw, hraw, hcounts⟩ hstep
  have hrec := recordStep_of_step hstep i
  rw [hraw] at hrec
  obtain ⟨stored, hstored, -⟩ := hrec.sameExecution
  rw [hstored] at hrec
  exact ⟨stored, hstored, hrec.counts hcounts⟩

/-! ### The record an accepted message creates -/

section Accept

variable {json : JsonLibrary} {m : Incoming} {q : Intake} {kind : JobKind} {topic : String}

theorem counts_of_parse (h : parse env json kind topic m = .ok (.job q))
    (hkind : q.kind = .process) : q.total = photoCount q.request := by
  obtain ⟨data, e, -, -, -, rfl⟩ := parse_job h
  cases hkind
  rfl

/-- A record that is there after a message and was not before is the one it asked for. -/
theorem accept_creates {faults : Faults} {services : Services}
    (hnone : services.store.jobs i = none)
    (hsome : (accept env json m faults now services).2.store.jobs i = some stored) :
    ∃ kind topic q, parse env json kind topic m = .ok (.job q) ∧
      RecordStep env now i (.register q) none (some stored) := by
  unfold accept at hsome
  split at hsome
  · rw [reject_store, hnone] at hsome
    cases hsome
  · rename_i outcome s' hexamine
    dsimp only at hsome
    unfold examine at hexamine
    split at hexamine
    · cases hexamine
      rw [hnone] at hsome
      cases hsome
    · rename_i kind topic _
      split at hexamine
      · cases hexamine
      · -- A staged batch writes no record.
        rename_i message _
        have hstage : s' = (transact faults.store services.store
            (perform env now services.store (.stagePhotos message m.topic))).2 := by
          split at hexamine
          · rename_i heq
            split at hexamine
            · cases hexamine
            · cases hexamine
              rw [heq]
          · rename_i heq
            cases hexamine
            rw [heq]
        rcases transact_store faults.store services.store
          (perform env now services.store (.stagePhotos message m.topic)) with hsame | ⟨reply, hok⟩
        · rw [hstage, hsame, hnone] at hsome
          cases hsome
        · rw [← hstage] at hok
          have hrec := recordStep_of_transaction (transaction_of_perform hok) i
          rw [hnone, hsome] at hrec
          cases hrec
      · rename_i q hparse
        refine ⟨kind, topic, q, hparse, ?_⟩
        have hregister : s' = (transact faults.store services.store
            (perform env now services.store (.register q))).2 := by
          cases hexamine
          rfl
        rcases transact_store faults.store services.store
          (perform env now services.store (.register q)) with hsame | ⟨reply, hok⟩
        · rw [hregister, hsame, hnone] at hsome
          cases hsome
        · rw [← hregister] at hok
          have hrec := recordStep_of_transaction (transaction_of_perform hok) i
          rwa [hnone, hsome] at hrec

theorem RecordStep.counts_of_registered (h : RecordStep env now i (.register q) none (some stored))
    (htotal : q.kind = .process → q.total = photoCount q.request) (hkind : stored.kind = .process) :
    stored.Counts q.total := by
  cases h with
  | @registered _ record _ hrec _ hdump =>
      obtain ⟨-, hsame, -⟩ := Intake.record_cases hrec
      have hstored := (JobRecord.SameExecution.of_core (JobRecord.dump_core hdump)).kind
      have hprocess : q.kind = .process := (hstored.trans hsame).symm.trans hkind
      have hblank : q.blank.Counts q.total := ⟨hprocess, rfl, (htotal hprocess).symm⟩
      have hrecord : record.Counts q.total := by
        unfold Intake.record at hrec
        split at hrec
        · exact hblank.terminate hrec
        · cases hrec
          exact hblank
      refine JobRecord.Counts.dump ?_ hdump
      exact ⟨hrecord.kind, hrecord.total, hrecord.photos⟩

end Accept

/-! ### What the store makes of a report -/

/-- The step belongs to `process`. -/
theorem text_mem_allowedSteps (step : ProcessStep) : step.text ∈ allowedSteps .process := by
  cases step <;> simp [ProcessStep.text, allowedSteps]

theorem writeChange_error {wasTerminal : Bool} {queueScore : Option Time} {e : JobError}
    (h : writeChange env i wasTerminal r queueScore now s = .error e) :
    e = .serialization ∨ e = .type := by
  unfold writeChange at h
  rcases except_bind_eq_error.mp h with h | ⟨stored, -, h⟩
  · unfold JobRecord.dump at h
    split at h
    · cases h
    · cases h
      exact .inl rfl
  · dsimp only at h
    split at h
    · cases h
    · cases h
    · cases h
    · split at h
      · cases h
        exact .inr rfl
      · cases h
    · split at h <;> cases h

/-- A report of at most `n` photos of `n` breaks no contract, whoever sends it. -/
theorem progress_ne_contractError {owner : String} {step : ProcessStep} {done : Nat}
    (hraw : s.jobs i = some raw) (hcounts : raw.Counts n) (hdone : done ≤ n) :
    perform env now s (.progress i owner step.text done n) ≠ .error contractError := by
  intro h
  rcases except_bind_eq_error.mp h with h | ⟨_, -, h⟩
  · unfold progress change at h
    rw [hraw] at h
    rcases except_bind_eq_error.mp h with h | ⟨record, hload, h⟩
    · obtain ⟨message, h⟩ := load_error h
      cases h
    rcases except_bind_eq_error.mp h with h | ⟨changed, -, h⟩
    · have hrecord := hcounts.load hload
      unfold progressUpdate at h
      split at h
      · rw [hrecord.kind, hrecord.total] at h
        have hfits : ¬ (step.text ∉ allowedSteps .process ∨ (n : Int) ≠ n ∨
            ¬ (0 ≤ (done : Int) ∧ (done : Int) ≤ n)) := by
          have hstep := text_mem_allowedSteps step
          simp only [not_or, not_not]
          exact ⟨hstep, trivial, by omega⟩
        rw [if_neg hfits] at h
        cases h
      · cases h
    · cases changed with
      | none => cases h
      | some changed =>
          rcases except_bind_eq_error.mp h with h | ⟨_, -, h⟩
          · rcases writeChange_error h with h | h <;> cases h
          · cases h
  · cases h

/-- The handler of the record that an accepted message created is about to run on a request. -/
inductive Handled (env : Env) (json : JsonLibrary) (i : String) :
    World → ProcessRequest → Prop where
  | intro {m : Incoming} {faults : Faults} {now : Time} {services accepted : Services}
      {created : JobRecord} {es : List Event} {w : World} {record : JobRecord}
      {message : ProcessMessage} :
      services.store.jobs i = none →
      (accept env json m faults now services).2 = accepted →
      accepted.store.jobs i = some created → created.kind = .process →
      Run (Step env) ⟨now, accepted.store⟩ es w →
      get env i w.store = .ok (some record) →
      ProcessMessage.validate env.libraries record.request = some message →
      Handled env json i w message.toRequest

theorem Handled.counts {json : JsonLibrary} {w : World} {request : ProcessRequest}
    (h : Handled env json i w request) :
    ∃ r, w.store.jobs i = some r ∧ r.Counts request.attachments.length := by
  cases h with
  | intro hnone haccept hcreated hkind hrun hget hvalid =>
      subst haccept
      obtain ⟨kind, topic, q, hparse, hregistered⟩ := accept_creates hnone hcreated
      have hcounts := hregistered.counts_of_registered (counts_of_parse hparse) hkind
      obtain ⟨r, hr, hcounts⟩ := counts_of_run hrun ⟨_, hcreated, hcounts⟩
      rcases get_cases hget with ⟨hmissing, -⟩ | ⟨raw, record, hrecord, hraw, hload⟩
      · cases hmissing
      · cases hrecord
        rw [hr] at hraw
        cases hraw
        have hphotos := photoCount_of_validate hvalid
        rw [(hcounts.load hload).photos] at hphotos
        exact ⟨r, hr, hphotos ▸ hcounts⟩

/-- **Progress reports are well formed**, and the store the record of whose request they are
about never raises its contract error for one of them, in whatever order other operations come
between. -/
theorem progress_in_contract {B I V : Type} {N : Pipeline.Numerics V} {ctx : Pipeline.Context B I V}
    {request : ProcessRequest} {interrupt : List Pipeline.Event → Option Pipeline.Raised}
    {calls : List Pipeline.ProgressCall} (h : Pipeline.Heard N ctx request interrupt calls) :
    Pipeline.WellFormed request.attachments.length calls ∧
    (∀ result, (Pipeline.run N ctx request).execute interrupt = .ok result →
      calls.getLast? =
        some (.finalizing, request.attachments.length, request.attachments.length)) ∧
    ∀ env json i w, Handled env json i w request → ∀ es w', Run (Step env) w es w' →
      ∀ now owner, ∀ c ∈ calls,
        perform env now w'.store (.progress i owner c.1.text c.2.1 c.2.2) ≠
          .error contractError := by
  obtain ⟨hformed, hlast⟩ := Pipeline.heard_wellFormed h
  refine ⟨hformed, hlast, ?_⟩
  intro env json i w hhandled es w' hrun now owner c hc
  obtain ⟨r, hr, hcounts⟩ := counts_of_run hrun hhandled.counts
  rw [hformed.totals c hc]
  exact progress_ne_contractError hr hcounts (hformed.bounded c hc)

/-! ### Two photos on their way -/

/-- The `process` request `sampleProcess` is registered for. -/
def sampleBody : Value :=
  .record [("type", .ofString "process"), ("trip_id", .int 8), ("execution_id", .ofString "e2"),
    ("trip_name", .ofString "제주"),
    ("period", .record [("start_date", .ofString "2024-05-01"),
      ("end_date", .ofString "2024-05-02")]),
    ("regions", .arr [.record [("latitude", .float (.finite "33.4")),
      ("longitude", .float (.finite "126.5"))]]),
    ("attachments", .arr [
      .record [("trip_attachment_id", .int 1), ("analyze_storage_key", .ofString "k")],
      .record [("trip_attachment_id", .int 2), ("analyze_storage_key", .ofString "l")]]),
    ("trigger", .ofString "TRIP_CREATED")]

/-- The text of `sampleBody`. -/
def sampleText : String :=
  "\x7b\"type\":\"process\",\"trip_id\":8,\"execution_id\":\"e2\",\"trip_name\":\"제주\"," ++
  "\"period\":\x7b\"start_date\":\"2024-05-01\",\"end_date\":\"2024-05-02\"\x7d," ++
  "\"regions\":[\x7b\"latitude\":33.4,\"longitude\":126.5\x7d]," ++
  "\"attachments\":[\x7b\"trip_attachment_id\":1,\"analyze_storage_key\":\"k\"\x7d," ++
  "\x7b\"trip_attachment_id\":2,\"analyze_storage_key\":\"l\"\x7d]," ++
  "\"trigger\":\"TRIP_CREATED\"\x7d"

/-- `json`, where `sampleText` is the only text sent. -/
def sampleJson : JsonLibrary where
  nesting := 1000
  loads bytes := if bytes.isEmpty then none else some sampleBody
  loads_nesting := by
    intro bytes v h
    obtain ⟨-, h⟩ := Option.ite_none_left_eq_some.mp h
    cases h
    decide
  loads_digits := by
    intro bytes v n h hn
    obtain ⟨-, h⟩ := Option.ite_none_left_eq_some.mp h
    cases h
    cases hn
    decide

def sampleMessage : Incoming :=
  ⟨"local.yeodam.trip-create.request", 0, 0, some "8".toUTF8, some sampleText.toUTF8⟩

def quietServices : Services := ⟨.initial, fun _ => none, []⟩

/-- The services once `sampleMessage` is accepted. -/
@[irreducible] def acceptedServices : Services :=
  (accept sampleEnv sampleJson sampleMessage {} 1 quietServices).2

def acceptedIdentity : String := identity sampleDigest 8 .process "e2"

def acceptedRecord : JobRecord :=
  (acceptedServices.store.jobs acceptedIdentity).getD sampleProcess.blank

def acceptedMessage : ProcessMessage :=
  (ProcessMessage.validate sampleLibraries acceptedRecord.request).getD
    ⟨"", "", ⟨0, 0⟩, [], [], 0, .tripCreated⟩

theorem acceptedMessage_eq :
    ProcessMessage.validate sampleLibraries acceptedRecord.request = some acceptedMessage := by
  have hsome : (ProcessMessage.validate sampleLibraries acceptedRecord.request).isSome = true := by
    decide +kernel
  obtain ⟨message, hmessage⟩ := Option.isSome_iff_exists.mp hsome
  rw [acceptedMessage, hmessage]
  rfl

theorem acceptedRecord_eq : acceptedServices.store.jobs acceptedIdentity = some acceptedRecord := by
  have hsome : (acceptedServices.store.jobs acceptedIdentity).isSome = true := by decide +kernel
  obtain ⟨record, hrecord⟩ := Option.isSome_iff_exists.mp hsome
  rw [acceptedRecord, hrecord]
  rfl

theorem get_acceptedRecord :
    get sampleEnv acceptedIdentity acceptedServices.store = .ok (some acceptedRecord) := by
  have hload : acceptedRecord.load sampleEnv = .ok acceptedRecord := by
    have hnesting : acceptedRecord.nesting ≤ sampleEnv.readNesting := by decide +kernel
    have hevent : acceptedRecord.event.isNone = true := by decide +kernel
    unfold JobRecord.load
    rw [if_pos hnesting, Option.isNone_iff_eq_none.mp hevent]
  unfold get
  rw [acceptedRecord_eq]
  exact congrArg (Except.map some) hload

theorem handled_acceptedMessage :
    Handled sampleEnv sampleJson acceptedIdentity ⟨1, acceptedServices.store⟩
      acceptedMessage.toRequest := by
  have hnone : quietServices.store.jobs acceptedIdentity = none := rfl
  have hkind : acceptedRecord.kind = .process := by decide +kernel
  have haccept : (accept sampleEnv sampleJson sampleMessage {} 1 quietServices).2 =
      acceptedServices := by
    unfold acceptedServices
    exact Eq.refl _
  exact .intro hnone haccept acceptedRecord_eq hkind (.refl _) get_acceptedRecord acceptedMessage_eq

/-- What a run on `acceptedMessage` reports. -/
def acceptedReports : List (ProcessStep × Nat) :=
  [.downloading, .embedding, .clock, .locating, .clustering, .filtering, .finalizing].flatMap
    fun step => [(step, 0), (step, 2)]

/-- The heartbeat repeats the first report. -/
def acceptedCalls : List Pipeline.ProgressCall :=
  ((.downloading, 0) :: acceptedReports).map fun r => (r.1, r.2, 2)

theorem heard_acceptedCalls :
    Pipeline.Heard Pipeline.sampleNumerics Pipeline.sampleContext acceptedMessage.toRequest
      Script.quiet acceptedCalls := by
  have hreports : acceptedReports = Pipeline.reportsOf ((Pipeline.run Pipeline.sampleNumerics
      Pipeline.sampleContext acceptedMessage.toRequest).passed Script.quiet) := by
    decide +kernel
  have hlength : acceptedMessage.toRequest.attachments.length = 2 := by decide +kernel
  refine ⟨acceptedReports, (.downloading, 0) :: acceptedReports, hreports ▸ List.prefix_rfl,
    fun _ _ => hreports, .cons (ProcessStep.downloading, 0) 1 (.refl acceptedReports.tail), ?_⟩
  rw [hlength]
  rfl

theorem progress_in_contract_acceptedCalls :
    Pipeline.WellFormed 2 acceptedCalls ∧
    ∀ owner, ∀ c ∈ acceptedCalls,
      perform sampleEnv 2 acceptedServices.store
        (.progress acceptedIdentity owner c.1.text c.2.1 c.2.2) ≠ .error contractError := by
  have hlength : acceptedMessage.toRequest.attachments.length = 2 := by decide +kernel
  obtain ⟨hformed, -, hcontract⟩ := progress_in_contract heard_acceptedCalls
  rw [hlength] at hformed
  have hstore := hcontract sampleEnv sampleJson acceptedIdentity ⟨1, acceptedServices.store⟩
    handled_acceptedMessage [] ⟨1, acceptedServices.store⟩ (.refl _) 2
  exact ⟨hformed, hstore⟩

end Yeodam.Jobs
