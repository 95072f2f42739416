/-
Which messages the intake survives (`RequestReceiver.accept` in `app/jobs/kafka.py`).

The receiver reads a body with `json` and checks no nesting; the record that keeps the body is
written and read by pydantic, whose limits are lower. A body that fails its schema is kept as it
came. Three things therefore go wrong: a record that cannot be written, one that can be written and
not read again, and a later message of the same trip, which reads that record first. Besides, a
valid coordinate may be the text `"nan"`, and what is stored for it is `null`.

`survives_iff` is the exact condition.
-/

import Yeodam.Jobs.Kafka
import Yeodam.Jobs.Registration
import Yeodam.Jobs.Staging

namespace Yeodam.Jobs

open Yeodam.Lib Yeodam.Schemas

section

variable {env : Env} {json : JsonLibrary} {m : Incoming} {faults : Faults} {fault : RedisFault}
  {now : Time} {s s' : Store} {services : Services} {kind : JobKind} {resultTopic : String}
  {q : Intake} {e : Envelope} {data : Value} {record stored : JobRecord} {reply : Reply}
  {error : JobError} {reason : RejectReason} {result : Except JobError (Reply × Store)}

/-! ### Surviving -/

/-- The record that a message asks for. -/
def Writes (env : Env) (json : JsonLibrary) (m : Incoming) (now : Time) (written : JobRecord) :
    Prop :=
  ∃ kind resultTopic q record, env.cfg.topics.lookup m.topic = some (kind, resultTopic) ∧
    parse env json kind resultTopic m = .ok (.job q) ∧ q.record env = .ok record ∧
    written = { record with createdAt := now }

/-- The receiver returns or raises what its caller expects, and whatever it has stored is read
back as it was written. -/
structure Survives (env : Env) (json : JsonLibrary) (m : Incoming) (faults : Faults) (now : Time)
    (services : Services) : Prop where
  handled : (accept env json m faults now services).1.handled = true
  records : ∀ i stored, (accept env json m faults now services).2.store.jobs i = some stored →
    services.store.jobs i ≠ some stored →
      ∃ written, Writes env json m now written ∧ stored.load env = .ok written
  buffers : ∀ i kept, (accept env json m faults now services).2.store.photoBatches i = some kept →
    services.store.photoBatches i ≠ some kept → kept.value.load env = .ok kept.value

/-- A valid body has no NaN and no infinity, and another has few levels enough. -/
def Storable (env : Env) (data : Value) : Prop :=
  match renderMessage env.libraries data with
  | some request => request.finite = true
  | none => data.nesting + 1 ≤ env.readNesting

/-- Where a new execution is registered, the record of the trip's latest one can be read, and that
one is still live or the body is storable. -/
def Survivable (env : Env) (json : JsonLibrary) (m : Incoming) (fault : RedisFault) (s : Store) :
    Prop :=
  ∀ kind resultTopic q data, env.cfg.topics.lookup m.topic = some (kind, resultTopic) →
    json.loads (m.value.getD .empty) = some data →
    parse env json kind resultTopic m = .ok (.job q) →
    fault ≠ .lost → s.closed (q.identity env) = false →
    ∃ previous, follow env (s.latest kind q.tripId) s = .ok previous ∧
      ((previous.any fun p => !p.status.terminal) = true ∨ Storable env data)

/-! ### The body that is stored -/

/-- What goes into the record of a body that `json` can dump. -/
theorem request_intake (env : Env) (kind : JobKind) (resultTopic : String) (m : Incoming)
    (e : Envelope) (hdumps : json.dumps data = true) :
    (Envelope.intake env.libraries kind resultTopic m data e).request.encodable = true ∧
    (Storable env data ↔
      (Envelope.intake env.libraries kind resultTopic m data e).request.finite = true ∧
      (Envelope.intake env.libraries kind resultTopic m data e).request.nesting + 1 ≤
        env.readNesting) := by
  simp only [JsonLibrary.dumps, Bool.and_eq_true] at hdumps
  unfold Storable Envelope.intake
  dsimp only
  cases hrender : renderMessage env.libraries data with
  | some request =>
      have hnesting := nesting_renderMessage env.libraries hrender
      have hread := env.readNesting_ge
      refine ⟨encodable_renderMessage env.libraries hrender, fun h => ⟨h, ?_⟩, fun h => h.1⟩
      rw [Option.getD_some]
      omega
  | none => exact ⟨hdumps.2, fun h => ⟨hdumps.1.2, h⟩, fun h => h.2⟩

/-- The record of an intake. -/
theorem Intake.record_eq : q.record env =
    .ok (if q.invalid then q.blank.noticed .failed (some invalidRequest) else q.blank) := by
  unfold Intake.record
  split
  · apply terminate_notice q.bounded_blank (by decide) (by simp)
    rintro b ⟨⟩
    exact small_invalidRequest
  · rfl

/-- The event of a body that fails its schema. -/
theorem Intake.event_cases (h : q.record env = .ok record) :
    record.request = q.request ∧ (record.event = none ∨
      ∃ e, record.event = some e ∧ e.wire = e ∧ e.toValue.nesting ≤ 3 ∧
        e.toValue.encodable = true ∧ e.checkPayload env = .ok e) := by
  rw [Intake.record_eq] at h
  split at h
  · cases h
    refine ⟨rfl, .inr ⟨_, rfl, rfl, ?_, rfl, rfl⟩⟩
    simp [JobResultEvent.toValue, invalidRequest, ErrorBody.toValue, Value.record, Value.ofString,
      Value.nesting, Value.nestingFields]
  · cases h
    exact ⟨rfl, .inl rfl⟩

/-- The record can be written if its body can. -/
theorem dump_intake (h : q.record env = .ok record) (hencodable : q.request.encodable = true)
    (hnesting : q.request.nesting + 1 ≤ env.readNesting) :
    JobRecord.dump env { record with createdAt := now } =
      .ok (JobRecord.wire { record with createdAt := now }) := by
  obtain ⟨hrequest, hevent⟩ := Intake.event_cases h
  have hread := env.readNesting_ge
  have hwrite := env.nesting_lt
  apply JobRecord.dump_ok
  · unfold JobRecord.nesting
    rcases hevent with he | ⟨e, he, -, hsmall, -⟩
    · simp only [he, hrequest, Option.map_none, Option.getD_none]
      omega
    · simp only [he, hrequest, Option.map_some, Option.getD_some]
      omega
  · unfold JobRecord.encodable
    rcases hevent with he | ⟨e, he, -, -, htext, -⟩
    · simp [he, hrequest, hencodable]
    · simp [he, hrequest, hencodable, htext]

/-- **What is written of an intake is read back as it was**, exactly if its body is. -/
theorem load_intake (h : q.record env = .ok record) :
    (JobRecord.wire { record with createdAt := now }).load env =
        .ok { record with createdAt := now } ↔
      q.request.finite = true ∧ q.request.nesting + 1 ≤ env.readNesting := by
  obtain ⟨hrequest, hevent⟩ := Intake.event_cases h
  have hread := env.readNesting_ge
  have hnesting : (JobRecord.wire { record with createdAt := now }).nesting ≤ env.readNesting ↔
      q.request.nesting + 1 ≤ env.readNesting := by
    rw [JobRecord.nesting_wire]
    unfold JobRecord.nesting
    rcases hevent with he | ⟨e, he, -, hsmall, -⟩
    · simp only [he, hrequest, Option.map_none, Option.getD_none]
      omega
    · simp only [he, hrequest, Option.map_some, Option.getD_some]
      omega
  constructor
  · intro hload
    unfold JobRecord.load at hload
    split at hload
    · rename_i hle
      refine ⟨?_, hnesting.mp hle⟩
      have hsame : record.request.wire = record.request := by
        rcases hevent with he | ⟨e, he, hwire, -, -, hcheck⟩
        · simp only [JobRecord.wire, he, Option.map_none] at hload
          exact congrArg JobRecord.request (Except.ok.inj hload)
        · simp only [JobRecord.wire, he, Option.map_some, hwire, hcheck, Except.map] at hload
          exact congrArg JobRecord.request (Except.ok.inj hload)
      rw [hrequest] at hsame
      rw [← hsame]
      exact Value.finite_wire _
    · cases hload
  · rintro ⟨hfinite, hle⟩
    unfold JobRecord.load
    rw [if_pos (hnesting.mpr hle)]
    have hsame : record.request.wire = record.request := by
      rw [hrequest]
      exact Value.wire_of_finite hfinite
    rcases hevent with he | ⟨e, he, hwire, -, -, hcheck⟩
    · simp [JobRecord.wire, he, hsame]
    · simp [JobRecord.wire, he, hsame, hwire, hcheck, Except.map]

/-! ### The registration -/

theorem exists_stagedBatches (env : Env) (i : String) (now : Time) (s : Store) :
    ∃ staged, stagedBatches env i now s = .ok staged := by
  unfold stagedBatches
  split
  · rw [PhotoBatchBuffer.load_eq]
    exact ⟨_, rfl⟩
  · exact ⟨_, rfl⟩

/-- The registration of an execution that is open, as what it reads and writes. -/
theorem perform_register_open (now : Time) (hrec : q.record env = .ok record)
    (hopen : s.closed (q.identity env) = false) :
    ∃ staged, perform env now s (.register q) = (do
      let previous ← follow env (s.latest q.kind q.tripId) s
      if previous.any fun p => !p.status.terminal then
        .ok (.register .busy, s.ignore (q.identity env) staged)
      else do
        let stored ← JobRecord.dump env { record with createdAt := now }
        .ok (.register .accepted, s.accept (q.identity env) stored staged now)) := by
  obtain ⟨staged, hstaged⟩ := exists_stagedBatches env (q.identity env) now s
  obtain ⟨htrip, hkind, -⟩ := Intake.record_cases hrec
  have hlatest : s.latest record.kind record.tripId = s.latest q.kind q.tripId := by
    rw [htrip, hkind]
  refine ⟨staged, ?_⟩
  simp only [perform, hrec, except_ok_bind, register, Intake.record_identity hrec, hopen,
    Bool.false_eq_true, if_false, hstaged, hlatest]
  cases follow env (s.latest q.kind q.tripId) s with
  | error => rfl
  | ok previous =>
      simp only [except_ok_bind]
      split
      · rfl
      · cases JobRecord.dump env { record with createdAt := now } <;> rfl

/-! ### The receiver, by what it reads -/

theorem transact_error (hfault : fault ≠ .lost) :
    transact fault s (.error error) = (.raised (.job error), s) := by
  cases fault with
  | lost => cases hfault rfl
  | none | unanswered => rfl

/-- A transaction that raises nothing is answered or its answer is lost. -/
theorem transact_ok (reply : Reply) (s' : Store) :
    (transact fault s (.ok (reply, s'))).1.handled = true ∧
      ((transact fault s (.ok (reply, s'))).2 = s' ∨
        (transact fault s (.ok (reply, s'))).2 = s) := by
  cases fault with
  | lost => exact ⟨rfl, .inr rfl⟩
  | none | unanswered => exact ⟨rfl, .inl rfl⟩

theorem transact_lost : transact .lost s result = (.raised .redis, s) := by
  unfold transact
  rfl

theorem reject_handled : (reject env m reason faults now services).1.handled = true := by
  unfold reject quarantine
  dsimp only
  split
  · rfl
  · rfl
  · split <;> rfl

theorem accept_job (faults : Faults) (now : Time) (services : Services)
    (htopic : env.cfg.topics.lookup m.topic = some (kind, resultTopic))
    (hparse : parse env json kind resultTopic m = .ok (.job q)) :
    accept env json m faults now services =
      ((transact faults.store services.store (perform env now services.store (.register q))).1,
        { services with store := (transact faults.store services.store
          (perform env now services.store (.register q))).2 }) := by
  simp only [accept, examine, htopic, hparse]

/-- A batch that is not staged is refused with a `ValueError`. -/
theorem stagePhotos_error {message : PhotosReadyMessage} {topic : String}
    (h : stagePhotos env message topic now s = .error error) : error.isValueError = true := by
  have hinsert : ∀ {b : PhotoBatchBuffer} {batchNo : String} {photos : List ReadyAttachment},
      b.insert batchNo photos = .error error → error.isValueError = true := by
    intro b batchNo photos h
    have hextend : ∀ {photos : List ReadyAttachment} {known : KnownPhotos},
        known.extend photos = .error error → error.isValueError = true := by
      intro photos
      induction photos with
      | nil =>
          intro known h
          cases h
      | cons photo photos ih =>
          intro known h
          unfold KnownPhotos.extend at h
          split at h
          · exact ih h
          · cases h
            rfl
    unfold PhotoBatchBuffer.insert at h
    rcases except_bind_eq_error.mp h with h | ⟨known, -, h⟩
    · exact hextend h
    · dsimp only at h
      split at h
      · cases h
        rfl
      · split at h
        · cases h
          rfl
        · cases h
  unfold stagePhotos bufferFor at h
  dsimp only at h
  split at h
  · cases h
  rcases except_bind_eq_error.mp h with h | ⟨buffer, -, h⟩
  · split at h
    · rw [PhotoBatchBuffer.load_eq] at h
      cases h
    · cases h
  · split at h
    · cases h
      rfl
    · split at h
      · split at h
        · cases h
          rfl
        · cases h
      · rcases except_bind_eq_error.mp h with h | ⟨_, -, h⟩
        · exact hinsert h
        · cases h

/-- Everything but a registration survives. -/
theorem accept_of_not_job (faults : Faults) (now : Time) (services : Services)
    (htopic : env.cfg.topics.lookup m.topic = some (kind, resultTopic))
    (hparse : ∀ q, parse env json kind resultTopic m ≠ .ok (.job q)) :
    (accept env json m faults now services).1.handled = true ∧
      (accept env json m faults now services).2.store.jobs = services.store.jobs := by
  unfold accept examine
  simp only [htopic]
  cases hread : parse env json kind resultTopic m with
  | error => exact ⟨reject_handled, congrArg Store.jobs (reject_store ..)⟩
  | ok request =>
      cases request with
      | job q => exact (hparse q hread).elim
      | photos message =>
          cases hstage : stagePhotos env message m.topic now services.store with
          | error error =>
              have hperf : perform env now services.store (.stagePhotos message m.topic) =
                  .error error := by simp [perform, hstage, bind, Except.bind]
              by_cases hfault : faults.store = .lost
              · simp [hfault, transact_lost, Outcome.handled, Raised.handled]
              · simp only [hperf, transact_error hfault, stagePhotos_error hstage, if_true]
                exact ⟨reject_handled, congrArg Store.jobs (reject_store ..)⟩
          | ok staged =>
              obtain ⟨reply, s'⟩ := staged
              have hperf : perform env now services.store (.stagePhotos message m.topic) =
                  .ok (.stage reply, s') := by simp [perform, hstage, bind, Except.bind]
              have hjobs : s'.jobs = services.store.jobs := by
                rcases stagePhotos_cases hstage with ⟨-, -, rfl⟩ | ⟨-, -, rfl⟩ |
                  ⟨-, -, _, _, -, -, -, rfl⟩ <;> rfl
              simp only [hperf]
              cases hfault : faults.store with
              | lost => exact ⟨rfl, rfl⟩
              | none => exact ⟨rfl, hjobs⟩
              | unanswered => exact ⟨rfl, hjobs⟩

/-! ### Which messages survive -/

theorem buffers_survive (i : String) (kept : Expiring PhotoBatchBuffer)
    (_ : (accept env json m faults now services).2.store.photoBatches i = some kept)
    (_ : services.store.photoBatches i ≠ some kept) : kept.value.load env = .ok kept.value :=
  PhotoBatchBuffer.load_eq env kept.value

/-- A record the message asks for is the one of its intake. -/
theorem Writes.eq {written : JobRecord} (h : Writes env json m now written)
    (htopic : env.cfg.topics.lookup m.topic = some (kind, resultTopic))
    (hparse : parse env json kind resultTopic m = .ok (.job q)) (hrec : q.record env = .ok record) :
    written = { record with createdAt := now } := by
  obtain ⟨kind', resultTopic', q', record', htopic', hparse', hrec', rfl⟩ := h
  cases htopic.symm.trans htopic'
  cases hparse.symm.trans hparse'
  cases hrec.symm.trans hrec'
  rfl

/-- The outcome of a transaction on the store, when it was carried out. -/
theorem transact_snd (hfault : fault ≠ .lost) :
    (transact fault s (.ok (reply, s'))).2 = s' := by
  cases fault with
  | lost => cases hfault rfl
  | none | unanswered => rfl

theorem survivable_of_survives (h : Survives env json m faults now services) :
    Survivable env json m faults.store services.store := by
  intro kind resultTopic q data htopic hdata hparse hfault hopen
  obtain ⟨data', e, hdata', hdumps, -, hq⟩ := parse_job hparse
  obtain rfl : data = data' := Option.some.inj (hdata.symm.trans hdata')
  obtain ⟨record, hrec⟩ := Intake.record_ok env q
  obtain ⟨staged, hperf⟩ := perform_register_open now hrec hopen
  have hkind : q.kind = kind := by rw [hq]; rfl
  have haccept := accept_job faults now services htopic hparse
  have hraises : ∀ error, perform env now services.store (.register q) ≠ .error error := by
    intro error herror
    have hhandled := h.handled
    rw [haccept, herror, transact_error hfault] at hhandled
    cases hhandled
  rw [hkind] at hperf
  cases hprevious : follow env (services.store.latest kind q.tripId) services.store with
  | error error =>
      refine (hraises error ?_).elim
      rw [hperf]
      exact except_bind_eq_error.mpr (.inl hprevious)
  | ok previous =>
      refine ⟨previous, rfl, ?_⟩
      by_cases hbusy : (previous.any fun p => !p.status.terminal) = true
      · exact .inl hbusy
      rw [hprevious, except_ok_bind, if_neg hbusy] at hperf
      cases hdump : JobRecord.dump env { record with createdAt := now } with
      | error error =>
          refine (hraises error ?_).elim
          rw [hperf, hdump]
          rfl
      | ok stored =>
          rw [hdump, except_ok_bind] at hperf
          have hstored : (accept env json m faults now services).2.store.jobs (q.identity env) =
              some stored := by
            rw [haccept, hperf, transact_snd hfault]
            dsimp only
            rw [jobs_accept]
            exact jobs_setJob_self
          have hbefore : services.store.jobs (q.identity env) ≠ some stored := by
            rw [Store.jobs_eq_none_of_closed hopen]
            simp
          obtain ⟨written, hwrites, hload⟩ := h.records _ _ hstored hbefore
          obtain rfl := hwrites.eq htopic hparse hrec
          obtain ⟨rfl, -, -⟩ := JobRecord.dump_cases hdump
          rw [hq] at hrec
          have hbody := (load_intake (hq ▸ hrec)).mp hload
          exact .inr ((request_intake env kind resultTopic m e hdumps).2.mpr (hq ▸ hbody))

theorem survives_of_survivable (htopic : env.cfg.topics.lookup m.topic = some (kind, resultTopic))
    (h : Survivable env json m faults.store services.store) :
    Survives env json m faults now services := by
  by_cases hjob : ∃ q, parse env json kind resultTopic m = .ok (.job q)
  swap
  · obtain ⟨hhandled, hjobs⟩ :=
      accept_of_not_job faults now services htopic fun q hq => hjob ⟨q, hq⟩
    refine ⟨hhandled, fun i stored hstored hbefore => ?_, buffers_survive⟩
    rw [hjobs] at hstored
    exact (hbefore hstored).elim
  obtain ⟨q, hparse⟩ := hjob
  have haccept := accept_job faults now services htopic hparse
  -- What leaves the records as they are survives if it is handled.
  have quiet : ∀ {outcome : Outcome} {s' : Store},
      transact faults.store services.store (perform env now services.store (.register q)) =
        (outcome, s') → outcome.handled = true → s'.jobs = services.store.jobs →
      Survives env json m faults now services := by
    intro outcome s' htransact hhandled hjobs
    rw [htransact] at haccept
    refine ⟨by rw [haccept]; exact hhandled, fun i stored hstored hbefore => ?_, buffers_survive⟩
    rw [haccept] at hstored
    exact (hbefore (hjobs ▸ hstored)).elim
  by_cases hfault : faults.store = .lost
  · exact quiet (by rw [hfault]; exact transact_lost) rfl rfl
  have answered : ∀ {reply : Reply} {s' : Store},
      perform env now services.store (.register q) = .ok (reply, s') →
      s'.jobs = services.store.jobs → Survives env json m faults now services := by
    intro reply s' hperf hjobs
    refine quiet (Prod.eta _).symm ?_ ?_
    · rw [hperf]
      exact (transact_ok reply s').1
    · rw [hperf, transact_snd hfault]
      exact hjobs
  cases hclosed : services.store.closed (q.identity env) with
  | true => exact answered (perform_register_closed hclosed) rfl
  | false =>
      obtain ⟨record, hrec⟩ := Intake.record_ok env q
      obtain ⟨data, e, hdata, hdumps, -, hq⟩ := parse_job hparse
      have hkind : q.kind = kind := by rw [hq]; rfl
      obtain ⟨previous, hprevious, hstorable⟩ :=
        h kind resultTopic q data htopic hdata hparse hfault hclosed
      obtain ⟨staged, hperf⟩ := perform_register_open now hrec hclosed
      rw [hkind, hprevious, except_ok_bind] at hperf
      by_cases hbusy : (previous.any fun p => !p.status.terminal) = true
      · rw [if_pos hbusy] at hperf
        exact answered hperf rfl
      rw [if_neg hbusy] at hperf
      have hbody := request_intake env kind resultTopic m e hdumps
      rw [← hq] at hbody
      obtain ⟨hfinite, hnesting⟩ := hbody.2.mp (hstorable.resolve_left hbusy)
      rw [dump_intake hrec hbody.1 hnesting, except_ok_bind] at hperf
      refine ⟨?_, fun i stored hstored hbefore => ?_, buffers_survive⟩
      · rw [haccept, hperf]
        exact (transact_ok _ _).1
      · rw [haccept, hperf, transact_snd hfault] at hstored
        dsimp only at hstored
        rw [jobs_accept] at hstored
        by_cases hi : i = q.identity env
        · subst hi
          rw [jobs_setJob_self] at hstored
          cases hstored
          exact ⟨_, ⟨kind, resultTopic, q, record, htopic, hparse, hrec, rfl⟩,
            (load_intake hrec).mpr ⟨hfinite, hnesting⟩⟩
        · rw [jobs_setJob_ne hi] at hstored
          exact (hbefore hstored).elim

/-- **Which messages are survivable.** A message of an allowed topic survives exactly if no new
execution is registered for it, or the trip's latest record can be read and the body is storable
where it is stored. -/
theorem survives_iff (htopic : (env.cfg.topics.lookup m.topic).isSome = true) :
    Survives env json m faults now services ↔
      Survivable env json m faults.store services.store := by
  obtain ⟨⟨kind, resultTopic⟩, htopic⟩ := Option.isSome_iff_exists.mp htopic
  exact ⟨survivable_of_survives, survives_of_survivable htopic⟩

end

/-! ### A message that is stored and read again, and one that cannot be read -/

/-- Brackets around a value. -/
def brackets (innermost : Value) : Nat → Value
  | 0 => innermost
  | n + 1 => .arr [brackets innermost n]

def bracketsText (innermost : String) (n : Nat) : String :=
  String.ofList (List.replicate n '[') ++ innermost ++ String.ofList (List.replicate n ']')

/-- A body without a trip name. -/
def namelessBody (attachments : Value) : Value :=
  .record [("type", .ofString "process"), ("trip_id", .int 8), ("execution_id", .ofString "e2"),
    ("attachments", attachments)]

def namelessText (attachments : String) : String :=
  "\x7b\"type\":\"process\",\"trip_id\":8,\"execution_id\":\"e2\",\"attachments\":" ++
    attachments ++ "\x7d"

/-- `json`, where the text of one body is the only text sent. -/
def namelessJson (attachments : Value) (h : (namelessBody attachments).depth ≤ 1000) :
    JsonLibrary where
  nesting := 1000
  loads bytes := if bytes.isEmpty then none else some (namelessBody attachments)
  loads_nesting := by
    intro bytes v hv
    obtain ⟨-, hv⟩ := Option.ite_none_left_eq_some.mp hv
    cases hv
    exact h
  loads_digits := by
    intro bytes v n hv hn
    obtain ⟨-, hv⟩ := Option.ite_none_left_eq_some.mp hv
    cases hv
    cases hn
    decide

def namelessMessage (attachments : String) : Incoming :=
  ⟨"local.yeodam.trip-create.request", 0, 0, some "8".toUTF8,
    some (namelessText attachments).toUTF8⟩

theorem namelessJson_loads {attachments : Value} {h : (namelessBody attachments).depth ≤ 1000}
    {bytes : ByteArray} (hfull : bytes.isEmpty = false) :
    (namelessJson attachments h).loads bytes = some (namelessBody attachments) := by
  simp [namelessJson, hfull]

/-- 199 brackets with nothing in them, of which the innermost adds no level. -/
def emptyBrackets : Value := brackets (.arr []) 198

def emptyJson : JsonLibrary := namelessJson emptyBrackets (by decide +kernel)

def emptyMessage : Incoming := namelessMessage (bracketsText "[]" 198)

/-- It reaches the limit of the reader, is stored and read again. -/
theorem survives_emptyMessage :
    Survives sampleEnv emptyJson emptyMessage {} 1 ⟨.initial, fun _ => none, []⟩ ∧
      ((accept sampleEnv emptyJson emptyMessage {} 1
        ⟨.initial, fun _ => none, []⟩).2.store.jobs (identity sampleEnv.sha256 8 .process "e2")).any
          (fun stored => stored.nesting = 200 && (stored.load sampleEnv).isOk) = true := by
  refine ⟨(survives_iff (by decide +kernel)).mpr ?_, by decide +kernel⟩
  intro kind resultTopic q data _ hdata _ _ _
  have hloads : emptyJson.loads (emptyMessage.value.getD .empty) =
      some (namelessBody emptyBrackets) := namelessJson_loads (by decide +kernel)
  obtain rfl : namelessBody emptyBrackets = data := Option.some.inj (hloads.symm.trans hdata)
  refine ⟨none, rfl, .inr ?_⟩
  have hinvalid : renderMessage sampleEnv.libraries (namelessBody emptyBrackets) = none := by
    rw [← Option.isNone_iff_eq_none]
    decide +kernel
  unfold Storable
  rw [hinvalid]
  decide +kernel

def nestedJson : JsonLibrary := namelessJson (brackets .null 200) (by decide +kernel)

def nestedMessage : Incoming := namelessMessage (bracketsText "null" 200)

/-- The request is a job. -/
def asksForJob : Except RejectReason Request → Bool
  | .ok (.job _) => true
  | _ => false

/-- Of 200 levels the reader takes, the record needs one itself. -/
theorem nestedMessage_not_survives :
    (sampleEnv.cfg.topics.lookup nestedMessage.topic).isSome = true ∧
      ¬ Survives sampleEnv nestedJson nestedMessage {} 1 ⟨.initial, fun _ => none, []⟩ := by
  refine ⟨by decide +kernel, fun h => ?_⟩
  have hloads : nestedJson.loads (nestedMessage.value.getD .empty) =
      some (namelessBody (brackets .null 200)) := namelessJson_loads (by decide +kernel)
  have hjob : asksForJob (parse sampleEnv nestedJson .process "local.yeodam.trip-create.result"
      nestedMessage) = true := by decide +kernel
  unfold asksForJob at hjob
  split at hjob
  · rename_i q hparse
    obtain ⟨previous, hprevious, hstorable⟩ := survivable_of_survives h .process _ q _
      (by decide +kernel) hloads hparse (by simp) rfl
    cases hprevious
    have hdeep : ¬ Storable sampleEnv (namelessBody (brackets .null 200)) := by
      have hinvalid :
          renderMessage sampleEnv.libraries (namelessBody (brackets .null 200)) = none := by
        rw [← Option.isNone_iff_eq_none]
        decide +kernel
      unfold Storable
      rw [hinvalid]
      decide +kernel
    exact hdeep (hstorable.resolve_left (by simp))
  · cases hjob

end Yeodam.Jobs
