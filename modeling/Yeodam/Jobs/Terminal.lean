/-
Terminal records: absorbing, with one event that is published as it was stored.

Every write of a record reads it first, and reading validates and renders its result
again. An event that passes its check unchanged (`JobResultEvent.Settled`) therefore
stays what it is, whoever claims, publishes or acknowledges it. Every event without a
result is settled. One with a result is where every time of the result falls on a
whole-minute offset of Seoul: a run that stores no other result keeps all events
(`run_terminalSound`), and one that does can change an event after it was published
(`claimed_changes_event`).
-/

import Yeodam.Jobs.Publication
import Yeodam.Jobs.Results

namespace Yeodam.Jobs

open Yeodam.Lib Yeodam.Schemas

section

variable {env : Env} {now : Time} {op : Op} {i : String} {r r' raw record stored : JobRecord}
  {e e' : JobResultEvent}

/-! ### Events that stay as they are -/

/-- The event passes its check unchanged and fits the limit. -/
structure JobResultEvent.Settled (env : Env) (e : JobResultEvent) : Prop where
  check : e.checkPayload env = .ok e
  size : e.byteSize ≤ resultMaxBytes

@[simp] theorem ErrorBody.wire_wire (b : ErrorBody) : b.wire.wire = b.wire := by
  simp [wire]

@[simp] theorem JobResultEvent.wire_wire (e : JobResultEvent) : e.wire.wire = e.wire := by
  simp only [wire, Option.map_map, Function.comp_def, Value.wire_wire, ErrorBody.wire_wire]

theorem JobRecord.Written.wire_event (h : r.Written env) (he : r.event = some e) : e.wire = e := by
  obtain ⟨r₀, hdump⟩ := h
  obtain ⟨rfl, -, -⟩ := dump_cases hdump
  obtain ⟨e₀, -, rfl⟩ := Option.map_eq_some_iff.mp (show r₀.event.map _ = some e from he)
  exact JobResultEvent.wire_wire e₀

/-- Writing a settled event settles nothing anew: only the detail of an error changes. -/
theorem JobResultEvent.Settled.wire (h : e.Settled env) : e.wire.Settled env := by
  refine ⟨?_, by rw [byteSize_wire]; exact h.size⟩
  obtain ⟨hcompleted, hfailed, hresult⟩ := checkPayload_cases h.check
  have herror : e.wire.error.isSome = e.error.isSome := by simp [JobResultEvent.wire]
  rcases hresult with ⟨hnone, -⟩ | ⟨result, result', hsome, hrender, hfinite, henc, he⟩
  · have hnone' : e.wire.result = none := by simp [JobResultEvent.wire, hnone]
    have hstatus : e.wire.status = e.status := rfl
    simp [checkPayload, hnone', herror, hstatus, ← hfailed, hnone ▸ hcompleted]
  · obtain rfl : result = result' := by
      have hr : e.result = some result' := by rw [he]
      rw [hsome] at hr
      exact Option.some.inj hr
    have hsome' : e.wire.result = some result := by
      simp [JobResultEvent.wire, hsome, Value.wire_of_finite hfinite]
    have hstatus : e.wire.status = e.status := rfl
    have htype : e.wire.type = e.type := rfl
    simp only [checkPayload, hsome', herror, hstatus, htype, ← hfailed, hcompleted, hsome,
      Option.isSome_some, bne_self_eq_false, Bool.false_eq_true, if_false, hrender, hfinite, henc,
      Bool.and_self, if_true]
    rw [← hsome']
    rfl

/-- The event of a result, as `finish` builds it. -/
def JobRecord.completed (r : JobRecord) (result : Value) : JobResultEvent where
  type := r.kind.eventType
  tripId := r.tripId
  executionId := r.executionId
  status := .completed
  result := some result

/-- The result is stored with whole times, if it is stored at all: it fails its schema, it
is too large, or every time of it falls on a whole-minute offset of Seoul. -/
def JobRecord.Keeps (env : Env) (r : JobRecord) (result : Value) : Prop :=
  ∀ rendered, renderResult env.libraries r.kind.eventType result = some rendered →
    (r.completed rendered).byteSize ≤ resultMaxBytes →
      TimesWhole env.libraries r.kind.eventType result

theorem terminate_settled (hlib : env.libraries.Lawful) (hr : r.Bounded) {status : TerminalStatus}
    {result : Option Value} {error : Option ErrorBody}
    (hkeeps : status = .completed → error = none → ∀ v, result = some v → r.Keeps env v)
    (h : terminate env r status result error = .ok r') (he : r'.event = some e) :
    e.Settled env := by
  obtain ⟨built, e', hbuilt, he', rfl⟩ := terminate_cases h
  obtain rfl : e' = e := Option.some.inj he
  obtain ⟨hcompleted, hfailed, hresult⟩ := JobResultEvent.checkPayload_cases hbuilt
  have htooLarge : ∀ size, size ≤ maxTextBytes → built.tripId = r.tripId →
      built.executionId = r.executionId → (built.tooLarge size).Settled env := by
    intro size hsize htrip hexec
    refine ⟨by simp [JobResultEvent.checkPayload, JobResultEvent.tooLarge], ?_⟩
    exact JobResultEvent.byteSize_tooLarge (htrip ▸ hr.trip_digits) (hexec ▸ hr.execution_length)
      hsize
  rcases JobResultEvent.enforceSizeLimit_cases he' with ⟨rfl, hsize⟩ | ⟨rfl, hsize, -⟩
  · refine ⟨?_, hsize⟩
    rcases hresult with ⟨-, rfl⟩ | ⟨v, rendered, hv, hrender, hfinite, henc, rfl⟩
    · exact hbuilt
    · obtain rfl : result = some v := hv
      have hstatus : status = .completed := by simpa using hcompleted
      subst hstatus
      have hnone : error = none := by simpa using hfailed
      subst hnone
      have hwhole := hkeeps rfl rfl v rfl rendered hrender hsize
      have hagain := renderResult_again hlib hwhole hrender
      simp [JobResultEvent.checkPayload, hagain, hfinite, henc]
  · rcases hresult with ⟨-, rfl⟩ | ⟨v, rendered, -, -, -, -, rfl⟩
    · exact htooLarge _ hsize rfl rfl
    · exact htooLarge _ hsize rfl rfl

/-- A result with a time past the years of a `datetime` in Seoul ends nothing: building its
event raises. -/
theorem terminate_overflow {p : ProcessResult} {t : AwareTime} {result : Value}
    (hkind : r.kind = .process) (hp : ProcessResult.validate env.libraries result = some p)
    (ht : t ∈ p.times) (hkst : toKst env.libraries t = none) :
    terminate env r .completed (some result) none = .error (.validation "result") := by
  have hnone : p.render env.libraries = none := by
    rw [← Option.not_isSome_iff_eq_none, p.render_isSome]
    intro hall
    have hsome := hall t ht
    rw [hkst] at hsome
    cases hsome
  simp [terminate, JobResultEvent.checkPayload, renderResult, hkind, JobKind.eventType, hp, hnone,
    bind, Except.bind]

/-! ### Records whose event stays -/

/-- The event of the record, if it has one, stays as it is. -/
def JobRecord.Settled (env : Env) (r : JobRecord) : Prop :=
  ∀ e, r.event = some e → e.Settled env

theorem JobRecord.settled_of_none (h : r.event = none) : r.Settled env := by
  intro e he
  rw [h] at he
  cases he

/-- A settled record is read as it is. -/
theorem JobRecord.Settled.load_eq (h : raw.Settled env) (hload : raw.load env = .ok record) :
    record = raw := by
  unfold JobRecord.load at hload
  split at hload
  · split at hload
    · cases hload
      rfl
    · rename_i e he
      obtain ⟨e', hcheck, rfl⟩ := except_map_eq_ok.mp hload
      obtain rfl : e = e' := Except.ok.inj ((h e he).check.symm.trans hcheck)
      rw [← he]
  · cases hload

theorem JobRecord.Settled.dump (h : r.Settled env) (hdump : r.dump env = .ok stored) :
    stored.Settled env := by
  obtain ⟨rfl, -, -⟩ := dump_cases hdump
  intro e he
  obtain ⟨e₀, he₀, rfl⟩ := Option.map_eq_some_iff.mp (show r.event.map _ = some e from he)
  exact (h e₀ he₀).wire

/-- The operation ends no job with a result that is stored with a time that is not whole. -/
def OpKeeps (env : Env) (now : Time) (s : Store) (op : Op) : Prop :=
  ∀ i owner result, op = .finish i owner .completed (some result) none →
    ∀ raw record, s.jobs i = some raw → raw.load env = .ok record →
      owns env record owner now = true → record.cancelRequested = false → record.Keeps env result

theorem Edit.settled {queueScore : Option Time} (hlib : env.libraries.Lawful)
    (h : Edit env now op r r' queueScore) (hr : r.Settled env)
    (hbounded : r.Bounded)
    (hkeeps : ∀ i owner result, op = .finish i owner .completed (some result) none →
      owns env r owner now = true → r.cancelRequested = false → r.Keeps env result) :
    r'.Settled env := by
  cases h with
  | renew | report | giveBack | flag | leaseResult => exact hr
  | finish howns hc hterm =>
      refine fun e he => terminate_settled hlib hbounded ?_ hterm he
      rintro rfl rfl v rfl
      exact hkeeps _ _ v rfl howns hc
  | stop _ _ _ hterm => exact fun e he => terminate_settled hlib hbounded (by simp) hterm he
  | cancelQueued _ hterm =>
      exact fun e he => terminate_settled hlib hbounded.request (by simp) hterm he
  | recover _ _ hterm => exact fun e he => terminate_settled hlib hbounded (by simp) hterm he

theorem Intake.settled (hlib : env.libraries.Lawful) {q : Intake} (h : q.record env = .ok record) :
    record.Settled env := by
  unfold Intake.record at h
  split at h
  · exact fun e he => terminate_settled hlib q.bounded_blank (by simp) h he
  · cases h
    exact JobRecord.settled_of_none rfl

/-- **Step lemma.** An operation that keeps times whole stores a settled record. -/
theorem RecordStep.settled (hlib : env.libraries.Lawful) {before : Option JobRecord}
    (hbefore : ∀ raw, before = some raw → raw.Bounded ∧ raw.Settled env)
    (hkeeps : ∀ owner result, op = .finish i owner .completed (some result) none →
      ∀ raw record, before = some raw → raw.load env = .ok record →
        owns env record owner now = true → record.cancelRequested = false →
          record.Keeps env result)
    (h : RecordStep env now i op before (some stored)) : stored.Settled env := by
  cases h with
  | keep => exact (hbefore stored rfl).2
  | @registered _ record _ hrec _ hdump =>
      have hr : record.Settled env := Intake.settled hlib hrec
      exact JobRecord.Settled.dump (show JobRecord.Settled env { record with createdAt := now }
        from hr) hdump
  | @started _ owner _ raw record _ hload hs hdump =>
      obtain rfl := (hbefore raw rfl).2.load_eq hload
      have hr : (record.start owner now).Settled env := (hbefore record rfl).2
      exact hr.dump hdump
  | @edited _ raw record _ _ _ htarget hload hedit hdump =>
      obtain ⟨hbounded, hsettled⟩ := hbefore raw rfl
      obtain rfl := hsettled.load_eq hload
      refine (hedit.settled hlib hsettled hbounded ?_).dump hdump
      rintro j owner result rfl howns hc
      cases htarget
      exact hkeeps owner result rfl record record rfl hload howns hc
  | @acknowledged _ raw record _ hload _ hdump =>
      obtain rfl := (hbefore raw rfl).2.load_eq hload
      have hr : JobRecord.Settled env { record with published := true } := (hbefore record rfl).2
      exact hr.dump hdump

/-- The records agree on how the execution ended. -/
structure JobRecord.SameEnd (r r' : JobRecord) : Prop where
  status : r'.status = r.status
  event : r'.event = r.event
  progress : r'.progress = r.progress

theorem JobRecord.SameEnd.refl (r : JobRecord) : r.SameEnd r := ⟨rfl, rfl, rfl⟩

/-- **A settled end is absorbing.** -/
theorem RecordStep.sameEnd (h : RecordStep env now i op (some raw) (some stored))
    (hterm : raw.status.terminal = true) (hwritten : raw.Written env) (hsettled : raw.Settled env) :
    raw.SameEnd stored := by
  have hwire : raw.event.map JobResultEvent.wire = raw.event := by
    cases he : raw.event with
    | none => rfl
    | some e => rw [Option.map_some, hwritten.wire_event he]
  rcases h.of_terminal hterm with rfl | ⟨p, until_, record, -, hload, -, hdump⟩ |
    ⟨p, record, -, hload, -, hdump⟩
  · exact .refl stored
  · obtain rfl := hsettled.load_eq hload
    obtain ⟨rfl, -, -⟩ := JobRecord.dump_cases hdump
    exact ⟨rfl, hwire, rfl⟩
  · obtain rfl := hsettled.load_eq hload
    obtain ⟨rfl, -, -⟩ := JobRecord.dump_cases hdump
    exact ⟨rfl, hwire, rfl⟩

/-! ### Runs -/

variable {x y z : Exchange} {a : Action} {as : List Action}

/-- The action is not a `finish` that stores a time that is not whole. -/
def KeepsWhole (env : Env) (x : Exchange) (a : Action) : Prop :=
  ∀ e, a.event x = some e → OpKeeps env e.time x.world.store e.op

/-- Every event stays, and every message sent carries the event of its record. -/
structure AllSettled (env : Env) (x : Exchange) : Prop where
  reached : ExchangeReached env x
  records : ∀ i r, x.world.store.jobs i = some r → r.Settled env
  messages : ∀ m ∈ x.sent, ∃ r, x.world.store.jobs m.identity = some r ∧ r.event = some m.event

theorem terminal_of_event (hreached : ExchangeReached env x)
    (hr : x.world.store.jobs i = some r) (he : r.event = some e) : r.status.terminal = true := by
  have hout := reached_outcome (reached_world hreached) hr
  rw [← (hout.agrees e he).status]
  exact e.status.terminal_toTaskStatus

/-- One step keeps the end of an execution. -/
theorem sameEnd_of_step (hx : AllSettled env x) (h : ExchangeStep env x a y)
    (hr : x.world.store.jobs i = some r) (hterm : r.status.terminal = true) :
    ∃ r', y.world.store.jobs i = some r' ∧ r.SameEnd r' := by
  rcases recordStep_of_exchange h i with hsame | ⟨e, -, hstep⟩
  · exact ⟨r, hsame.trans hr, .refl r⟩
  · rw [hr] at hstep
    obtain ⟨stored, hstored, -⟩ := hstep.sameExecution
    rw [hstored] at hstep
    exact ⟨stored, hstored, hstep.sameEnd hterm (reached_written (reached_world hx.reached) hr)
      (hx.records i r hr)⟩

/-- **Step lemma.** -/
theorem allSettled_of_step (hlib : env.libraries.Lawful) (hx : AllSettled env x)
    (hkeeps : KeepsWhole env x a) (h : ExchangeStep env x a y) : AllSettled env y := by
  have hworld := reached_world hx.reached
  have hold : ∀ m ∈ x.sent, ∃ r, y.world.store.jobs m.identity = some r ∧
      r.event = some m.event := by
    intro m hm
    obtain ⟨r, hr, he⟩ := hx.messages m hm
    obtain ⟨r', hr', hend⟩ := sameEnd_of_step hx h hr (terminal_of_event hx.reached hr he)
    exact ⟨r', hr', hend.event.trans he⟩
  refine ⟨hx.reached.next h, ?_, ?_⟩
  · intro i r hr
    rcases recordStep_of_exchange h i with hsame | ⟨e, he, hstep⟩
    · exact hx.records i r (hsame.symm.trans hr)
    · rw [hr] at hstep
      refine hstep.settled hlib
        (fun raw hraw => ⟨reached_bounded hworld hraw, hx.records i raw hraw⟩) ?_
      intro owner result hop raw record hraw hload howns hc
      exact hkeeps e he i owner result hop raw record hraw hload howns hc
  · cases exchanged_of_step h with
    | @send time i p m _ _ hm =>
        intro m' hm'
        rcases List.mem_cons.mp hm' with rfl | hm'
        · obtain ⟨raw, record, stored, _, rfl, -, -, -, he, hjobs⟩ := Exchange.message_cases hm
          exact ⟨stored, (congrFun hjobs _).trans jobs_setJob_self, he⟩
        · exact hold m' hm'
    | store | append | confirm | giveUp | acknowledge => exact hold

/-- What holds of the ends of executions and of their publication, where `cond` says which
actions may follow. -/
structure TerminalSound (env : Env) (cond : Exchange → Action → Prop) (x : Exchange) : Prop where
  /-- A record has an event exactly if it has ended. -/
  event_none : ∀ i r, x.world.store.jobs i = some r →
    (r.event = none ↔ r.status = .queued ∨ r.status = .processing)
  /-- The event says what its record says, with the right payload and within the limit. -/
  event_says : ∀ i r e, x.world.store.jobs i = some r → r.event = some e →
    r.Says e ∧ e.byteSize ≤ resultMaxBytes
  /-- What was handed to a producer or appended to a topic is the event of its record. -/
  announced : ∀ m, m ∈ x.sent ∨ m ∈ x.topic →
    ∃ r, x.world.store.jobs m.identity = some r ∧ r.event = some m.event
  /-- No later action changes status, event or progress of a record that has ended. -/
  absorbing : ∀ as y i r, Run (Guarded cond (ExchangeStep env)) x as y →
    x.world.store.jobs i = some r → r.status.terminal = true →
    ∃ r', y.world.store.jobs i = some r' ∧ r.SameEnd r'
  /-- A record is marked published only by the publisher that claimed its result last,
  after the broker answered for a message of it. -/
  published : ∀ a y i r r', ExchangeStep env x a y → x.world.store.jobs i = some r →
    y.world.store.jobs i = some r' → r.published = false → r'.published = true →
    ∃ time p n, a = .acknowledge time p ∧ x.phase p = .confirmed i n ∧ x.claimant i = some p ∧
      ∃ m ∈ x.topic, m.number = n ∧ m.identity = i ∧ r.event = some m.event

theorem TaskStatus.terminal_eq_false {s : TaskStatus} :
    s.terminal = false ↔ s = .queued ∨ s = .processing := by
  cases s <;> simp [TaskStatus.terminal]

theorem terminalSound_of_settled (hlib : env.libraries.Lawful) (hx : AllSettled env x) :
    TerminalSound env (KeepsWhole env) x := by
  have hworld := reached_world hx.reached
  have haligned := reached_aligned hx.reached
  constructor
  case event_none =>
    intro i r hr
    rw [(reached_outcome hworld hr).event, TaskStatus.terminal_eq_false]
  case event_says =>
    intro i r e hr he
    exact ⟨(reached_outcome hworld hr).agrees e he, (hx.records i r hr e he).size⟩
  case announced =>
    intro m hm
    exact hx.messages m (hm.elim id (haligned.appended m))
  case absorbing =>
    intro as y i r hrun hr hterm
    have hkept : AllSettled env y ∧ ∃ r', y.world.store.jobs i = some r' ∧ r.SameEnd r' := by
      refine hrun.preserves_of (P := fun y => AllSettled env y ∧
        ∃ r', y.world.store.jobs i = some r' ∧ r.SameEnd r') ?_ ⟨hx, r, hr, .refl r⟩
      rintro y a z ⟨hy, r', hr', hend⟩ hkeeps hst
      obtain ⟨r'', hr'', hend'⟩ := sameEnd_of_step hy hst hr' (by rw [hend.status]; exact hterm)
      exact ⟨allSettled_of_step hlib hy hkeeps hst, r'', hr'', hend'.status.trans hend.status,
        hend'.event.trans hend.event, hend'.progress.trans hend.progress⟩
    exact hkept.2
  case published =>
    intro a y i r r' hst hr hr' hbefore hafter
    obtain ⟨time, p, n, ha, hphase, hclaimant, m, hm, hn, rfl⟩ :=
      acknowledged_of_published hx.reached hst hr hr' hbefore hafter
    obtain ⟨r'', hr'', he⟩ := hx.messages m (haligned.appended m hm)
    obtain rfl : r'' = r := Option.some.inj (hr''.symm.trans hr)
    exact ⟨time, p, n, ha, hphase, hclaimant, m, hm, hn, rfl, he⟩

/-- **Terminal records are absorbing while times are whole.** In every run in which no
`finish` stores a time that is not whole. -/
theorem run_terminalSound (hlib : env.libraries.Lawful) (hinit : ExchangeInitial x)
    (hrun : Run (Guarded (KeepsWhole env) (ExchangeStep env)) x as y) :
    TerminalSound env (KeepsWhole env) y := by
  have hstart : AllSettled env x := by
    have hnone : ∀ i, x.world.store.jobs i = none := fun i => by rw [hinit.1]; rfl
    refine ⟨.of_init hinit, fun i r hr => ?_, fun m hm => ?_⟩
    · rw [hnone i] at hr
      cases hr
    · rw [hinit.2.1] at hm
      cases hm
  exact terminalSound_of_settled hlib
    (hrun.preserves_of (fun _ _ _ hx hkeeps hst => allSettled_of_step hlib hx hkeeps hst) hstart)

/-! ### An event that changes -/

/-- Every time in the result falls on a whole-minute offset of Seoul. -/
def wholeTimes (lib : Libraries) (result : Value) : Bool :=
  (ProcessResult.validate lib result).all fun r => r.times.all fun t => decide (WholeMinutes lib t)

/-- The action stores no other times, in whatever exchange. -/
def Action.whole (lib : Libraries) : Action → Bool
  | .store ⟨_, .finish _ _ _ (some result) _⟩ => wholeTimes lib result
  | _ => true

theorem keepsWhole_of_whole (h : a.whole env.libraries = true) : KeepsWhole env x a := by
  intro e he i owner result hop raw record _ _ _ _ rendered _ _ _ r hr t ht
  cases a with
  | store ev =>
      cases he
      obtain ⟨time, op⟩ := e
      obtain rfl : op = .finish i owner .completed (some result) none := hop
      have hall : wholeTimes env.libraries result = true := h
      simp only [wholeTimes, hr, Option.all_some, List.all_eq_true, decide_eq_true_eq] at hall
      exact hall t ht
  | send =>
      cases he
      cases hop
  | acknowledge =>
      simp only [Action.event] at he
      split at he
      · cases he
        cases hop
      · cases he
  | append | confirm | giveUp => cases he

end

/-- The sample libraries keep the promises of pydantic. -/
theorem lawful_sampleLibraries : sampleLibraries.Lawful := by
  refine ⟨fun _ => rfl, fun _ => rfl, ?_⟩
  intro v t h
  cases v with
  | str s =>
      cases s with
      | text s =>
          obtain ⟨before, rest, hsplit, -⟩ := List.lookup_eq_some_iff.mp h
          have hmem : (s, t) ∈ sampleTimes := by simp [hsplit]
          have hall : ∀ entry ∈ sampleTimes, WholeMinutes sampleLibraries entry.2 →
              Rereads sampleLibraries entry.2 (inSeoul sampleLibraries entry.2) := by
            decide +kernel
          exact hall (s, t) hmem
      | surrogate => cases h
  | _ => cases h

/-- A result with one unclassified photo, taken at the given time. -/
def sampleResult (takenAt : String) : Value :=
  .record [("places", .arr []),
    ("unclassified", .arr [.record [("trip_attachment_id", .int 1),
      ("issue", .ofString "UNCLEAR_LOCATION"), ("place_id", .null),
      ("duplicate_of_attachment_id", .null), ("taken_at", .ofString takenAt), ("latitude", .null),
      ("longitude", .null), ("region_origin", .ofString "UNKNOWN"), ("evaluation", .null)]]),
    ("failed", .arr []), ("clock_offsets", .arr [])]

/-- The time of the first unclassified photo of an event. -/
def JobResultEvent.takenAt (e : JobResultEvent) : Option String := do
  let unclassified ← (← e.result).get? "unclassified"
  let photo ← unclassified.items.head?
  str (← photo.get? "taken_at")

/-- The identity of `sampleProcess`. -/
def processIdentity : String := identity sampleDigest 8 .process "e2"

/-- A worker takes the process of trip 8 and completes it with the photo of that time. -/
def completedSchedule (takenAt : String) : List Action :=
  [.store ⟨1, .register sampleProcess⟩, .store ⟨2, .claim .process "worker:1" false⟩,
   .store ⟨3, .finish processIdentity "worker:1" .completed
     (some (sampleResult takenAt)) none⟩]

/-- A publisher claims the result, sends it and acknowledges it. -/
def publishingSchedule : List Action :=
  [.send 4 processIdentity "api", .append 0, .confirm "api",
   .acknowledge 5 "api"]

def completedProcess (takenAt : String) : Exchange :=
  enacted sampleEnv .initial (completedSchedule takenAt)

/-- A photo of 1900 in the result: claiming the result for publication moves its time on
by the 52 seconds that the text of its offset lacks. -/
theorem claimed_changes_event : ¬ ∀ (env : Env) (x y : Exchange) (as : List Action),
    env.libraries.Lawful → ExchangeInitial x → Run (ExchangeStep env) x as y →
    TerminalSound env (fun _ _ => True) y := by
  intro h
  let y := completedProcess "1900-01-01T09:00:00+09:00"
  let z := enacted sampleEnv y [.send 4 processIdentity "api"]
  have hsound := h sampleEnv .initial y _ lawful_sampleLibraries Exchange.initial_initial
    (run_enacted _ _ _ (by decide +kernel))
  have hrun : Run (Guarded (fun _ _ => True) (ExchangeStep sampleEnv)) y
      [.send 4 processIdentity "api"] z :=
    Run.guarded (fun _ _ _ => trivial) (run_enacted _ _ _ (by decide +kernel))
  have hbefore : (y.world.store.jobs processIdentity).any (fun r =>
      r.status.terminal && decide ((r.event.bind JobResultEvent.takenAt) =
        some "1900-01-01T08:27:52+08:27")) = true := by
    decide +kernel
  have hafter : (z.world.store.jobs processIdentity).all (fun r =>
      decide ((r.event.bind JobResultEvent.takenAt) = some "1900-01-01T08:28:44+08:27")) =
        true := by
    decide +kernel
  obtain ⟨r, hr, hr'⟩ := (Option.any_eq_true _ _).mp hbefore
  rw [Bool.and_eq_true, decide_eq_true_iff] at hr'
  obtain ⟨r', hstored, hend⟩ := hsound.absorbing _ z _ r hrun hr hr'.1
  rw [hstored, Option.all_some, decide_eq_true_iff, hend.event, hr'.2] at hafter
  exact absurd hafter (by decide)

/-- With a photo of 2024 the result is published as it was stored. -/
theorem terminalSound_completedProcess :
    let x := enacted sampleEnv (completedProcess "2024-05-01T10:00:00+09:00") publishingSchedule
    TerminalSound sampleEnv (KeepsWhole sampleEnv) x ∧
      (x.topic.map fun m => (m.topic, m.key, m.event.status, m.event.takenAt)) =
        [("local.yeodam.trip-create.result", "8", .completed,
          some "2024-05-01T10:00:00+09:00")] := by
  have hwhole : ∀ a ∈ completedSchedule "2024-05-01T10:00:00+09:00" ++ publishingSchedule,
      a.whole sampleEnv.libraries = true := by
    decide +kernel
  have hrun := (run_enacted sampleEnv .initial
    (completedSchedule "2024-05-01T10:00:00+09:00") (by decide +kernel)).append
    (run_enacted sampleEnv (completedProcess "2024-05-01T10:00:00+09:00")
      publishingSchedule (by decide +kernel))
  exact ⟨run_terminalSound lawful_sampleLibraries Exchange.initial_initial
    (Run.guarded (fun a ha _ => keepsWhole_of_whole (hwhole a ha)) hrun), by decide +kernel⟩

end Yeodam.Jobs
