/-
Publication: `publish_results` of every replica, its producer and the broker
(`app/jobs/kafka.py`), over the job store.

`Exchange` is the store with what each publisher is doing, the messages handed to
producers and the result topics. A publisher claims a result, hands its event to the
producer, waits for the broker and acknowledges; it may give up or be lost after any of
these, and a message it gave up on may still be appended, once or more often.

What the store does to one record while it is published is in `RecordStep`; here it is
tied to what is on the topics: a message carries the event of its record
(`reached_announced`), and `published` is set only by the publisher that claimed last
and saw the broker's answer (`acknowledged_of_published`).
-/

import Yeodam.Jobs.Outcomes

namespace Yeodam.Jobs

open Yeodam.Lib

/-! ### Publishers and the broker -/

/-- A result event handed to a producer. -/
structure ResultMessage where
  /-- The producer's sequence number. -/
  number : Nat
  identity : String
  topic : String
  key : String
  event : JobResultEvent

/-- What a publisher is doing: between two results, waiting for the broker to answer for
a message, about to acknowledge it. -/
inductive Phase where
  | idle
  | sending (identity : String) (number : Nat)
  | confirmed (identity : String) (number : Nat)
deriving DecidableEq

structure Exchange where
  world : World
  /-- By `uuid4().hex` of the publisher. -/
  phase : String → Phase
  /-- Everything handed to a producer. -/
  sent : List ResultMessage
  /-- What the broker appended to the result topics, the last first. -/
  topic : List ResultMessage
  /-- The publisher whose `claim_result` was the last to lease a result. -/
  claimant : String → Option String

inductive Action where
  /-- A transaction of anyone, its reply lost where it is a `claim_result`. -/
  | store (event : Event)
  /-- `claim_result` leases a result, and its event goes to the producer. -/
  | send (time : Time) (identity publisher : String)
  | append (number : Nat)
  /-- The broker's answer reaches the publisher in time. -/
  | confirm (publisher : String)
  /-- A timeout, an error, or the end of the process. -/
  | giveUp (publisher : String)
  | acknowledge (time : Time) (publisher : String)

def Op.acknowledges : Op → Bool
  | .acknowledgeResult _ _ => true
  | _ => false

/-- The transaction is a `claim_result` that leases a result. -/
def leases (env : Env) (w : World) (e : Event) : Option (String × String) :=
  match e.op, perform env e.time w.store e.op with
  | .claimResult i p, .ok (.changed (some _), _) => some (i, p)
  | _, _ => none

namespace Exchange

variable (env : Env) (x : Exchange)

/-- A transaction on the store. -/
def fire (e : Event) : Exchange :=
  { x with
    world := x.world.next env e
    claimant := match leases env x.world e with
      | some (i, p) => Function.update x.claimant i (some p)
      | none => x.claimant }

/-- The message of the result `claim_result` returns: the payload is the event's JSON
text, the key the text of the trip id. -/
def message (time : Time) (i p : String) : Option ResultMessage :=
  match claimResult env i p time x.world.store with
  | .ok (some record, _) => record.event.map fun e =>
      { number := x.sent.length
        identity := i
        topic := record.resultTopic
        key := toString record.tripId
        event := e.wire }
  | _ => none

def advance : Action → Option Exchange
  | .store e =>
      if x.world.clock ≤ e.time ∧ e.op.acknowledges = false then some (x.fire env e) else none
  | .send time i p =>
      if x.world.clock ≤ time ∧ x.phase p = .idle then
        (x.message env time i p).map fun m =>
          { x.fire env ⟨time, .claimResult i p⟩ with
            phase := Function.update x.phase p (.sending i m.number)
            sent := m :: x.sent }
      else none
  | .append n =>
      (x.sent.find? fun m => m.number = n).map fun m => { x with topic := m :: x.topic }
  | .confirm p =>
      match x.phase p with
      | .sending i n =>
          if x.topic.any fun m => m.number = n && m.identity = i then
            some { x with phase := Function.update x.phase p (.confirmed i n) }
          else none
      | _ => none
  | .giveUp p => some { x with phase := Function.update x.phase p .idle }
  | .acknowledge time p =>
      match x.phase p with
      | .confirmed i _ =>
          if x.world.clock ≤ time then
            some { x.fire env ⟨time, .acknowledgeResult i p⟩ with
              phase := Function.update x.phase p .idle }
          else none
      | _ => none

end Exchange

def ExchangeStep (env : Env) (x : Exchange) (a : Action) (y : Exchange) : Prop :=
  x.advance env a = some y

/-- The exchange before the first request. -/
def ExchangeInitial (x : Exchange) : Prop :=
  Initial x.world ∧ x.sent = [] ∧ x.topic = [] ∧ (∀ p, x.phase p = .idle) ∧
    ∀ i, x.claimant i = none

abbrev ExchangeReached (env : Env) : Exchange → Prop :=
  Reachable ExchangeInitial (ExchangeStep env)

def Exchange.initial : Exchange where
  world := ⟨0, .initial⟩
  phase := fun _ => .idle
  sent := []
  topic := []
  claimant := fun _ => none

theorem Exchange.initial_initial : ExchangeInitial .initial :=
  ⟨rfl, rfl, rfl, fun _ => rfl, fun _ => rfl⟩

/-- The exchange a schedule leads to, if every action of it is possible. -/
def enact (env : Env) : Exchange → List Action → Option Exchange
  | x, [] => some x
  | x, a :: as => (x.advance env a).bind fun y => enact env y as

theorem run_enact {env : Env} {x y : Exchange} {as : List Action} (h : enact env x as = some y) :
    Run (ExchangeStep env) x as y := by
  induction as generalizing x with
  | nil =>
      cases h
      exact .refl _
  | cons a as ih =>
      obtain ⟨z, hz, h⟩ := Option.bind_eq_some_iff.mp h
      exact .cons hz (ih h)

/-- The exchange after a schedule whose actions are all possible. -/
def enacted (env : Env) (x : Exchange) (as : List Action) : Exchange := (enact env x as).getD x

theorem run_enacted (env : Env) (x : Exchange) (as : List Action)
    (h : (enact env x as).isSome = true) : Run (ExchangeStep env) x as (enacted env x as) := by
  obtain ⟨y, hy⟩ := Option.isSome_iff_exists.mp h
  rw [enacted, hy]
  exact run_enact hy

/-! ### What an action does -/

/-- Everything an action can do: fire one transaction, with the publisher's part in it,
or move a message or a publisher without touching the store. -/
inductive Exchanged (env : Env) (x : Exchange) : Action → Exchange → Prop where
  | store {e : Event} : x.world.clock ≤ e.time → e.op.acknowledges = false →
      Exchanged env x (.store e) (x.fire env e)
  | send {time : Time} {i p : String} {m : ResultMessage} :
      x.world.clock ≤ time → x.phase p = .idle → x.message env time i p = some m →
      Exchanged env x (.send time i p)
        { x.fire env ⟨time, .claimResult i p⟩ with
          phase := Function.update x.phase p (.sending i m.number)
          sent := m :: x.sent }
  | append {m : ResultMessage} : m ∈ x.sent →
      Exchanged env x (.append m.number) { x with topic := m :: x.topic }
  | confirm {p i : String} {m : ResultMessage} :
      x.phase p = .sending i m.number → m ∈ x.topic → m.identity = i →
      Exchanged env x (.confirm p)
        { x with phase := Function.update x.phase p (.confirmed i m.number) }
  | giveUp {p : String} :
      Exchanged env x (.giveUp p) { x with phase := Function.update x.phase p .idle }
  | acknowledge {time : Time} {p i : String} {n : Nat} :
      x.world.clock ≤ time → x.phase p = .confirmed i n →
      Exchanged env x (.acknowledge time p)
        { x.fire env ⟨time, .acknowledgeResult i p⟩ with
          phase := Function.update x.phase p .idle }

section

variable {env : Env} {x y : Exchange} {a : Action}

theorem exchanged_of_step (h : ExchangeStep env x a y) : Exchanged env x a y := by
  unfold ExchangeStep Exchange.advance at h
  cases a with
  | store e =>
      obtain ⟨⟨hle, hno⟩, h⟩ := Option.ite_none_right_eq_some.mp h
      cases h
      exact .store hle hno
  | send time i p =>
      obtain ⟨⟨hle, hidle⟩, h⟩ := Option.ite_none_right_eq_some.mp h
      obtain ⟨m, hm, rfl⟩ := Option.map_eq_some_iff.mp h
      exact .send hle hidle hm
  | append n =>
      obtain ⟨m, hm, rfl⟩ := Option.map_eq_some_iff.mp h
      have hn : m.number = n := by simpa using List.find?_some hm
      subst hn
      exact .append (List.mem_of_find?_eq_some hm)
  | confirm p =>
      dsimp only at h
      split at h
      · rename_i i n hphase
        obtain ⟨hany, h⟩ := Option.ite_none_right_eq_some.mp h
        cases h
        obtain ⟨m, hm, hnum⟩ := List.any_eq_true.mp hany
        simp only [Bool.and_eq_true, decide_eq_true_eq] at hnum
        obtain ⟨rfl, hi⟩ := hnum
        exact .confirm hphase hm hi
      · cases h
  | giveUp p =>
      cases h
      exact .giveUp
  | acknowledge time p =>
      dsimp only at h
      split at h
      · rename_i i n hphase
        obtain ⟨hle, h⟩ := Option.ite_none_right_eq_some.mp h
        cases h
        exact .acknowledge hle hphase
      · cases h

/-- The transaction an action sends to the store, if it sends one. -/
def Action.event (x : Exchange) : Action → Option Event
  | .store e => some e
  | .send time i p => some ⟨time, .claimResult i p⟩
  | .acknowledge time p =>
      match x.phase p with
      | .confirmed i _ => some ⟨time, .acknowledgeResult i p⟩
      | _ => none
  | .append _ | .confirm _ | .giveUp _ => none

/-- An action is one step of the store, or none. -/
theorem world_of_step (h : ExchangeStep env x a y) :
    (a.event x = none ∧ y.world = x.world ∧ y.claimant = x.claimant) ∨
    ∃ e, a.event x = some e ∧ Step env x.world e y.world ∧
      y.claimant = (x.fire env e).claimant := by
  cases exchanged_of_step h with
  | @store e hle _ => exact .inr ⟨e, rfl, ⟨hle, rfl⟩, rfl⟩
  | send hle _ _ => exact .inr ⟨_, rfl, ⟨hle, rfl⟩, rfl⟩
  | append | confirm | giveUp => exact .inl ⟨rfl, rfl, rfl⟩
  | acknowledge hle hphase => exact .inr ⟨_, by simp [Action.event, hphase], ⟨hle, rfl⟩, rfl⟩

/-- The store of a reachable exchange is reachable. -/
theorem reached_world (h : ExchangeReached env x) : Reached env x.world := by
  refine h.invariant (P := fun x => Reached env x.world) ?_ ?_
  · intro x hx
    exact .of_init hx.1
  · intro x a y hx hst
    rcases world_of_step hst with ⟨-, hsame, -⟩ | ⟨e, -, hstep, -⟩
    · rw [hsame]
      exact hx
    · exact hx.next hstep

/-- What an action does to the record of an execution. -/
theorem recordStep_of_exchange (h : ExchangeStep env x a y) (i : String) :
    y.world.store.jobs i = x.world.store.jobs i ∨
    ∃ e, a.event x = some e ∧
      RecordStep env e.time i e.op (x.world.store.jobs i) (y.world.store.jobs i) := by
  rcases world_of_step h with ⟨-, hsame, -⟩ | ⟨e, he, hstep, -⟩
  · exact .inl (by rw [hsame])
  · exact .inr ⟨e, he, recordStep_of_step hstep i⟩

/-! ### The last publisher -/

/-- What one transaction does to leases: it leases one result to one publisher, or
leaves the publisher of every record alone. -/
theorem leases_cases (env : Env) (w : World) (e : Event) :
    (leases env w e = none ∧ ∀ i raw stored, w.store.jobs i = some raw →
      (w.next env e).store.jobs i = some stored → stored.publishOwner = raw.publishOwner) ∨
    ∃ i p raw record stored until_, leases env w e = some (i, p) ∧ e.op = .claimResult i p ∧
      w.store.jobs i = some raw ∧ raw.load env = .ok record ∧ record.published = false ∧
      JobRecord.dump env { record with publishOwner := some p, publishUntil := until_ } =
        .ok stored ∧
      claimResult env i p e.time w.store = .ok
        (some { record with publishOwner := some p, publishUntil := until_ },
          (w.next env e).store) ∧
      (w.next env e).store.jobs = (w.store.setJob i stored).jobs := by
  obtain ⟨time, op⟩ := e
  have hquiet : ∀ {op : Op}, (∀ j p, op ≠ .claimResult j p) →
      leases env w ⟨time, op⟩ = none ∧ ∀ i raw stored, w.store.jobs i = some raw →
        (w.next env ⟨time, op⟩).store.jobs i = some stored →
        stored.publishOwner = raw.publishOwner := by
    intro op hop
    refine ⟨?_, ?_⟩
    · unfold leases
      cases op with
      | claimResult j p => exact absurd rfl (hop j p)
      | _ => rfl
    · intro i raw stored hraw hstored
      have hstep := recordStep_of_transaction (transaction_after env time w.store op) i
      have hafter : (after env time op w.store).jobs i = some stored := hstored
      rw [hraw, hafter] at hstep
      exact hstep.publishOwner hop
  cases op with
  | claimResult i p =>
      cases hclaim : claimResult env i p time w.store with
      | error err =>
          have hperf : perform env time w.store (.claimResult i p) = .error err := by
            simp only [perform, hclaim]
            rfl
          refine .inl ⟨by simp [leases, hperf], ?_⟩
          intro j raw stored hraw hstored
          simp only [World.next, after, hperf] at hstored
          rw [hraw] at hstored
          cases hstored
          rfl
      | ok out =>
          obtain ⟨reply, s'⟩ := out
          have hperf : perform env time w.store (.claimResult i p) = .ok (.changed reply, s') := by
            simp only [perform, hclaim]
            rfl
          have hnext : (w.next env ⟨time, .claimResult i p⟩).store = s' := by
            simp [World.next, after, hperf]
          rcases change_cases hclaim with ⟨rfl, rfl⟩ |
            ⟨raw, record, changed, rfl, hraw, hload, hupd, hw⟩
          · refine .inl ⟨by simp [leases, hperf], ?_⟩
            intro j raw stored hraw hstored
            rw [hnext, hraw] at hstored
            cases hstored
            rfl
          · obtain ⟨stored, hdump, hjobs⟩ := jobs_writeChange hw
            have hedit : Edit env time (.claimResult i p) record changed none :=
              claimResult_edit hupd
            cases hedit with
            | leaseResult _ hpub =>
                refine .inr ⟨i, p, raw, record, stored, _, by simp [leases, hperf], rfl, hraw,
                  hload, hpub, hdump, ?_, by rw [hnext, hjobs]⟩
                rw [hnext]
                exact hclaim
            | stop hcaller => cases hcaller
  | _ => exact .inl (hquiet (by intro j p hop; cases hop))

/-- The message of a `send` is the event of the record it leased, as it is stored. -/
theorem Exchange.message_cases {time : Time} {i p : String} {m : ResultMessage}
    (h : x.message env time i p = some m) :
    ∃ raw record stored until_, m.identity = i ∧ x.world.store.jobs i = some raw ∧
      raw.load env = .ok record ∧
      JobRecord.dump env { record with publishOwner := some p, publishUntil := until_ } =
        .ok stored ∧
      stored.event = some m.event ∧
      (x.world.next env ⟨time, .claimResult i p⟩).store.jobs =
        (x.world.store.setJob i stored).jobs := by
  unfold Exchange.message at h
  split at h
  · rename_i reply s' hclaim
    have hperf : perform env time x.world.store (.claimResult i p) =
        .ok (.changed (some reply), s') := by
      simp only [perform, hclaim]
      rfl
    rcases leases_cases env x.world ⟨time, .claimResult i p⟩ with
      ⟨hnone, -⟩ | ⟨j, q, raw, record, stored, until_, hlease, hop, hraw, hload, -, hdump, hreply,
        hjobs⟩
    · simp [leases, hperf] at hnone
    · cases hop
      rw [hclaim, Except.ok.injEq, Prod.mk.injEq, Option.some.injEq] at hreply
      obtain ⟨rfl, -⟩ := hreply
      obtain ⟨e, he, rfl⟩ := Option.map_eq_some_iff.mp h
      have he' : record.event = some e := he
      refine ⟨raw, record, stored, until_, rfl, hraw, hload, hdump, ?_, hjobs⟩
      unfold JobRecord.dump at hdump
      split at hdump
      · cases hdump
        simp [JobRecord.wire, he']
      · cases hdump
  · cases h

/-! ### The store, the publishers and the topics -/

/-- What ties them together. -/
structure Aligned (x : Exchange) : Prop where
  /-- A message carries the event of its record, but for what the result in it is. -/
  announced : ∀ m ∈ x.sent, ∃ r e, x.world.store.jobs m.identity = some r ∧ r.event = some e ∧
    e.core = m.event.core
  appended : ∀ m ∈ x.topic, m ∈ x.sent
  /-- A publisher about to acknowledge saw its message on the topic. -/
  confirmed : ∀ p i n, x.phase p = .confirmed i n → ∃ m ∈ x.topic, m.number = n ∧ m.identity = i
  /-- The publisher in a record is the one that leased it last. -/
  claimant : ∀ i r, x.world.store.jobs i = some r → r.publishOwner = x.claimant i
  unclaimed : ∀ i, x.world.store.jobs i = none → x.claimant i = none

theorem aligned_initial (h : ExchangeInitial x) : Aligned x := by
  obtain ⟨hstore, hsent, htopic, hphase, hclaimant⟩ := h
  have hjobs : ∀ i, x.world.store.jobs i = none := fun i => by rw [hstore]; rfl
  refine ⟨?_, ?_, ?_, ?_, fun i _ => hclaimant i⟩
  · rw [hsent]
    simp
  · rw [htopic]
    simp
  · intro p i n hp
    rw [hphase] at hp
    cases hp
  · intro i r hr
    rw [hjobs] at hr
    cases hr

/-- The event of a message already sent stays the event of its record. -/
theorem announced_of_step (hreached : ExchangeReached env x) (h : ExchangeStep env x a y)
    {i : String} {r : JobRecord} {e : JobResultEvent} (hr : x.world.store.jobs i = some r)
    (he : r.event = some e) :
    ∃ r' e', y.world.store.jobs i = some r' ∧ r'.event = some e' ∧ e'.core = e.core := by
  have hout := reached_outcome (reached_world hreached) hr
  have hterm : r.status.terminal = true := by
    by_contra hlive
    rw [Bool.not_eq_true] at hlive
    rw [hout.event.mpr hlive] at he
    cases he
  rcases recordStep_of_exchange h i with hsame | ⟨ev, -, hstep⟩
  · exact ⟨r, e, hsame.trans hr, he, rfl⟩
  · rw [hr] at hstep
    obtain ⟨stored, hstored, -⟩ := hstep.sameExecution
    rw [hstored] at hstep
    obtain ⟨e', he', hcore⟩ := hstep.event_core hterm he
    exact ⟨stored, e', hstored, he', hcore⟩

/-- A transaction keeps the two clauses about the last publisher. -/
theorem claimant_of_fire (env : Env) (e : Event) (hx : Aligned x) :
    (∀ i r, (x.fire env e).world.store.jobs i = some r →
      r.publishOwner = (x.fire env e).claimant i) ∧
    ∀ i, (x.fire env e).world.store.jobs i = none → (x.fire env e).claimant i = none := by
  have hrecord := fun i => recordStep_of_transaction
    (transaction_after env e.time x.world.store e.op) i
  rcases leases_cases env x.world e with ⟨hnone, hkeep⟩ |
    ⟨j, p, raw, record, stored, until_, hlease, -, hraw, -, -, hdump, -, hjobs⟩
  · have hclaimant : (x.fire env e).claimant = x.claimant := by simp [Exchange.fire, hnone]
    rw [hclaimant]
    refine ⟨fun i r hr => ?_, fun i hi => ?_⟩
    · cases hbefore : x.world.store.jobs i with
      | some raw => exact (hkeep i raw r hbefore hr).trans (hx.claimant i raw hbefore)
      | none =>
          have hstep := hrecord i
          have hafter : (after env e.time e.op x.world.store).jobs i = some r := hr
          rw [hbefore, hafter] at hstep
          generalize e.op = op at hstep
          cases hstep with
          | @registered _ record _ hrec _ hdump =>
              rw [hx.unclaimed i hbefore, JobRecord.publishOwner_eq_of_core
                (JobRecord.dump_core hdump)]
              exact (show record.publishOwner = none from Intake.publishOwner hrec)
    · cases hbefore : x.world.store.jobs i with
      | none => exact hx.unclaimed i hbefore
      | some raw =>
          have hstep := hrecord i
          rw [hbefore] at hstep
          obtain ⟨_, hsome, -⟩ := hstep.sameExecution
          cases hsome.symm.trans hi
  · have hclaimant : (x.fire env e).claimant = Function.update x.claimant j (some p) := by
      simp [Exchange.fire, hlease]
    have hstore : (x.fire env e).world.store.jobs = (x.world.store.setJob j stored).jobs := hjobs
    rw [hclaimant, hstore]
    refine ⟨fun i r hr => ?_, fun i hi => ?_⟩
    · by_cases hij : i = j
      · subst hij
        rw [jobs_setJob_self] at hr
        cases hr
        rw [Function.update_self, JobRecord.publishOwner_eq_of_core (JobRecord.dump_core hdump)]
      · rw [jobs_setJob_ne hij] at hr
        rw [Function.update_of_ne hij]
        exact hx.claimant i r hr
    · by_cases hij : i = j
      · subst hij
        rw [jobs_setJob_self] at hi
        cases hi
      · rw [jobs_setJob_ne hij] at hi
        rw [Function.update_of_ne hij]
        exact hx.unclaimed i hi

/-- **Step lemma.** -/
theorem aligned_of_step (hreached : ExchangeReached env x) (hx : Aligned x)
    (h : ExchangeStep env x a y) : Aligned y := by
  have hold : ∀ m ∈ x.sent, ∃ r e, y.world.store.jobs m.identity = some r ∧ r.event = some e ∧
      e.core = m.event.core := by
    intro m hm
    obtain ⟨r, e, hr, he, hcore⟩ := hx.announced m hm
    obtain ⟨r', e', hr', he', hcore'⟩ := announced_of_step hreached h hr he
    exact ⟨r', e', hr', he', hcore'.trans hcore⟩
  have hother : ∀ {p q i : String} {n : Nat} {phase : Phase}, (∀ j k, phase ≠ .confirmed j k) →
      Function.update x.phase p phase q = .confirmed i n →
      ∃ m ∈ x.topic, m.number = n ∧ m.identity = i := by
    intro p q i n phase hphase hq
    by_cases hqp : q = p
    · subst hqp
      rw [Function.update_self] at hq
      exact absurd hq (hphase i n)
    · rw [Function.update_of_ne hqp] at hq
      exact hx.confirmed q i n hq
  cases exchanged_of_step h with
  | store _ _ =>
      obtain ⟨hclaimant, hunclaimed⟩ := claimant_of_fire env _ hx
      exact ⟨hold, hx.appended, hx.confirmed, hclaimant, hunclaimed⟩
  | @send time i p m _ _ hm =>
      obtain ⟨hclaimant, hunclaimed⟩ := claimant_of_fire env _ hx
      refine ⟨?_, fun m' hm' => List.mem_cons_of_mem _ (hx.appended m' hm'), ?_, hclaimant,
        hunclaimed⟩
      · intro m' hm'
        rcases List.mem_cons.mp hm' with rfl | hm'
        · obtain ⟨raw, record, stored, _, rfl, -, -, -, he, hjobs⟩ := Exchange.message_cases hm
          refine ⟨stored, m'.event, ?_, he, rfl⟩
          exact (congrFun hjobs _).trans jobs_setJob_self
        · exact hold m' hm'
      · intro q j n hq
        exact hother (by intro j k hphase; cases hphase) hq
  | @append m hm =>
      refine ⟨hx.announced, ?_, ?_, hx.claimant, hx.unclaimed⟩
      · intro m' hm'
        rcases List.mem_cons.mp hm' with rfl | hm'
        · exact hm
        · exact hx.appended m' hm'
      · intro p i n hp
        obtain ⟨m', hm', hn⟩ := hx.confirmed p i n hp
        exact ⟨m', List.mem_cons_of_mem _ hm', hn⟩
  | @confirm p i m hphase hm hi =>
      refine ⟨hx.announced, hx.appended, ?_, hx.claimant, hx.unclaimed⟩
      intro q j n hq
      by_cases hqp : q = p
      · subst hqp
        have hq' : Phase.confirmed i m.number = .confirmed j n :=
          (Function.update_self q _ x.phase).symm.trans hq
        cases hq'
        exact ⟨m, hm, rfl, hi⟩
      · exact hx.confirmed q j n ((Function.update_of_ne hqp _ _).symm.trans hq)
  | giveUp =>
      refine ⟨hx.announced, hx.appended, ?_, hx.claimant, hx.unclaimed⟩
      intro q j n hq
      exact hother (by intro j k hphase; cases hphase) hq
  | acknowledge _ _ =>
      obtain ⟨hclaimant, hunclaimed⟩ := claimant_of_fire env _ hx
      refine ⟨hold, hx.appended, ?_, hclaimant, hunclaimed⟩
      intro q j n hq
      exact hother (by intro j k hphase; cases hphase) hq

theorem reached_aligned (h : ExchangeReached env x) : Aligned x :=
  h.invariant_of (I := ExchangeReached env) (fun _ h => h) (fun _ => aligned_initial)
    (fun _ _ _ hreached hx hst => aligned_of_step hreached hx hst)

/-- **Only an acknowledgement publishes.** A record is marked published by the publisher
that leased it last, after the broker answered for a message of the execution. -/
theorem acknowledged_of_published (hreached : ExchangeReached env x) (h : ExchangeStep env x a y)
    {i : String} {r r' : JobRecord} (hr : x.world.store.jobs i = some r)
    (hr' : y.world.store.jobs i = some r') (hbefore : r.published = false)
    (hafter : r'.published = true) :
    ∃ time p n, a = .acknowledge time p ∧ x.phase p = .confirmed i n ∧
      x.claimant i = some p ∧ ∃ m ∈ x.topic, m.number = n ∧ m.identity = i := by
  have hx := reached_aligned hreached
  rcases recordStep_of_exchange h i with hsame | ⟨e, he, hstep⟩
  · rw [hsame, hr] at hr'
    cases hr'
    rw [hbefore] at hafter
    cases hafter
  · rw [hr, hr'] at hstep
    obtain ⟨p, hop, howner⟩ := hstep.published hbefore hafter
    rw [hx.claimant i r hr] at howner
    cases exchanged_of_step h with
    | @store ev _ hno =>
        cases he
        rw [hop] at hno
        cases hno
    | send =>
        cases he
        cases hop
    | append | confirm | giveUp => cases he
    | @acknowledge time q j n _ hphase =>
        simp only [Action.event, hphase, Option.some.injEq] at he
        subst he
        cases hop
        exact ⟨time, p, n, rfl, hphase, howner, hx.confirmed p i n hphase⟩

end

end Yeodam.Jobs
