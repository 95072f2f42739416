/-
The request consumers: `consume_requests` of every replica over the broker
(`app/jobs/kafka.py`).

`Consumption` is the exchange of `Publication` with the request topics before it: what was
produced, the committed offsets, what every consumer is doing and which position it reads a
partition at. The intake is taken apart into its transactions: `accept` up to the store,
the count of a validation failure, the dead-letter topic, the commit. Between any two of
them other consumers move, partitions are assigned and revoked, and a process may be lost.

A consumer may be assigned any partition at any time, also one that another still reads, and
the broker may take a commit it should have refused. What is shown does not rest on fencing.
-/

import Yeodam.Jobs.Delivery
import Yeodam.Jobs.Kafka
import Yeodam.Jobs.Registration

namespace Yeodam.Jobs

open Yeodam.Lib Yeodam.Schemas

/-! ### Consumers and the request topics -/

/-- `TopicPartition` -/
abbrev Partition := String × Nat

def Incoming.origin (m : Incoming) : Partition := (m.topic, m.partition)

/-- Where a consumer is in its loop. -/
inductive Loop where
  | idle
  /-- About to call `accept`, for the first time or again. -/
  | accepting (message : Incoming)
  /-- In `reject`, before the count. -/
  | rejecting (message : Incoming) (reason : RejectReason)
  | sending (message : Incoming) (reason : RejectReason)
  | committing (message : Incoming)

def Loop.message : Loop → Option Incoming
  | .idle => none
  | .accepting m | .rejecting m _ | .sending m _ | .committing m => some m

/-- How a commit fares: it is taken, it is refused after a rebalance, or it fails and may have
been taken. -/
inductive CommitAnswer where
  | taken
  | refused
  | failed (taken : Bool)

structure Consumption where
  exchange : Exchange
  invalid : String → Option (Expiring Nat)
  deadLetters : List DeadLetter
  /-- What was produced to a partition, by offset. -/
  log : Partition → List Incoming
  committed : Partition → Nat
  /-- By consumer. -/
  loop : String → Loop
  /-- The offset a consumer reads next, where it is assigned the partition. -/
  position : String → Partition → Option Nat
  paused : String → Partition → Bool
  /-- What the store answered for a message. -/
  answers : List (Incoming × Reply)
  /-- The messages a validation failure was counted for. -/
  failures : List Incoming
  /-- The executions the store accepted. -/
  registered : List String

inductive Consuming where
  | produce (message : Incoming)
  | assign (consumer : String) (partition : Partition)
  | revoke (consumer : String) (partition : Partition)
  /-- `getone` -/
  | deliver (consumer : String) (partition : Partition)
  | accept (consumer : String) (fault : RedisFault) (time : Time)
  | count (consumer : String) (fault : RedisFault) (time : Time)
  | quarantine (consumer : String) (answer : SendOutcome)
  | commit (consumer : String) (answer : CommitAnswer)
  /-- The end of a connection or of a process. -/
  | stop (consumer : String)
  /-- Everything that is no intake. -/
  | other (action : Action)

/-! ### One message -/

section

variable (env : Env) (json : JsonLibrary)

/-- The transaction a message asks for, where it is valid. -/
def Incoming.asks (m : Incoming) : Option Op :=
  match env.cfg.topics.lookup m.topic with
  | none => none
  | some (kind, resultTopic) =>
      match parse env json kind resultTopic m with
      | .error _ => none
      | .ok (.photos message) => some (.stagePhotos message m.topic)
      | .ok (.job q) => some (.register q)

/-- The execution that a registration accepts. -/
def registered? (result : Except JobError (Reply × Store)) (identity : String) : Option String :=
  match result with
  | .ok (.register .accepted, _) => some identity
  | _ => none

/-- The execution a message registers: `register` answers `accepted`, although the answer
may be lost. -/
def registers (m : Incoming) (fault : RedisFault) (now : Time) (s : Store) : Option String :=
  match fault, m.asks env json with
  | .lost, _ => none
  | _, some (.register q) => registered? (perform env now s (.register q)) (q.identity env)
  | _, _ => none

end

namespace Consumption

variable (env : Env) (json : JsonLibrary) (c : Consumption)

def services : Services where
  store := c.exchange.world.store
  invalid := c.invalid
  deadLetters := c.deadLetters

def setLoop (r : String) (l : Loop) : Consumption :=
  { c with loop := Function.update c.loop r l }

def setPosition (r : String) (p : Partition) (n : Option Nat) : Consumption :=
  { c with position := Function.update c.position r (Function.update (c.position r) p n) }

def setPaused (r : String) (p : Partition) (paused : Bool) : Consumption :=
  { c with paused := Function.update c.paused r (Function.update (c.paused r) p paused) }

def setCommitted (p : Partition) (n : Nat) : Consumption :=
  { c with committed := Function.update c.committed p n }

def produced (m : Incoming) : Consumption :=
  { c with log := Function.update c.log m.origin (c.log m.origin ++ [m]) }

/-- The consumer is closed: it holds no message and no partition. -/
def stopped (r : String) : Consumption :=
  { c with
    loop := Function.update c.loop r .idle
    position := Function.update c.position r fun _ => none }

/-- The message `getone` returns: the first from the position on. -/
def next? (p : Partition) (n : Nat) : Option Incoming :=
  (c.log p).find? fun m => n ≤ m.offset

/-- The transaction of a message on the store, unless Redis fails before it. -/
def fired (m : Incoming) (fault : RedisFault) (now : Time) : Exchange :=
  match fault, m.asks env json with
  | .lost, _ | _, none => c.exchange
  | _, some op => c.exchange.fire env ⟨now, op⟩

/-- `accept`, up to the answer of the store. -/
def accepted (r : String) (m : Incoming) (fault : RedisFault) (now : Time) : Consumption :=
  let s := c.exchange.world.store
  let stored : Consumption :=
    { c with
      exchange := c.fired env json m fault now
      registered := (registers env json m fault now s).toList ++ c.registered }
  match examine env json m fault now s with
  | .invalid reason => stored.setLoop r (.rejecting m reason)
  | .settled (.stored reply) _ =>
      Consumption.setLoop { stored with answers := (m, reply) :: c.answers } r (.committing m)
  -- No handler: the loop ends, and the consumer is closed.
  | .settled (.raised (.job _)) _ => stored.stopped r
  | .settled _ _ => stored

def counted (r : String) (m : Incoming) (reason : RejectReason) (fault : RedisFault)
    (now : Time) : Consumption :=
  let (verdict, services) := strike env m fault now c.services
  let counted : Consumption :=
    { c with
      invalid := services.invalid
      failures := if fault = .lost then c.failures else m :: c.failures }
  counted.setLoop r (match verdict with
    | .last => .sending m reason
    | .unanswered | .again => .accepting m)

/-- The handler of `MessageSizeTooLargeError`: back to the message, and no further on its
partition. -/
def preserved (r : String) (m : Incoming) : Consumption :=
  let c := c.setLoop r .idle
  if (c.position r m.origin).isSome then
    (c.setPosition r m.origin (some m.offset)).setPaused r m.origin true
  else c

def quarantined (r : String) (m : Incoming) (reason : RejectReason) (answer : SendOutcome) :
    Consumption :=
  let (outcome, services) := quarantine m reason answer c.services
  let sent : Consumption := { c with deadLetters := services.deadLetters }
  match outcome with
  | .raised (.send .tooLarge) => sent.preserved r m
  | .raised _ => sent.setLoop r (.accepting m)
  | _ => sent.setLoop r (.committing m)

def commits (r : String) (m : Incoming) : CommitAnswer → Consumption
  | .taken => (c.setCommitted m.origin (m.offset + 1)).setLoop r .idle
  | .refused => c.setLoop r .idle
  | .failed true => (c.setCommitted m.origin (m.offset + 1)).setLoop r (.accepting m)
  | .failed false => c.setLoop r (.accepting m)

end Consumption

/-- A transaction that only the intake makes. -/
def Op.intake : Op → Bool
  | .register _ | .stagePhotos .. => true
  | _ => false

namespace Consumption

variable (env : Env) (json : JsonLibrary) (c : Consumption)

def advance : Consuming → Option Consumption
  | .produce m =>
      if ∀ x ∈ c.log m.origin, x.offset < m.offset then
        some (c.produced m)
      else none
  | .assign r p => some ((c.setPosition r p (some (c.committed p))).setPaused r p false)
  | .revoke r p => some (c.setPosition r p none)
  | .deliver r p =>
      match c.loop r, c.paused r p with
      | .idle, false => do
          let n ← c.position r p
          let m ← c.next? p n
          some ((c.setPosition r p (some (m.offset + 1))).setLoop r (.accepting m))
      | _, _ => none
  | .accept r fault time =>
      match c.loop r with
      | .accepting m =>
          if c.exchange.world.clock ≤ time then some (c.accepted env json r m fault time) else none
      | _ => none
  | .count r fault time =>
      match c.loop r with
      | .rejecting m reason => some (c.counted env r m reason fault time)
      | _ => none
  | .quarantine r answer =>
      match c.loop r with
      | .sending m reason => some (c.quarantined r m reason answer)
      | _ => none
  | .commit r answer =>
      match c.loop r with
      | .committing m => some (c.commits r m answer)
      | _ => none
  | .stop r => some (c.stopped r)
  | .other a =>
      if (a.event c.exchange).all fun e => !e.op.intake then
        (c.exchange.advance env a).map fun y => { c with exchange := y }
      else none

end Consumption

def ConsumptionStep (env : Env) (json : JsonLibrary) (c : Consumption) (a : Consuming)
    (c' : Consumption) : Prop :=
  c.advance env json a = some c'

/-- Before the first message. -/
structure ConsumptionInitial (c : Consumption) : Prop where
  exchange : ExchangeInitial c.exchange
  invalid : ∀ key, c.invalid key = none
  deadLetters : c.deadLetters = []
  log : ∀ p, c.log p = []
  committed : ∀ p, c.committed p = 0
  loop : ∀ r, c.loop r = .idle
  position : ∀ r p, c.position r p = none
  answers : c.answers = []
  failures : c.failures = []
  registered : c.registered = []

abbrev ConsumptionReached (env : Env) (json : JsonLibrary) : Consumption → Prop :=
  Reachable ConsumptionInitial (ConsumptionStep env json)

/-! ### What a step of a consumer does -/

section

variable {env : Env} {json : JsonLibrary} {c c' : Consumption} {a : Consuming} {r : String}
  {m : Incoming} {reason : RejectReason} {fault : RedisFault} {now : Time}

variable (env json c)

inductive Consumed : Consuming → Consumption → Prop where
  | produce {m : Incoming} : (∀ x ∈ c.log m.origin, x.offset < m.offset) →
      Consumed (.produce m) (c.produced m)
  | assign (r : String) (p : Partition) :
      Consumed (.assign r p) ((c.setPosition r p (some (c.committed p))).setPaused r p false)
  | revoke (r : String) (p : Partition) : Consumed (.revoke r p) (c.setPosition r p none)
  | deliver {r : String} {p : Partition} {n : Nat} {m : Incoming} : c.loop r = .idle →
      c.position r p = some n → c.next? p n = some m →
      Consumed (.deliver r p)
        ((c.setPosition r p (some (m.offset + 1))).setLoop r (.accepting m))
  | accept {r : String} {m : Incoming} {fault : RedisFault} {time : Time} :
      c.loop r = .accepting m → c.exchange.world.clock ≤ time →
      Consumed (.accept r fault time) (c.accepted env json r m fault time)
  | count {r : String} {m : Incoming} {reason : RejectReason} {fault : RedisFault} {time : Time} :
      c.loop r = .rejecting m reason →
      Consumed (.count r fault time) (c.counted env r m reason fault time)
  | quarantine {r : String} {m : Incoming} {reason : RejectReason} {answer : SendOutcome} :
      c.loop r = .sending m reason →
      Consumed (.quarantine r answer) (c.quarantined r m reason answer)
  | commit {r : String} {m : Incoming} {answer : CommitAnswer} : c.loop r = .committing m →
      Consumed (.commit r answer) (c.commits r m answer)
  | stop (r : String) : Consumed (.stop r) (c.stopped r)
  | other {a : Action} {y : Exchange} :
      (∀ e, a.event c.exchange = some e → e.op.intake = false) →
      ExchangeStep env c.exchange a y → Consumed (.other a) { c with exchange := y }

variable {env json c}

theorem consumed_of_step (h : ConsumptionStep env json c a c') : Consumed env json c a c' := by
  unfold ConsumptionStep Consumption.advance at h
  cases a with
  | produce m =>
      dsimp only at h
      split at h
      · rename_i hfresh
        cases h
        exact .produce hfresh
      · cases h
  | assign r p =>
      cases h
      exact .assign r p
  | revoke r p =>
      cases h
      exact .revoke r p
  | deliver r p =>
      dsimp only at h
      split at h
      · rename_i hloop _
        obtain ⟨n, hn, h⟩ := Option.bind_eq_some_iff.mp h
        obtain ⟨m, hm, h⟩ := Option.bind_eq_some_iff.mp h
        cases h
        exact .deliver hloop hn hm
      · cases h
  | accept r fault time =>
      dsimp only at h
      split at h
      · rename_i hloop
        split at h
        · rename_i hle
          cases h
          exact .accept hloop hle
        · cases h
      · cases h
  | count r fault time =>
      dsimp only at h
      split at h
      · rename_i hloop
        cases h
        exact .count hloop
      · cases h
  | quarantine r answer =>
      dsimp only at h
      split at h
      · rename_i hloop
        cases h
        exact .quarantine hloop
      · cases h
  | commit r answer =>
      dsimp only at h
      split at h
      · rename_i hloop
        cases h
        exact .commit hloop
      · cases h
  | stop r =>
      cases h
      exact .stop r
  | other a =>
      dsimp only at h
      split at h
      · rename_i hother
        obtain ⟨y, hy, rfl⟩ := Option.map_eq_some_iff.mp h
        refine .other (fun e he => ?_) hy
        rw [he] at hother
        simpa using hother
      · cases h

@[simp] theorem Consumption.log_produced_self :
    (c.produced m).log m.origin = c.log m.origin ++ [m] :=
  Function.update_self ..

theorem Consumption.log_produced_ne {p : Partition} (h : p ≠ m.origin) :
    (c.produced m).log p = c.log p :=
  Function.update_of_ne h ..

theorem Consumption.mem_log_produced {x : Incoming} {p : Partition} (h : x ∈ c.log p) :
    x ∈ (c.produced m).log p := by
  by_cases hp : p = m.origin
  · subst hp
    rw [Consumption.log_produced_self]
    exact List.mem_append_left _ h
  · rw [Consumption.log_produced_ne hp]
    exact h

/-! ### What becomes of a message -/

/-- The message asks for an operation of the intake. -/
theorem Incoming.intake_of_asks {op : Op} (h : m.asks env json = some op) : op.intake = true := by
  unfold Incoming.asks at h
  split at h
  · cases h
  · split at h
    · cases h
    · cases h
      rfl
    · cases h
      rfl

/-- The transaction of a message is a step of the exchange, or there is none. -/
theorem Consumption.fired_cases (env : Env) (json : JsonLibrary) (c : Consumption) (m : Incoming)
    (fault : RedisFault) (now : Time) (hle : c.exchange.world.clock ≤ now) :
    ((fault = .lost ∨ m.asks env json = none) ∧ c.fired env json m fault now = c.exchange) ∨
    ∃ op, m.asks env json = some op ∧ fault ≠ .lost ∧
      c.fired env json m fault now = c.exchange.fire env ⟨now, op⟩ ∧
      ExchangeStep env c.exchange (.store ⟨now, op⟩) (c.fired env json m fault now) := by
  unfold Consumption.fired
  split
  · exact .inl ⟨.inl rfl, rfl⟩
  · rename_i hasks
    exact .inl ⟨.inr hasks, rfl⟩
  · rename_i op hlost hasks
    refine .inr ⟨op, hasks, hlost, rfl, ?_⟩
    have hno : op.acknowledges = false := by
      have hintake := Incoming.intake_of_asks hasks
      cases op with
      | acknowledgeResult => cases hintake
      | _ => rfl
    exact if_pos ⟨hle, hno⟩

end

/-! ### A registration and a dead letter -/

def Consumption.initial : Consumption where
  exchange := .initial
  invalid := fun _ => none
  deadLetters := []
  log := fun _ => []
  committed := fun _ => 0
  loop := fun _ => .idle
  position := fun _ _ => none
  paused := fun _ _ => false
  answers := []
  failures := []
  registered := []

theorem Consumption.initial_initial : ConsumptionInitial .initial :=
  ⟨Exchange.initial_initial, fun _ => rfl, rfl, fun _ => rfl, fun _ => rfl, fun _ => rfl,
    fun _ _ => rfl, rfl, rfl, rfl⟩

/-- A body that identifies its execution and says nothing else. -/
def bareBody : Value :=
  .record [("type", .ofString "process"), ("trip_id", .int 8), ("execution_id", .ofString "e2")]

/-- The text of `bareBody`. -/
def bareText : String :=
  "\x7b\"type\":\"process\",\"trip_id\":8,\"execution_id\":\"e2\"\x7d"

/-- `json`, where `bareText` is the only text sent. -/
def bareJson : JsonLibrary where
  nesting := 1000
  loads bytes := if bytes.isEmpty then none else some bareBody
  loads_nesting := by
    intro bytes v h
    obtain ⟨-, h⟩ := Option.ite_none_left_eq_some.mp h
    cases h
    decide +kernel
  loads_digits := by
    intro bytes v n h hn
    obtain ⟨-, h⟩ := Option.ite_none_left_eq_some.mp h
    cases h
    cases hn
    decide

def bareMessage : Incoming :=
  ⟨"local.yeodam.trip-create.request", 0, 0, some "8".toUTF8, some bareText.toUTF8⟩

/-- A message without a value. -/
def blankMessage : Incoming := ⟨"local.yeodam.trip-create.request", 0, 1, none, none⟩

/-- One message is registered as failed, the other rejected three times, and the result of the
first is published. -/
def intakeSchedule : List Consuming :=
  let p : Partition := ("local.yeodam.trip-create.request", 0)
  [.produce bareMessage, .produce blankMessage, .assign "api" p,
   .deliver "api" p, .accept "api" .unanswered 1, .accept "api" .none 1, .commit "api" .taken,
   .deliver "api" p, .accept "api" .none 2, .count "api" .none 2, .accept "api" .none 3,
   .count "api" .none 3, .accept "api" .none 4, .count "api" .none 4,
   .quarantine "api" .acknowledged, .commit "api" .taken,
   .other (.send 5 (identity sampleDigest 8 .process "e2") "api"), .other (.append 0)]

def sampleConsumption : Consumption :=
  followed (Consumption.advance sampleEnv bareJson) .initial intakeSchedule

theorem reached_sampleConsumption : ConsumptionReached sampleEnv bareJson sampleConsumption :=
  ⟨_, _, Consumption.initial_initial, run_followed _ _ (by decide +kernel)⟩

end Yeodam.Jobs
