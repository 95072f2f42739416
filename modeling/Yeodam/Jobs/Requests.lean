/-
What the intake makes of the request topics (`app/jobs/kafka.py`).

A message is put in a dead-letter topic for its own fault: it asks for no registration, and
three of its validation failures were counted (`reached_condemned`). An execution is registered
once, however often its message is delivered (`reached_ledger`). From the other end, a result on
a result topic answers a message of a request topic, by the route and under the key of that
message (`reached_answers`).
-/

import Yeodam.Jobs.Offsets

namespace Yeodam.Jobs

open Yeodam.Lib

section

variable {env : Env} {json : JsonLibrary} {c c' : Consumption} {a : Consuming} {r i : String}
  {m y : Incoming} {reason : RejectReason} {fault : RedisFault} {now : Time} {l : Loop}
  {record : JobRecord} {q : Intake}

/-! ### The dead-letter topics -/

/-- The message asks for no registration. -/
def Incoming.Refusable (env : Env) (json : JsonLibrary) (m : Incoming) : Prop :=
  ∀ q, m.asks env json ≠ some (.register q)

/-- The validation failures counted under a key. -/
def strikes (env : Env) (failures : List Incoming) (key : String) : Nat :=
  failures.countP fun m => env.sha256 m.source = key

/-- Fit for the dead-letter topic. -/
structure Condemned (env : Env) (json : JsonLibrary) (failures : List Incoming) (m : Incoming) :
    Prop where
  refusable : m.Refusable env json
  counted : 3 ≤ strikes env failures (env.sha256 m.source)

theorem strikes_le_cons (env : Env) (m : Incoming) (failures : List Incoming) (key : String) :
    strikes env failures key ≤ strikes env (m :: failures) key := by
  rw [strikes, strikes, List.countP_cons]
  exact Nat.le_add_right _ _

theorem Condemned.cons {failures : List Incoming} (h : Condemned env json failures y) :
    Condemned env json (m :: failures) y :=
  ⟨h.refusable, h.counted.trans (strikes_le_cons ..)⟩

variable (env json c)

/-- A count never runs ahead of the failures, and only what is condemned is sent. -/
structure Tallied : Prop where
  counted : ∀ key n, c.invalid key = some n → n.value ≤ strikes env c.failures key
  failures : ∀ x ∈ c.failures, x ∈ c.log x.origin ∧ x.Refusable env json
  rejecting : ∀ r x reason, c.loop r = .rejecting x reason → x.Refusable env json
  sending : ∀ r x reason, c.loop r = .sending x reason → Condemned env json c.failures x
  letters : ∀ d ∈ c.deadLetters,
    d.source ∈ c.log d.source.origin ∧ Condemned env json c.failures d.source

variable {env json c}

theorem tallied_initial (h : ConsumptionInitial c) : Tallied env json c where
  counted key n hn := by
    rw [h.invalid] at hn
    cases hn
  failures x hx := by
    rw [h.failures] at hx
    cases hx
  rejecting r x reason hx := by
    rw [h.loop] at hx
    cases hx
  sending r x reason hx := by
    rw [h.loop] at hx
    cases hx
  letters d hd := by
    rw [h.deadLetters] at hd
    cases hd

namespace Tallied

/-- The consumer goes on: what it is about to reject may be rejected, what it is about to send
is condemned. -/
theorem setLoop (h : Tallied env json c)
    (hrejecting : ∀ x reason, l = .rejecting x reason → x.Refusable env json)
    (hsending : ∀ x reason, l = .sending x reason → Condemned env json c.failures x) :
    Tallied env json (c.setLoop r l) := by
  refine ⟨h.counted, h.failures, fun r' x reason hx => ?_, fun r' x reason hx => ?_, h.letters⟩
  all_goals by_cases hr : r' = r
  · subst hr
    exact hrejecting x reason (by simpa [Consumption.setLoop] using hx)
  · exact h.rejecting r' x reason (by simpa [Consumption.setLoop, hr] using hx)
  · subst hr
    exact hsending x reason (by simpa [Consumption.setLoop] using hx)
  · exact h.sending r' x reason (by simpa [Consumption.setLoop, hr] using hx)

theorem setIdle (h : Tallied env json c) : Tallied env json (c.setLoop r .idle) :=
  h.setLoop (fun _ _ hx => nomatch hx) fun _ _ hx => nomatch hx

theorem setAccepting (h : Tallied env json c) : Tallied env json (c.setLoop r (.accepting m)) :=
  h.setLoop (fun _ _ hx => nomatch hx) fun _ _ hx => nomatch hx

theorem setCommitting (h : Tallied env json c) : Tallied env json (c.setLoop r (.committing m)) :=
  h.setLoop (fun _ _ hx => nomatch hx) fun _ _ hx => nomatch hx

theorem preserved (h : Tallied env json c) : Tallied env json (c.preserved r m) := by
  have hidle : Tallied env json (c.setLoop r .idle) := h.setIdle
  unfold Consumption.preserved
  dsimp only
  split
  · exact ⟨hidle.counted, hidle.failures, hidle.rejecting, hidle.sending, hidle.letters⟩
  · exact hidle

theorem commits (h : Tallied env json c) (answer : CommitAnswer) :
    Tallied env json (c.commits r m answer) := by
  have hcommitted : Tallied env json (c.setCommitted m.origin (m.offset + 1)) :=
    ⟨h.counted, h.failures, h.rejecting, h.sending, h.letters⟩
  cases answer with
  | taken => exact hcommitted.setIdle
  | refused => exact h.setIdle
  | failed taken =>
      cases taken with
      | true => exact hcommitted.setAccepting
      | false => exact h.setAccepting

/-- The count that is stored counts the failures so far. -/
theorem attempts_le (h : Tallied env json c) (key : String) (now : Time) :
    c.services.attempts key now ≤ strikes env c.failures key := by
  unfold Services.attempts
  cases hn : ((c.services.invalid key).filter fun n => now < n.expireAt) with
  | none => exact Nat.zero_le _
  | some n => exact h.counted key n (Option.filter_eq_some_iff.mp hn).1

/-- One more failure, and the count that goes with it. -/
theorem strike (h : Tallied env json c) (hm : m ∈ c.log m.origin) (hrefuse : m.Refusable env json)
    {attempts : Nat} {expireAt : Time}
    (hle : attempts ≤ strikes env c.failures (env.sha256 m.source) + 1) :
    Tallied env json { c with
      invalid := Function.update c.invalid (env.sha256 m.source) (some ⟨attempts, expireAt⟩)
      failures := m :: c.failures } := by
  refine ⟨fun key n hn => ?_, fun x hx => ?_, h.rejecting,
    fun r x reason hx => (h.sending r x reason hx).cons,
    fun d hd => ⟨(h.letters d hd).1, (h.letters d hd).2.cons⟩⟩
  · change Function.update c.invalid _ _ key = some n at hn
    by_cases hkey : key = env.sha256 m.source
    · subst hkey
      rw [Function.update_self, Option.some.injEq] at hn
      rw [← hn, strikes, List.countP_cons]
      simpa [strikes] using hle
    · rw [Function.update_of_ne hkey] at hn
      exact (h.counted key n hn).trans (strikes_le_cons ..)
  · rcases List.mem_cons.mp hx with rfl | hx
    · exact ⟨hm, hrefuse⟩
    · exact h.failures x hx

theorem counted_step (h : Tallied env json c) (hm : m ∈ c.log m.origin)
    (hrefuse : m.Refusable env json) (fault : RedisFault) (now : Time) :
    Tallied env json (c.counted env r m reason fault now) := by
  have hattempts := h.attempts_le (env.sha256 m.source) now
  have hnext : Tallied env json { c with
      invalid := Function.update c.invalid (env.sha256 m.source)
        (some ⟨min 3 (c.services.attempts (env.sha256 m.source) now + 1), now + 30 * 86400⟩)
      failures := m :: c.failures } :=
    h.strike hm hrefuse ((min_le_right _ _).trans (Nat.succ_le_succ hattempts))
  cases fault with
  | lost => exact h.setAccepting
  | unanswered => exact hnext.setAccepting
  | none =>
      unfold Consumption.counted Jobs.strike
      dsimp only
      refine hnext.setLoop (fun x reason' hx => ?_) fun x reason' hx => ?_
      · split at hx <;> cases hx
      · split at hx
        · rename_i hlast
          cases hx
          -- The third count is stored, so three failures were counted.
          have hthird : 3 ≤ min 3 (c.services.attempts (env.sha256 m.source) now + 1) := by
            by_contra hfew
            rw [if_pos (not_le.mp hfew)] at hlast
            cases hlast
          exact ⟨hrefuse, hthird.trans (hnext.counted _ _ (Function.update_self ..))⟩
        · cases hx
        · cases hx

/-- A letter more, or none. -/
theorem addLetter (h : Tallied env json c) (hm : m ∈ c.log m.origin)
    (hcondemned : Condemned env json c.failures m) :
    Tallied env json { c with deadLetters := ⟨m, reason⟩ :: c.deadLetters } := by
  refine ⟨h.counted, h.failures, h.rejecting, h.sending, fun d hd => ?_⟩
  rcases List.mem_cons.mp hd with rfl | hd
  · exact ⟨hm, hcondemned⟩
  · exact h.letters d hd

theorem quarantined (h : Tallied env json c) (hm : m ∈ c.log m.origin)
    (hcondemned : Condemned env json c.failures m) (answer : SendOutcome) :
    Tallied env json (c.quarantined r m reason answer) := by
  cases answer with
  | acknowledged => exact (h.addLetter hm hcondemned).setCommitting
  | failed e appended =>
      have hletters : Tallied env json { c with
          deadLetters :=
            (Jobs.quarantine m reason (.failed e appended) c.services).2.deadLetters } := by
        cases appended with
        | true => exact h.addLetter hm hcondemned
        | false => exact h
      cases e with
      | tooLarge => exact hletters.preserved
      | kafka | os => exact hletters.setAccepting

theorem accepted (h : Tallied env json c) (fault : RedisFault) (now : Time) :
    Tallied env json (c.accepted env json r m fault now) := by
  have hstored : Tallied env json (c.stored env json m fault now) :=
    ⟨h.counted, h.failures, h.rejecting, h.sending, h.letters⟩
  generalize hc' : c.accepted env json r m fault now = c'
  cases hc' ▸ accepted_cases env json c r m fault now with
  | refused reason hrefuse =>
      refine hstored.setLoop (fun x _ hx => ?_) fun _ _ hx => nomatch hx
      cases hx
      exact hrefuse
  | answered => exact setCommitting ⟨h.counted, h.failures, h.rejecting, h.sending, h.letters⟩
  | stopped =>
      have hidle := hstored.setIdle (r := r)
      exact ⟨hidle.counted, hidle.failures, hidle.rejecting, hidle.sending, hidle.letters⟩
  | again => exact hstored

end Tallied

/-- **Step lemma.** -/
theorem tallied_of_step (hs : Safe env json c) (ht : Tallied env json c)
    (h : ConsumptionStep env json c a c') : Tallied env json c' := by
  have hheld : ∀ {r m}, (c.loop r).message = some m → m ∈ c.log m.origin :=
    fun hmessage => (hs.held _ _ hmessage).1
  cases consumed_of_step h with
  | @produce m hfresh =>
      exact ⟨ht.counted,
        fun x hx => ⟨Consumption.mem_log_produced (ht.failures x hx).1, (ht.failures x hx).2⟩,
        ht.rejecting, fun r x reason hx => (ht.sending r x reason hx),
        fun d hd => ⟨Consumption.mem_log_produced (ht.letters d hd).1, (ht.letters d hd).2⟩⟩
  | assign | revoke => exact ⟨ht.counted, ht.failures, ht.rejecting, ht.sending, ht.letters⟩
  | deliver =>
      apply Tallied.setAccepting
      exact ⟨ht.counted, ht.failures, ht.rejecting, ht.sending, ht.letters⟩
  | accept => exact ht.accepted _ _
  | count hloop =>
      exact ht.counted_step (hheld (by rw [hloop]; rfl)) (ht.rejecting _ _ _ hloop) _ _
  | quarantine hloop =>
      exact ht.quarantined (hheld (by rw [hloop]; rfl)) (ht.sending _ _ _ hloop) _
  | commit => exact ht.commits _
  | stop r =>
      have hidle := ht.setIdle (r := r)
      exact ⟨hidle.counted, hidle.failures, hidle.rejecting, hidle.sending, hidle.letters⟩
  | other => exact ⟨ht.counted, ht.failures, ht.rejecting, ht.sending, ht.letters⟩

theorem reached_tallied (h : ConsumptionReached env json c) : Tallied env json c :=
  h.invariant_of (I := Safe env json) (fun _ => reached_safe) (fun _ => tallied_initial)
    fun _ _ _ => tallied_of_step

/-- **Dead letters.** A message in a dead-letter topic was produced and asks for no
registration, and three failures were counted under its key, each of a message that was
produced and asks for none. -/
theorem reached_condemned (h : ConsumptionReached env json c) {d : DeadLetter}
    (hd : d ∈ c.deadLetters) :
    d.source ∈ c.log d.source.origin ∧ Condemned env json c.failures d.source ∧
      ∀ x ∈ c.failures, x ∈ c.log x.origin ∧ x.Refusable env json :=
  ⟨((reached_tallied h).letters d hd).1, ((reached_tallied h).letters d hd).2,
    (reached_tallied h).failures⟩

theorem reached_condemned_sampleConsumption : ∃ d ∈ sampleConsumption.deadLetters,
    d.source ∈ sampleConsumption.log d.source.origin ∧
    Condemned sampleEnv bareJson sampleConsumption.failures d.source ∧
    ∀ x ∈ sampleConsumption.failures, x ∈ sampleConsumption.log x.origin ∧
      x.Refusable sampleEnv bareJson := by
  have hsent : sampleConsumption.deadLetters.any (fun _ => true) = true := by decide +kernel
  obtain ⟨d, hd, -⟩ := List.any_eq_true.mp hsent
  exact ⟨d, hd, reached_condemned reached_sampleConsumption hd⟩

/-! ### The ledger -/

/-- A step that registers nothing adds no record. -/
theorem RecordStep.none_of_none {op : Op} {after : Option JobRecord}
    (h : RecordStep env now i op none after) (hop : ∀ q, op ≠ .register q) : after = none := by
  cases h with
  | keep => rfl
  | registered => exact absurd rfl (hop _)

/-- An operation that registers nothing keeps the executions that have a record. -/
theorem isSome_jobs_after {op : Op} (s : Store) (hop : ∀ q, op ≠ .register q) (i : String) :
    ((after env now op s).jobs i).isSome = (s.jobs i).isSome := by
  have hstep := recordStep_of_transaction (transaction_after env now s op) i
  cases hbefore : s.jobs i with
  | none =>
      rw [hbefore] at hstep
      rw [hstep.none_of_none hop]
  | some raw =>
      rw [hbefore] at hstep
      obtain ⟨stored, hstored, -⟩ := hstep.sameExecution
      rw [hstored]
      rfl

/-- What was accepted is what has a record, and nothing was accepted twice. -/
structure Ledger (c : Consumption) : Prop where
  nodup : c.registered.Nodup
  mem_iff : ∀ i, i ∈ c.registered ↔ (c.exchange.world.store.jobs i).isSome = true

/-- A registration adds the record it accepts, or none. -/
theorem registered_cases (env : Env) (now : Time) (q : Intake) (s : Store) :
    (registered? (perform env now s (.register q)) (q.identity env) = some (q.identity env) ∧
      s.jobs (q.identity env) = none ∧
      ∀ i, ((after env now (.register q) s).jobs i).isSome = true ↔
        i = q.identity env ∨ (s.jobs i).isSome = true) ∨
    registered? (perform env now s (.register q)) (q.identity env) = none ∧
      (after env now (.register q) s).jobs = s.jobs := by
  cases hperf : perform env now s (.register q) with
  | error e => exact .inr ⟨rfl, by simp only [after, hperf]⟩
  | ok done =>
      obtain ⟨reply, s'⟩ := done
      rcases perform_register_cases hperf with ⟨rfl, -, rfl⟩ | ⟨rfl, -, staged, rfl⟩ |
        ⟨rfl, hopen, staged, stored, rfl⟩
      · exact .inr ⟨rfl, by simp only [after, hperf]⟩
      · exact .inr ⟨rfl, by simp only [after, hperf]; rfl⟩
      · refine .inl ⟨rfl, Store.jobs_eq_none_of_closed hopen, fun i => ?_⟩
        simp only [after, hperf, jobs_accept]
        by_cases hi : i = q.identity env
        · subst hi
          simp
        · rw [jobs_setJob_ne hi]
          simp [hi]

theorem registers_eq {s : Store} (hasks : m.asks env json = some (.register q))
    (hfault : fault ≠ .lost) : registers env json m fault now s =
      registered? (perform env now s (.register q)) (q.identity env) := by
  unfold registers
  rw [hasks]
  cases fault with
  | lost => exact absurd rfl hfault
  | none | unanswered => rfl

theorem registers_eq_none {s : Store} (hasks : ∀ q, m.asks env json ≠ some (.register q)) :
    registers env json m fault now s = none := by
  unfold registers
  split
  · rfl
  · rename_i hq
    exact absurd hq (hasks _)
  · rfl

/-- What the transaction of a message does to the executions that have a record. -/
theorem registers_cases (env : Env) (json : JsonLibrary) (m : Incoming) (fault : RedisFault)
    (now : Time) (s : Store) :
    (∃ q, m.asks env json = some (.register q) ∧ fault ≠ .lost ∧
      registers env json m fault now s = some (q.identity env) ∧
      s.jobs (q.identity env) = none ∧
      ∀ i, ((after env now (.register q) s).jobs i).isSome = true ↔
        i = q.identity env ∨ (s.jobs i).isSome = true) ∨
    registers env json m fault now s = none ∧ ∀ op, m.asks env json = some op → fault ≠ .lost →
      ∀ i, ((after env now op s).jobs i).isSome = (s.jobs i).isSome := by
  by_cases hfault : fault = .lost
  · subst hfault
    exact .inr ⟨by unfold registers; rfl, fun _ _ hlost => absurd rfl hlost⟩
  by_cases hregister : ∃ q, m.asks env json = some (.register q)
  · obtain ⟨q, hasks⟩ := hregister
    rw [registers_eq hasks hfault]
    rcases registered_cases env now q s with ⟨hnew, hnone, hjobs⟩ | ⟨hnew, hsame⟩
    · exact .inl ⟨q, hasks, hfault, hnew, hnone, hjobs⟩
    · refine .inr ⟨hnew, fun op hop _ i => ?_⟩
      cases hasks.symm.trans hop
      rw [hsame]
  · have hother : ∀ q, m.asks env json ≠ some (.register q) := fun q hq => hregister ⟨q, hq⟩
    refine .inr ⟨registers_eq_none hother, fun op hop _ i => ?_⟩
    exact isSome_jobs_after s (fun q hq => hother q (hq ▸ hop)) i

/-- Whatever `accept` makes of the message, the store and the ledger are those after its
transaction, and nothing is counted or committed. -/
theorem accepted_stored (env : Env) (json : JsonLibrary) (c : Consumption) (r : String)
    (m : Incoming) (fault : RedisFault) (now : Time) :
    (c.accepted env json r m fault now).exchange = (c.stored env json m fault now).exchange ∧
    (c.accepted env json r m fault now).registered =
      (c.stored env json m fault now).registered ∧
    (c.accepted env json r m fault now).log = c.log ∧
    (c.accepted env json r m fault now).failures = c.failures ∧
    (c.accepted env json r m fault now).committed = c.committed := by
  generalize hc' : c.accepted env json r m fault now = c'
  cases hc' ▸ accepted_cases env json c r m fault now with
  | refused | answered | stopped | again => exact ⟨rfl, rfl, rfl, rfl, rfl⟩

/-- The count, the dead-letter topic and the commit leave the store and the ledger alone. -/
theorem quarantined_stored (answer : SendOutcome) :
    (c.quarantined r m reason answer).exchange = c.exchange ∧
    (c.quarantined r m reason answer).registered = c.registered ∧
    (c.quarantined r m reason answer).log = c.log ∧
    (c.quarantined r m reason answer).failures = c.failures ∧
    (c.quarantined r m reason answer).committed = c.committed := by
  have hpreserved : ∀ c : Consumption, (c.preserved r m).exchange = c.exchange ∧
      (c.preserved r m).registered = c.registered ∧ (c.preserved r m).log = c.log ∧
      (c.preserved r m).failures = c.failures ∧ (c.preserved r m).committed = c.committed := by
    intro c
    unfold Consumption.preserved
    dsimp only
    split <;> exact ⟨rfl, rfl, rfl, rfl, rfl⟩
  cases answer with
  | acknowledged => exact ⟨rfl, rfl, rfl, rfl, rfl⟩
  | failed e appended =>
      cases e with
      | tooLarge => exact hpreserved _
      | kafka | os => exact ⟨rfl, rfl, rfl, rfl, rfl⟩

theorem commits_stored (answer : CommitAnswer) :
    (c.commits r m answer).exchange = c.exchange ∧
    (c.commits r m answer).registered = c.registered ∧ (c.commits r m answer).log = c.log := by
  cases answer with
  | taken | refused => exact ⟨rfl, rfl, rfl⟩
  | failed taken => cases taken <;> exact ⟨rfl, rfl, rfl⟩

/-- What a step does to the store, the ledger and the request topics. -/
inductive Recorded (env : Env) (json : JsonLibrary) (c c' : Consumption) : Prop where
  | kept : c'.exchange = c.exchange → c'.registered = c.registered →
      (∀ p, ∀ x ∈ c.log p, x ∈ c'.log p) → Recorded env json c c'
  | accepted {r : String} {m : Incoming} (fault : RedisFault) (now : Time) :
      c.loop r = .accepting m → c.exchange.world.clock ≤ now →
      c'.exchange = c.fired env json m fault now →
      c'.registered = (registers env json m fault now c.exchange.world.store).toList ++
        c.registered → c'.log = c.log → Recorded env json c c'
  | other {a : Action} : (∀ e, a.event c.exchange = some e → e.op.intake = false) →
      ExchangeStep env c.exchange a c'.exchange → c'.registered = c.registered →
      c'.log = c.log → Recorded env json c c'

theorem recorded_of_step (h : ConsumptionStep env json c a c') : Recorded env json c c' := by
  cases consumed_of_step h with
  | @produce m hfresh =>
      exact .kept rfl rfl fun _ _ hx => Consumption.mem_log_produced hx
  | assign | revoke | deliver | stop | count => exact .kept rfl rfl fun _ _ hx => hx
  | @accept r m fault time hloop hle =>
      obtain ⟨hexchange, hregistered, hlog, -⟩ := accepted_stored env json c r m fault time
      exact .accepted fault time hloop hle hexchange hregistered hlog
  | quarantine =>
      obtain ⟨hexchange, hregistered, hlog, -⟩ := quarantined_stored _
      exact .kept hexchange hregistered fun p x hx => by rw [hlog]; exact hx
  | commit =>
      obtain ⟨hexchange, hregistered, hlog⟩ := commits_stored _
      exact .kept hexchange hregistered fun p x hx => by rw [hlog]; exact hx
  | other hother hstep => exact .other hother hstep rfl rfl

/-- An action that is no intake keeps the executions that have a record. -/
theorem isSome_jobs_of_exchange {x z : Exchange} {b : Action}
    (hother : ∀ e, b.event x = some e → e.op.intake = false) (h : ExchangeStep env x b z)
    (i : String) : (z.world.store.jobs i).isSome = (x.world.store.jobs i).isSome := by
  rcases world_of_step h with ⟨-, hsame, -⟩ | ⟨e, he, ⟨-, hnext⟩, -⟩
  · rw [hsame]
  · rw [hnext]
    refine isSome_jobs_after _ (fun q hq => ?_) i
    have hintake := hother e he
    rw [hq] at hintake
    cases hintake

theorem ledger_initial (h : ConsumptionInitial c) : Ledger c := by
  have hstore := h.exchange.1
  refine ⟨by rw [h.registered]; exact .nil, fun i => ?_⟩
  rw [h.registered, hstore]
  simp [Store.initial]

theorem ledger_of_step (hl : Ledger c) (h : ConsumptionStep env json c a c') : Ledger c' := by
  cases recorded_of_step h with
  | kept hexchange hregistered =>
      exact ⟨by rw [hregistered]; exact hl.nodup, by rw [hregistered, hexchange]; exact hl.mem_iff⟩
  | @accepted r m fault now _ hle hexchange hregistered _ =>
      have hfired := c.fired_cases env json m fault now hle
      rw [← hexchange] at hfired
      rcases registers_cases env json m fault now c.exchange.world.store with
        ⟨q, hasks, hfault, hnew, hnone, hjobs⟩ | ⟨hnew, hjobs⟩
      · rw [hnew] at hregistered
        have hfresh : q.identity env ∉ c.registered := by
          rw [hl.mem_iff, hnone]
          simp
        rcases hfired with ⟨hlost | hno, -⟩ | ⟨op, hop, -, hfire, -⟩
        · exact absurd hlost hfault
        · cases hno.symm.trans hasks
        · cases hop.symm.trans hasks
          refine ⟨by rw [hregistered]; exact List.nodup_cons.mpr ⟨hfresh, hl.nodup⟩, fun i => ?_⟩
          rw [hregistered, hfire]
          refine Iff.trans ?_ (hjobs i).symm
          simp [hl.mem_iff]
      · rw [hnew] at hregistered
        refine ⟨by rw [hregistered]; exact hl.nodup, fun i => ?_⟩
        rw [hregistered]
        apply (hl.mem_iff i).trans
        rcases hfired with ⟨-, hsame⟩ | ⟨op, hop, hfault, hfire, -⟩
        · rw [hsame]
        · rw [hfire]
          exact (by rw [← hjobs op hop hfault i]; rfl)
  | other hother hstep hregistered =>
      refine ⟨by rw [hregistered]; exact hl.nodup, fun i => ?_⟩
      rw [hregistered, isSome_jobs_of_exchange hother hstep]
      exact hl.mem_iff i

/-- **Registered once.** No execution is accepted twice, however often its message is delivered,
and what was accepted is what has a record. -/
theorem reached_ledger (h : ConsumptionReached env json c) : Ledger c :=
  h.invariant (fun _ => ledger_initial) fun _ _ _ => ledger_of_step

theorem reached_ledger_sampleConsumption :
    Ledger sampleConsumption ∧ sampleConsumption.registered.length = 1 :=
  ⟨reached_ledger reached_sampleConsumption, by decide +kernel⟩

/-! ### Results and their requests -/

/-- The message asks for the execution of the record. -/
def Incoming.AsksFor (env : Env) (json : JsonLibrary) (m : Incoming) (record : JobRecord) : Prop :=
  ∃ q, m.asks env json = some (.register q) ∧ q.blank.SameExecution record

theorem Intake.sameExecution (h : q.record env = .ok record) : q.blank.SameExecution record := by
  unfold Intake.record at h
  split at h
  · exact terminate_sameExecution h
  · cases h
    exact .refl _

/-- A record after a step is of the execution before it, or of the one registered. -/
theorem RecordStep.origin {op : Op} {before : Option JobRecord} {stored : JobRecord}
    (h : RecordStep env now i op before (some stored)) :
    (∃ raw, before = some raw ∧ raw.SameExecution stored) ∨
    ∃ q, op = .register q ∧ q.blank.SameExecution stored := by
  cases before with
  | some raw =>
      obtain ⟨_, ⟨⟩, hsame⟩ := h.sameExecution
      exact .inl ⟨raw, rfl, hsame⟩
  | none =>
      cases h with
      | @registered q record _ hrec _ hdump =>
          have hcreated : record.SameExecution { record with createdAt := now } :=
            ⟨rfl, rfl, rfl, rfl⟩
          exact .inr ⟨q, rfl, (Intake.sameExecution hrec).trans (hcreated.trans
            (JobRecord.SameExecution.of_core (JobRecord.dump_core hdump)))⟩

/-- Every record was asked for by a message that was produced. -/
def Sourced (env : Env) (json : JsonLibrary) (c : Consumption) : Prop :=
  ∀ i record, c.exchange.world.store.jobs i = some record →
    ∃ m, m ∈ c.log m.origin ∧ m.AsksFor env json record

theorem sourced_of_step (hs : Safe env json c) (hsourced : Sourced env json c)
    (h : ConsumptionStep env json c a c') : Sourced env json c' := by
  have hold : ∀ {raw stored : JobRecord} {i}, c.exchange.world.store.jobs i = some raw →
      raw.SameExecution stored → ∃ m, m ∈ c.log m.origin ∧ m.AsksFor env json stored := by
    intro raw stored i hraw hsame
    obtain ⟨m, hm, q, hasks, hq⟩ := hsourced i raw hraw
    exact ⟨m, hm, q, hasks, hq.trans hsame⟩
  cases recorded_of_step h with
  | kept hexchange _ hlog =>
      intro i record hrecord
      rw [hexchange] at hrecord
      obtain ⟨m, hm, hasks⟩ := hsourced i record hrecord
      exact ⟨m, hlog _ m hm, hasks⟩
  | @accepted r m fault now hloop hle hexchange _ hlog =>
      intro i stored hstored
      rw [hlog]
      rcases c.fired_cases env json m fault now hle with
        ⟨-, hsame⟩ | ⟨op, hop, -, -, hstep⟩
      · rw [hexchange, hsame] at hstored
        exact hsourced i stored hstored
      · rw [← hexchange] at hstep
        rcases recordStep_of_exchange hstep i with hkeep | ⟨e, he, hrecord⟩
        · exact hsourced i stored (hkeep ▸ hstored)
        · cases he
          rw [hstored] at hrecord
          rcases hrecord.origin with ⟨raw, hraw, hsame⟩ | ⟨q, rfl, hq⟩
          · exact hold hraw hsame
          · exact ⟨m, (hs.held r m (by rw [hloop]; rfl)).1, q, hop, hq⟩
  | other hother hstep _ hlog =>
      intro i stored hstored
      rw [hlog]
      rcases recordStep_of_exchange hstep i with hkeep | ⟨e, he, hrecord⟩
      · exact hsourced i stored (hkeep ▸ hstored)
      · rw [hstored] at hrecord
        rcases hrecord.origin with ⟨raw, hraw, hsame⟩ | ⟨q, hq, -⟩
        · exact hold hraw hsame
        · have hintake := hother e he
          rw [hq] at hintake
          cases hintake

theorem reached_sourced (h : ConsumptionReached env json c) : Sourced env json c := by
  refine h.invariant_of (I := Safe env json) (fun _ => reached_safe) ?_ fun _ _ _ => sourced_of_step
  intro c hc i record hrecord
  have hstore := hc.exchange.1
  rw [hstore] at hrecord
  cases hrecord

/-- The route and the key of a message that asks for a registration. -/
theorem Incoming.route_of_asks (h : m.asks env json = some (.register q)) :
    env.cfg.topics.lookup m.topic = some (q.kind, q.resultTopic) ∧
      m.key = some (toString q.tripId).toUTF8 := by
  unfold Incoming.asks at h
  split at h
  · cases h
  rename_i kind resultTopic htopic
  split at h
  · cases h
  · cases h
  rename_i hparse
  cases h
  obtain ⟨data, e, -, -, hkey, rfl⟩ := parse_job hparse
  exact ⟨htopic, hkey⟩

/-- The result is the one of the execution the message asks for, under its key and on the
result topic of its route. -/
structure ResultMessage.Answers (env : Env) (json : JsonLibrary) (m : ResultMessage) (y : Incoming)
    (q : Intake) : Prop where
  asked : y.asks env json = some (.register q)
  route : env.cfg.topics.lookup y.topic = some (q.kind, m.topic)
  key : y.key = some m.key.toUTF8
  identity : m.identity = q.identity env
  tripId : m.event.tripId = q.tripId
  executionId : m.event.executionId = q.executionId
  type : m.event.type = q.kind.eventType

/-- **Every result has its request**, and all messages of an execution have the same topic, key and
event, but for what the result in the event is (`JobResultEvent.core`). -/
theorem reached_answers (h : ConsumptionReached env json c) {m : ResultMessage}
    (hm : m ∈ c.exchange.topic) :
    (∃ y q, y ∈ c.log y.origin ∧ m.Answers env json y q) ∧
    ∀ m' ∈ c.exchange.topic, m'.identity = m.identity →
      m'.topic = m.topic ∧ m'.key = m.key ∧ m'.event.core = m.event.core := by
  have hexchange := (reached_safe h).exchange
  obtain ⟨record, hrecord, hdelivers⟩ := reached_delivers hexchange m hm
  obtain ⟨y, hy, q, hasks, hq⟩ := reached_sourced h m.identity record hrecord
  obtain ⟨hroute, hkey⟩ := Incoming.route_of_asks hasks
  have hidentity := reached_keyed (reached_world hexchange) m.identity record hrecord
  have htopic : m.topic = q.resultTopic := hdelivers.topic.trans hq.resultTopic
  have htrip : record.tripId = q.tripId := hq.tripId
  refine ⟨⟨y, q, hy, ⟨hasks, ?_, ?_, ?_, hdelivers.agrees.tripId.trans htrip,
    hdelivers.agrees.executionId.trans hq.executionId, ?_⟩⟩, fun m' hm' hsame =>
      reached_agreed hexchange hm' hm hsame⟩
  · rw [htopic]
    exact hroute
  · rw [hkey, hdelivers.key, htrip]
  · exact hidentity.symm.trans (hq.identity_eq env.sha256)
  · exact hdelivers.agrees.type.trans (congrArg JobKind.eventType hq.kind)

end

theorem reached_answers_sampleConsumption : ∃ m ∈ sampleConsumption.exchange.topic,
    (∃ y q, y ∈ sampleConsumption.log y.origin ∧ m.Answers sampleEnv bareJson y q) ∧
    ∀ m' ∈ sampleConsumption.exchange.topic, m'.identity = m.identity →
      m'.topic = m.topic ∧ m'.key = m.key ∧ m'.event.core = m.event.core := by
  have hpublished : sampleConsumption.exchange.topic.any (fun _ => true) = true := by
    decide +kernel
  obtain ⟨m, hm, -⟩ := List.any_eq_true.mp hpublished
  exact ⟨m, hm, reached_answers reached_sampleConsumption hm⟩

end Yeodam.Jobs
