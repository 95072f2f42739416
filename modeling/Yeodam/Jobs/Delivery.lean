/-
The outbox: how the result of an execution gets to its topic (`publish_results`).

A record that has ended waits in the pending index until it is published, and it is
published only behind the broker: `reached_outbox`. What is on the topics is addressed by
the records (`reached_delivers`), and all messages of an execution say the same
(`reached_agreed`), although every publisher may send a result again and a message whose
answer was lost may still be appended.

What they say is the event but for its result: whether there is one, not what it is. Each
publisher reads the record and renders the result anew, and this may change the times in it.
-/

import Yeodam.Jobs.Publication

namespace Yeodam.Jobs

open Yeodam.Lib

/-- The message is the result of the record: its topic, its key and its event. -/
structure ResultMessage.Delivers (m : ResultMessage) (r : JobRecord) : Prop where
  topic : m.topic = r.resultTopic
  key : m.key = toString r.tripId
  event : ∃ e, r.event = some e ∧ e.core = m.event.core
  agrees : r.Says m.event

variable {env : Env} {x y : Exchange} {a : Action} {i : String} {r : JobRecord}

/-! ### Addresses -/

/-- The topic and the key of a message are those of the record. -/
def ResultMessage.Addressed (m : ResultMessage) (r : JobRecord) : Prop :=
  m.topic = r.resultTopic ∧ m.key = toString r.tripId

theorem ResultMessage.Addressed.sameExecution {m : ResultMessage} {r' : JobRecord}
    (h : m.Addressed r) (hsame : r.SameExecution r') : m.Addressed r' :=
  ⟨h.1.trans hsame.resultTopic.symm, h.2.trans (congrArg toString hsame.tripId.symm)⟩

theorem Exchange.addressed_message {time : Time} {p : String} {m : ResultMessage}
    (h : x.message env time i p = some m) :
    ∃ raw, x.world.store.jobs m.identity = some raw ∧ m.Addressed raw := by
  unfold Exchange.message at h
  split at h
  · rename_i reply s' hclaim
    obtain ⟨e, -, rfl⟩ := Option.map_eq_some_iff.mp h
    rcases change_cases hclaim with ⟨hnone, -⟩ |
      ⟨raw, record, changed, hreply, hraw, hload, hupd, -⟩
    · cases hnone
    · cases hreply
      have hedit : Edit env time (.claimResult i p) record reply none := claimResult_edit hupd
      have hload := JobRecord.SameExecution.of_core (JobRecord.load_core hload)
      have hsame := hload.trans hedit.sameExecution
      exact ⟨raw, hraw, hsame.resultTopic, congrArg toString hsame.tripId⟩
  · cases h

/-- A record that is there stays, as a record of its execution. -/
theorem sameExecution_of_exchange (h : ExchangeStep env x a y)
    (hr : x.world.store.jobs i = some r) :
    ∃ r', y.world.store.jobs i = some r' ∧ r.SameExecution r' := by
  rcases recordStep_of_exchange h i with hsame | ⟨e, -, hstep⟩
  · exact ⟨r, hsame.trans hr, .refl r⟩
  · rw [hr] at hstep
    exact hstep.sameExecution

/-- Everything handed to a producer is addressed by its record. -/
theorem reached_addressed (h : ExchangeReached env x) :
    ∀ m ∈ x.sent, ∃ r, x.world.store.jobs m.identity = some r ∧ m.Addressed r := by
  refine h.invariant (P := fun x => ∀ m ∈ x.sent, ∃ r, x.world.store.jobs m.identity = some r ∧
    m.Addressed r) ?_ ?_
  · rintro x ⟨-, hsent, -⟩ m hm
    rw [hsent] at hm
    cases hm
  · intro x a y hx hst
    have hold : ∀ m : ResultMessage, (∃ r, x.world.store.jobs m.identity = some r ∧
        m.Addressed r) → ∃ r, y.world.store.jobs m.identity = some r ∧ m.Addressed r := by
      rintro m ⟨r, hr, haddr⟩
      obtain ⟨r', hr', hsame⟩ := sameExecution_of_exchange hst hr
      exact ⟨r', hr', haddr.sameExecution hsame⟩
    intro m hm
    apply hold m
    cases exchanged_of_step hst with
    | store | append | confirm | giveUp | acknowledge => exact hx m hm
    | send _ _ hmsg =>
        rcases List.mem_cons.mp hm with rfl | hm
        · exact Exchange.addressed_message hmsg
        · exact hx m hm

/-! ### What is on the topics -/

theorem JobRecord.Says.of_core {e e' : JobResultEvent} (h : r.Says e) (hcore : e.core = e'.core) :
    r.Says e' where
  status := (congrArg (fun e => e.status.toTaskStatus) hcore.symm).trans h.status
  type := (congrArg JobResultEvent.type hcore.symm).trans h.type
  tripId := (congrArg JobResultEvent.tripId hcore.symm).trans h.tripId
  executionId := (congrArg JobResultEvent.executionId hcore.symm).trans h.executionId
  result := by
    have hstatus : e'.status = e.status := (congrArg JobResultEvent.status hcore.symm :)
    have hresult := congrArg (fun e => e.result.isSome) hcore
    simp only [JobResultEvent.core, Option.isSome_map] at hresult
    rw [← hresult, hstatus]
    exact h.result
  error := by
    have hstatus : e'.status = e.status := (congrArg JobResultEvent.status hcore.symm :)
    have herror := congrArg (fun e => e.error.isSome) hcore
    simp only [JobResultEvent.core, Option.isSome_map] at herror
    rw [← herror, hstatus]
    exact h.error

/-- **What the broker has, the store knows.** A message on a result topic is the result of
the record of its execution. -/
theorem reached_delivers (h : ExchangeReached env x) :
    ∀ m ∈ x.topic, ∃ r, x.world.store.jobs m.identity = some r ∧ m.Delivers r := by
  intro m hm
  have hsent := (reached_aligned h).appended m hm
  obtain ⟨r, e, hr, he, hcore⟩ := (reached_aligned h).announced m hsent
  obtain ⟨r', hr', haddr⟩ := reached_addressed h m hsent
  cases hr.symm.trans hr'
  have hsays := (reached_outcome (reached_world h) hr).agrees e he
  exact ⟨r, hr, haddr.1, haddr.2, ⟨e, he, hcore⟩, hsays.of_core hcore⟩

/-- All messages of an execution say the same, but for what their results are. -/
theorem reached_agreed (h : ExchangeReached env x) {m m' : ResultMessage} (hm : m ∈ x.topic)
    (hm' : m' ∈ x.topic) (hi : m.identity = m'.identity) :
    m.topic = m'.topic ∧ m.key = m'.key ∧ m.event.core = m'.event.core := by
  obtain ⟨r, hr, hdel⟩ := reached_delivers h m hm
  obtain ⟨r', hr', hdel'⟩ := reached_delivers h m' hm'
  rw [hi] at hr
  cases hr.symm.trans hr'
  obtain ⟨e, he, hcore⟩ := hdel.event
  obtain ⟨e', he', hcore'⟩ := hdel'.event
  cases he.symm.trans he'
  exact ⟨hdel.topic.trans hdel'.topic.symm, hdel.key.trans hdel'.key.symm,
    hcore.symm.trans hcore'⟩

/-! ### The outbox -/

/-- A new record is not published. -/
theorem RecordStep.unpublished_of_new {now : Time} {op : Op} {stored : JobRecord}
    (h : RecordStep env now i op none (some stored)) : stored.published = false := by
  cases h with
  | registered hrec _ hdump =>
      have hstored := JobRecord.published_eq_of_core (JobRecord.dump_core hdump)
      rw [hstored]
      obtain ⟨-, -, -, hpub, -⟩ := Intake.record_cases hrec
      exact hpub

/-- A published record has a message on the topics. -/
theorem reached_published (h : ExchangeReached env x) :
    ∀ i r, x.world.store.jobs i = some r → r.published = true →
      ∃ m ∈ x.topic, m.identity = i := by
  refine h.invariant_of (I := ExchangeReached env) (P := fun x => ∀ i r,
    x.world.store.jobs i = some r → r.published = true → ∃ m ∈ x.topic, m.identity = i)
    (fun _ h => h) ?_ ?_
  · rintro x ⟨hstore, -⟩ i r hr
    rw [hstore] at hr
    cases hr
  · intro x a y hreached hx hst i r hr hpub
    have hgrow : ∀ m ∈ x.topic, m ∈ y.topic := by
      intro m hm
      cases exchanged_of_step hst with
      | append => exact List.mem_cons_of_mem _ hm
      | store | send | confirm | giveUp | acknowledge => exact hm
    have hold : (∃ m ∈ x.topic, m.identity = i) → ∃ m ∈ y.topic, m.identity = i :=
      fun ⟨m, hm, hi⟩ => ⟨m, hgrow m hm, hi⟩
    cases hraw : x.world.store.jobs i with
    | none =>
        rcases recordStep_of_exchange hst i with hsame | ⟨e, -, hstep⟩
        · rw [hsame, hraw] at hr
          cases hr
        · rw [hraw, hr] at hstep
          rw [hstep.unpublished_of_new] at hpub
          cases hpub
    | some raw =>
        cases hbefore : raw.published with
        | true => exact hold (hx i raw hraw hbefore)
        | false =>
            obtain ⟨-, -, -, -, -, -, m, hm, -, hi⟩ :=
              acknowledged_of_published hreached hst hraw hr hbefore hpub
            exact hold ⟨m, hm, hi⟩

/-- **The outbox.** The result of an execution that has ended waits in the pending index,
or it is published and the broker has a message of its event. What the result in it is, is
left out (`JobResultEvent.core`). -/
theorem reached_outbox (h : ExchangeReached env x) (hr : x.world.store.jobs i = some r)
    (hterm : r.status.terminal = true) :
    r.published = false ∧ (x.world.store.pending.score? i).isSome = true ∨
    r.published = true ∧ (x.world.store.pending.score? i) = none ∧
      ∃ m ∈ x.topic, m.identity = i ∧ m.Delivers r := by
  have hcore : r.core.core = r.core := JobRecord.core_core r
  have hjob : (x.world.store.placement i).job = some r.core := by
    simp [Store.placement, hr]
  have hpending : (x.world.store.placement i).pending = x.world.store.pending.score? i := rfl
  have hloc := reached_located (reached_world h) i
  rw [← hpending]
  generalize x.world.store.placement i = place at hjob hloc
  have hlive : ∀ status, r.core.status = status → status.terminal = false → False := by
    rintro status rfl hlive
    rw [show r.core.status = r.status from rfl, hterm] at hlive
    cases hlive
  cases hloc with
  | absent => cases hjob
  | waiting hs =>
      cases hjob
      exact (hlive _ hs rfl).elim
  | running hs =>
      cases hjob
      exact (hlive _ hs rfl).elim
  | ended _ _ hpub =>
      cases hjob
      exact .inl ⟨hpub, rfl⟩
  | published _ _ hpub =>
      cases hjob
      refine .inr ⟨hpub, rfl, ?_⟩
      obtain ⟨m, hm, rfl⟩ := reached_published h i r hr hpub
      obtain ⟨r', hr', hdel⟩ := reached_delivers h m hm
      cases hr.symm.trans hr'
      exact ⟨m, hm, rfl, hdel⟩

/-- The process of trip 8 is canceled before a worker takes it, and the result is published. -/
def withdrawnSchedule : List Action :=
  let i := identity sampleDigest 8 .process "e2"
  [.store ⟨1, .register sampleProcess⟩, .store ⟨2, .cancel i⟩, .send 3 i "api", .append 0,
   .confirm "api", .acknowledge 4 "api"]

theorem reached_outbox_withdrawn :
    let x := enacted sampleEnv .initial withdrawnSchedule
    ∃ i r, x.world.store.jobs i = some r ∧
      (r.published = false ∧ (x.world.store.pending.score? i).isSome = true ∨
        r.published = true ∧ x.world.store.pending.score? i = none ∧
          ∃ m ∈ x.topic, m.identity = i ∧ m.Delivers r) := by
  have hreached : ExchangeReached sampleEnv (enacted sampleEnv .initial withdrawnSchedule) :=
    ⟨_, _, Exchange.initial_initial, run_enacted _ _ _ (by decide +kernel)⟩
  have hended : ((enacted sampleEnv .initial withdrawnSchedule).world.store.jobs
      (identity sampleDigest 8 .process "e2")).any (fun r => r.status.terminal) = true := by
    decide +kernel
  obtain ⟨r, hr, hterm⟩ := (Option.any_eq_true _ _).mp hended
  exact ⟨_, r, hr, reached_outbox hreached hr hterm⟩

end Yeodam.Jobs
