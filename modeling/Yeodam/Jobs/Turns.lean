/-
Whose turn it is: a claim against the order in which jobs were registered.

`Turns` is the store beside two records of what has happened: the executions in the
order their registrations were accepted, and the claims handed to workers. The score
a worker gives back a job with is the one its own claim read. Times are arbitrary:
the clock of the store may go back between two transactions.

The queue score of an execution is its place in the order of registration, from its
registration on and through every claim and return (`reached_orderly`). A claim pops the
smallest score, so it takes the job that was registered first (`claim_firstCome`).
-/

import Yeodam.Jobs.Indexes
import Yeodam.Jobs.Registration

namespace Yeodam.Jobs

open Yeodam.Lib

variable {env : Env} {now : Time} {s s' : Store} {op : Op} {reply : Reply} {i : String}

/-! ### Scores in the queues -/

theorem queued_eq_score? (s : Store) (i : String) (kind : JobKind) :
    (s.placement i).queued kind = (s.queue kind).score? i := rfl

/-- No other operation than a registration moves the sequence. -/
theorem enqueueSequence_of_transaction (h : Transaction env now s op s')
    (hop : ∀ q, op ≠ .register q) : s'.enqueueSequence = s.enqueueSequence := by
  cases h with
  | unchanged | swept | unqueued | claimed | acknowledged | staged | popped => rfl
  | accepted | ignored => exact absurd rfl (hop _)
  | changed _ _ _ _ hw =>
      obtain ⟨stored, -, ⟨-, rfl⟩ | ⟨-, d, -, rfl⟩ | ⟨-, -, rfl⟩ | ⟨-, score, -, rfl⟩⟩ :=
        writeChange_cases hw
      · unfold Store.close
        dsimp only
        split <;> split <;> rfl
      · rfl
      · rfl
      · rfl

/-- A registration that is accepted takes the next number. -/
theorem enqueueSequence_accept {record : JobRecord} {staged : List String} :
    (s.accept i record staged now).enqueueSequence = s.enqueueSequence + 1 := by
  unfold Store.accept
  dsimp only
  split <;> rfl

/-- The score a queued execution has after `change` wrote its record. -/
theorem queued_writeChange {wasTerminal : Bool} {r : JobRecord} {queueScore : Option Time}
    {kind : JobKind} {x : Time}
    (h : writeChange env i wasTerminal r queueScore now s = .ok s')
    (hx : (s'.placement i).queued kind = some x) :
    (s.placement i).queued kind = some x ∨ r.status = .queued ∧ queueScore = some x := by
  obtain ⟨stored, -, ⟨-, rfl⟩ | ⟨-, d, -, rfl⟩ | ⟨-, -, rfl⟩ | ⟨hs, score, rfl, rfl⟩⟩ :=
    writeChange_cases h
  · rw [placement_writeChange_terminal] at hx
    by_cases hk : kind = r.kind
    · subst hk
      simp at hx
    · exact .inl (by simpa [Function.update_of_ne hk] using hx)
  · exact .inl (by simpa using hx)
  · exact .inl (by simpa using hx)
  · rw [placement_requeue_self] at hx
    by_cases hk : kind = r.kind
    · subst hk
      exact .inr ⟨hs, by simpa using hx⟩
    · exact .inl (by simpa [Function.update_of_ne hk] using hx)

/-- Only a job that is given back brings a score of its own. -/
theorem Edit.queueScore {r r' : JobRecord} {queueScore : Option Time} {x : Time}
    (h : Edit env now op r r' queueScore) (htarget : op.target = some i)
    (hstatus : r'.status = .queued) (hx : queueScore = some x) :
    ∃ owner, op = .returnUnstarted i owner x := by
  cases h with
  | @giveBack j owner score r howns hcancel =>
      obtain rfl : j = i := Option.some.inj htarget
      obtain rfl : score = x := Option.some.inj hx
      exact ⟨owner, rfl⟩
  | stop _ _ _ hterm =>
      have hends := (terminate_ends hterm).2.2.1
      rw [hstatus] at hends
      cases hends
  | renew | report | finish | flag | cancelQueued | recover | leaseResult => cases hx

/-- Where the score of a queued execution comes from, registrations apart. -/
theorem queued_of_transaction_ne (h : Transaction env now s op s') (hop : ∀ q, op ≠ .register q)
    {kind : JobKind} {x : Time} (hx : (s'.placement i).queued kind = some x) :
    (s.placement i).queued kind = some x ∨ ∃ owner, op = .returnUnstarted i owner x := by
  cases h with
  | unchanged | swept | staged | popped => exact .inl hx
  | accepted | ignored => exact absurd rfl (hop _)
  | @unqueued kind' _ _ identity _ _ _ =>
      refine .inl ?_
      by_cases hi : i = identity
      · subst hi
        rw [placement_dequeue_self] at hx
        by_cases hk : kind = kind'
        · subst hk
          simp at hx
        · simpa [Function.update_of_ne hk] using hx
      · rwa [placement_dequeue_ne hi] at hx
  | @claimed _ _ _ _ identity _ _ _ stored _ hfree _ _ _ _ _ _ =>
      refine .inl ?_
      by_cases hi : i = identity
      · subst hi
        rw [placement_occupy_self] at hx
        by_cases hk : kind = stored.kind
        · subst hk
          simp at hx
        · simpa [Function.update_of_ne hk] using hx
      · rwa [placement_occupy_ne hfree hi] at hx
  | @acknowledged identity _ _ _ _ _ _ _ _ =>
      refine .inl ?_
      by_cases hi : i = identity
      · subst hi
        simpa using hx
      · rwa [placement_removePending_ne hi, placement_setJob_ne hi] at hx
  | @changed _ identity _ _ changed queueScore _ htarget _ _ hedit hw =>
      by_cases hi : i = identity
      · subst hi
        rcases queued_writeChange hw hx with hx | ⟨hstatus, hscore⟩
        · exact .inl hx
        · exact .inr (hedit.queueScore htarget hstatus hscore)
      · rw [placement_writeChange_ne hi hw] at hx
        exact .inl hx

/-- The score of an execution whose registration is accepted. -/
theorem queued_accept {record : JobRecord} {staged : List String} {kind : JobKind} {x : Time}
    (hx : ((s.accept i record staged now).placement i).queued kind = some x) :
    (s.placement i).queued kind = some x ∨ x = s.enqueueSequence + 1 := by
  cases hevent : record.event with
  | none =>
      rw [placement_accept_waiting (by simp [hevent])] at hx
      by_cases hk : kind = record.kind
      · subst hk
        exact .inr (by simpa [eq_comm] using hx)
      · exact .inl (by simpa [Function.update_of_ne hk] using hx)
  | some event =>
      rw [placement_accept_ended (by simp [hevent])] at hx
      exact .inl (by simpa using hx)

/-! ### Histories -/

/-- The store with what its queues have been through. -/
structure Turns where
  store : Store
  /-- The executions whose registration was accepted, in that order. -/
  arrivals : List String
  /-- The claims that succeeded: the execution, the owner token and the score read. -/
  handed : List (String × String × Time)

/-- What a registration adds to the arrivals. -/
def arrival (env : Env) : Op → Reply → List String
  | .register q, .register .accepted => [q.identity env]
  | _, _ => []

/-- What a claim adds to the claims. -/
def handout (env : Env) : Op → Reply → List (String × String × Time)
  | .claim _ owner _, .claim (.claimed record score) =>
      [(record.identity env.sha256, owner, score)]
  | _, _ => []

namespace Turns

def next (env : Env) (t : Turns) (e : Event) : Turns :=
  match perform env e.time t.store e.op with
  | .error _ => t
  | .ok (reply, s') =>
      { store := s'
        arrivals := t.arrivals ++ arrival env e.op reply
        handed := t.handed ++ handout env e.op reply }

/-- `return_unstarted` is called by `claim` alone, for the record it has just claimed and
with the score it read. -/
def allowed (t : Turns) (e : Event) : Bool :=
  match e.op with
  | .returnUnstarted identity owner score => decide ((identity, owner, score) ∈ t.handed)
  | _ => true

def advance (env : Env) (t : Turns) (e : Event) : Option Turns :=
  if t.allowed e then some (t.next env e) else none

def initial : Turns := ⟨.initial, [], []⟩

/-- The execution is queued for its kind. -/
def Waiting (t : Turns) (kind : JobKind) (i : String) : Prop :=
  ∃ r, t.store.jobs i = some r ∧ r.kind = kind ∧ r.status = .queued

/-- `i` was registered before `j`. -/
def Before (t : Turns) (i j : String) : Prop :=
  ∃ m n : Nat, t.arrivals[m]? = some i ∧ t.arrivals[n]? = some j ∧ m < n

end Turns

def TurnStep (env : Env) (t : Turns) (e : Event) (t' : Turns) : Prop := t.advance env e = some t'

/-- Histories some interleaving of transactions leads to, whatever the clock shows. -/
abbrev TurnsReached (env : Env) : Turns → Prop := Reachable (· = Turns.initial) (TurnStep env)

/-- The score of the execution that was registered in place `n`. -/
def Turns.Numbered (t : Turns) (i : String) (x : Time) : Prop :=
  ∃ n : Nat, t.arrivals[n]? = some i ∧ x = n + 1

/-- Scores follow the order of registration. -/
structure Orderly (env : Env) (t : Turns) : Prop where
  located : ∀ i, Located env (t.store.placement i)
  keyed : Keyed env t.store
  sequence : t.store.enqueueSequence = t.arrivals.length
  nodup : t.arrivals.Nodup
  closed : ∀ i ∈ t.arrivals, t.store.closed i = true
  queued : ∀ kind i x, (t.store.placement i).queued kind = some x → t.Numbered i x
  handed : ∀ i owner x, (i, owner, x) ∈ t.handed → t.Numbered i x

/-! ### Step and run -/

section

variable {t t' : Turns} {e : Event}

theorem getElem?_append_arrivals {xs ys : List String} {n : Nat} (h : xs[n]? = some i) :
    (xs ++ ys)[n]? = some i := by
  obtain ⟨hlt, -⟩ := List.getElem?_eq_some_iff.mp h
  rw [List.getElem?_append_left hlt, h]

theorem Turns.Numbered.append {x : Time} {ys : List String} {hs : List (String × String × Time)}
    (h : t.Numbered i x) : Turns.Numbered ⟨s', t.arrivals ++ ys, hs⟩ i x := by
  obtain ⟨n, hn, hx⟩ := h
  exact ⟨n, getElem?_append_arrivals hn, hx⟩

/-- The claim found its execution, by its number, at the head of the queue. -/
theorem Orderly.claimed {kind : JobKind} {owner : String} {stop : Bool} {record : JobRecord}
    {score : Time} (h : Orderly env t)
    (hclaim : perform env now t.store (.claim kind owner stop) =
      .ok (.claim (.claimed record score), s')) :
    (t.store.queue kind).first? = some (record.identity env.sha256, score) ∧
      t.Waiting kind (record.identity env.sha256) := by
  obtain ⟨⟨reply, s''⟩, hc, heq⟩ := except_bind_eq_ok.mp hclaim
  cases heq
  obtain ⟨slot, identity, raw, found, stored, -, -, -, hfirst, hraw, hload, hstatus, rfl, -, -⟩ :=
    (claim_cases hc).2 record score rfl
  have hsame := JobRecord.SameExecution.of_core (JobRecord.load_core hload)
  have hid : (found.start owner now).identity env.sha256 = identity :=
    (hsame.identity_eq env.sha256).trans (h.keyed identity raw hraw)
  rw [hid]
  obtain ⟨r, -, -, hkind, hp⟩ := (h.located identity).of_queued (SortedSet.first?_mem hfirst)
  obtain ⟨raw', hraw', rfl⟩ := placement_job_eq_some (congrArg Placement.job hp)
  obtain rfl : raw = raw' := Option.some.inj (hraw.symm.trans hraw')
  have hs := JobRecord.status_eq_of_core (JobRecord.load_core hload)
  exact ⟨hfirst, raw, hraw, hkind, hs.symm.trans hstatus⟩

/-- What the transactions other than registrations do to the order. -/
theorem Orderly.next_of_ne (h : Orderly env t) (hop : ∀ q, e.op ≠ .register q)
    (hallowed : t.allowed e = true)
    (hperf : perform env e.time t.store e.op = .ok (reply, s')) :
    Orderly env ⟨s', t.arrivals, t.handed ++ handout env e.op reply⟩ := by
  have htrans := transaction_of_perform hperf
  constructor
  case located => exact located_of_transaction h.located htrans
  case keyed =>
    intro i r hr
    have hstep := recordStep_of_transaction htrans i
    rw [hr] at hstep
    exact hstep.keyed (h.keyed i)
  case sequence => exact (enqueueSequence_of_transaction htrans hop).trans h.sequence
  case nodup => exact h.nodup
  case closed => exact fun i hi => closed_of_transaction htrans (h.closed i hi)
  case queued =>
    intro kind i x hx
    rcases queued_of_transaction_ne htrans hop hx with hx | ⟨owner, hreturn⟩
    · exact h.queued kind i x hx
    · rw [Turns.allowed, hreturn] at hallowed
      exact h.handed i owner x (of_decide_eq_true hallowed)
  case handed =>
    intro i owner x hmem
    rcases List.mem_append.mp hmem with hmem | hmem
    · exact h.handed i owner x hmem
    · unfold handout at hmem
      split at hmem
      · rename_i kind owner' stop record score hclaim _
        obtain ⟨rfl, rfl, rfl⟩ : i = record.identity env.sha256 ∧ owner = owner' ∧ x = score := by
          simpa using hmem
        rw [hclaim] at hperf
        exact h.queued kind _ _ (SortedSet.first?_mem (h.claimed hperf).1)
      · cases hmem

/-- A registration joins the end of the order, or is turned away. -/
theorem Orderly.next_register (h : Orderly env t) {q : Intake}
    (hperf : perform env now t.store (.register q) = .ok (reply, s')) :
    Orderly env ⟨s', t.arrivals ++ arrival env (.register q) reply, t.handed⟩ := by
  have htrans := transaction_of_perform hperf
  have hlocated := located_of_transaction h.located htrans
  have hclosed := fun i => closed_of_transaction (i := i) htrans
  have hkeyed : Keyed env s' := by
    intro i r hr
    have hstep := recordStep_of_transaction htrans i
    rw [hr] at hstep
    exact hstep.keyed (h.keyed i)
  rcases perform_register_cases hperf with ⟨rfl, -, rfl⟩ | ⟨rfl, -, staged, rfl⟩ |
    ⟨rfl, hopen, staged, stored, rfl⟩
  · simpa [arrival] using h
  · simp only [arrival, List.append_nil]
    exact ⟨hlocated, hkeyed, h.sequence, h.nodup, fun i hi => hclosed i (h.closed i hi), h.queued,
      h.handed⟩
  · simp only [arrival]
    have hfresh : q.identity env ∉ t.arrivals := by
      intro hmem
      rw [h.closed _ hmem] at hopen
      cases hopen
    constructor
    case located => exact hlocated
    case keyed => exact hkeyed
    case sequence => simp [enqueueSequence_accept, h.sequence]
    case nodup =>
      rw [List.nodup_append]
      refine ⟨h.nodup, by simp, ?_⟩
      intro i hi j hj heq
      obtain rfl := List.mem_singleton.mp hj
      exact hfresh (heq ▸ hi)
    case closed =>
      intro i hi
      rcases List.mem_append.mp hi with hi | hi
      · exact hclosed i (h.closed i hi)
      · obtain rfl := List.mem_singleton.mp hi
        simp [Store.closed]
    case queued =>
      intro kind i x hx
      by_cases hi : i = q.identity env
      · subst hi
        rcases queued_accept hx with hx | rfl
        · exact (h.queued kind _ x hx).append
        · exact ⟨t.arrivals.length, by simp, by simp [h.sequence]⟩
      · rw [placement_accept_ne hi] at hx
        exact (h.queued kind i x hx).append
    case handed => exact fun i owner x hmem => (h.handed i owner x hmem).append

/-- **Step lemma.** Every transaction keeps the scores in the order of registration. -/
theorem Orderly.step (h : Orderly env t) (hstep : TurnStep env t e t') : Orderly env t' := by
  unfold TurnStep Turns.advance at hstep
  split at hstep
  · rename_i hallowed
    cases hstep
    unfold Turns.next
    split
    · exact h
    · rename_i reply s' hperf
      obtain ⟨time, op⟩ := e
      cases op with
      | register q =>
          have hnext := h.next_register hperf
          simpa [handout] using hnext
      | _ =>
          have hnext := h.next_of_ne (fun q => by simp) hallowed hperf
          simpa [arrival] using hnext
  · cases hstep

theorem orderly_initial : Orderly env Turns.initial where
  located := located_initial
  keyed i r hr := by cases hr
  sequence := rfl
  nodup := .nil
  closed i hi := by cases hi
  queued kind i x hx := by
    rw [Turns.initial, queued_eq_score?] at hx
    cases hx
  handed i owner x hmem := by cases hmem

/-- **Run lemma.** -/
theorem reached_orderly (h : TurnsReached env t) : Orderly env t :=
  h.invariant (by rintro _ rfl; exact orderly_initial) fun _ _ _ h hst => h.step hst

end

/-! ### First come, first served -/

/-- The execution `i` is the next of its kind. -/
structure FirstCome (t : Turns) (kind : JobKind) (i : String) : Prop where
  /-- The order of registration, each execution once. -/
  nodup : t.arrivals.Nodup
  waiting : t.Waiting kind i
  first : ∀ j, t.Waiting kind j → j ≠ i → t.Before i j
  /-- A job that was claimed and given back stays ahead of the ones registered later. -/
  keeps_turn : ∀ j owner score, (j, owner, score) ∈ t.handed → t.Waiting kind j →
    ∀ k, t.Before j k → i ≠ k

theorem Turns.Before.asymm {t : Turns} {i j : String} (hnodup : t.arrivals.Nodup)
    (h : t.Before i j) : ¬ t.Before j i := by
  rintro ⟨m', n', hm', hn', hlt'⟩
  obtain ⟨m, n, hm, hn, hlt⟩ := h
  have hmn : m = n' :=
    (List.getElem?_inj (List.getElem?_eq_some_iff.mp hm).1 hnodup).mp (hm.trans hn'.symm)
  have hnm : n = m' :=
    (List.getElem?_inj (List.getElem?_eq_some_iff.mp hn).1 hnodup).mp (hn.trans hm'.symm)
  omega

/-- **First come, first served.** Whatever the replicas do, in whatever order and with
whatever readings of the clock, a claim takes the queued job of its kind that was
registered first. -/
theorem claim_firstCome {t : Turns} (h : TurnsReached env t) {kind : JobKind} {owner : String}
    {stop : Bool} {record : JobRecord} {score : Time}
    (hclaim : perform env now t.store (.claim kind owner stop) =
      .ok (.claim (.claimed record score), s')) :
    FirstCome t kind (record.identity env.sha256) := by
  have horder := reached_orderly h
  obtain ⟨hfirst, hwaiting⟩ := horder.claimed hclaim
  obtain ⟨m, hm, hscore⟩ := horder.queued kind _ score (SortedSet.first?_mem hfirst)
  have hbefore : ∀ j, t.Waiting kind j → j ≠ record.identity env.sha256 →
      t.Before (record.identity env.sha256) j := by
    rintro j ⟨r, hr, hkind, hstatus⟩ hne
    have hqueued : j ∈ t.store.index (.queue kind) :=
      ((horder.located j).mem_index_iff (.queue kind)).mpr
        ⟨r, hr, JobRecord.index?_eq_queue_iff.mpr ⟨hkind, hstatus⟩⟩
    obtain ⟨x, hx⟩ := SortedSet.mem_iff.mp hqueued
    obtain ⟨n, hn, rfl⟩ := horder.queued kind j x hx
    have hle := SortedSet.first?_le hfirst hx
    refine ⟨m, n, hm, hn, ?_⟩
    have hmn : m ≤ n := by
      rw [hscore] at hle
      exact_mod_cast (add_le_add_iff_right 1).mp hle
    apply hmn.lt_of_ne
    rintro rfl
    exact hne (Option.some.inj (hn.symm.trans hm))
  refine ⟨horder.nodup, hwaiting, hbefore, ?_⟩
  rintro j - - - hj k hjk rfl
  by_cases hne : j = record.identity env.sha256
  · subst hne
    exact hjk.asymm horder.nodup hjk
  · exact (hbefore j hj hne).asymm horder.nodup hjk

/-- A story of another trip. -/
def otherIntake : Intake where
  tripId := 9
  kind := .story
  executionId := "e3"
  request := sampleRequest "e3"
  requestTopic := "local.yeodam.story-create.request"
  resultTopic := "local.yeodam.story-create.result"
  total := 4
  invalid := false
  trip_pos := by decide
  trip_digits := by decide
  execution_length := by decide

/-- Two stories are registered, the second while the clock is behind; the first is claimed
and given back. -/
def turnsSchedule : List Event :=
  [⟨200, .register (sampleIntake "e1" e1_length)⟩, ⟨100, .register otherIntake⟩,
    ⟨101, .claim .story "worker:1" false⟩, ⟨102, .returnUnstarted sampleIdentity "worker:1" 1⟩]

def sampleTurns : Turns := followed (Turns.advance sampleEnv) .initial turnsSchedule

/-- The transaction hands an execution out. -/
def claims : Except JobError (Reply × Store) → Bool
  | .ok (.claim (.claimed _ _), _) => true
  | _ => false

/-- The story that was given back is claimed again before the other one. -/
theorem claim_firstCome_sampleTurns : ∃ record score s',
    perform sampleEnv 103 sampleTurns.store (.claim .story "worker:2" false) =
      .ok (.claim (.claimed record score), s') ∧
    FirstCome sampleTurns .story (record.identity sampleEnv.sha256) := by
  have hreached : TurnsReached sampleEnv sampleTurns :=
    ⟨_, _, rfl, run_followed Turns.initial turnsSchedule (by decide +kernel)⟩
  have hclaims : claims (perform sampleEnv 103 sampleTurns.store (.claim .story "worker:2" false)) =
      true := by decide +kernel
  unfold claims at hclaims
  split at hclaims
  · rename_i record score s' hperf
    exact ⟨record, score, s', hperf, claim_firstCome hreached hperf⟩
  · cases hclaims

end Yeodam.Jobs
