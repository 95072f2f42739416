/-
The shared limit on GPU calls (`app/jobs/gpu_requests.py`).

`RequestGate` keeps a token for every call in a sorted set of the key-value store, scored
by the time it expires. Any number of processes claim, run and release over one key;
`_claim` is not atomic but watches the key, so the model lets everything happen between
its commands and fails its `EXEC` if the key has changed (`Gate.advance`).

Two bounds hold for every schedule (`reached_gateSound`). The unexpired tokens never
exceed the limit. If `_claim` returns less than five seconds after the server read its
time, each call is stopped before its own token expires, so the calls in flight do not
exceed it either.
-/

import Yeodam.Jobs.Config
import Yeodam.Lib.Run
import Yeodam.Lib.SortedSet

namespace Yeodam.Jobs.GpuRequests

open Yeodam.Lib

/-! ### The gate and its calls -/

/-- `CALL_TIMEOUT_GRACE_SEC`. -/
def callTimeoutGraceSec : Time := 5

/-- What `run` adds to the time limit of a call for the lease of its token. -/
def leaseSlackSec : Time := 10

/-- How long `run` waits for its `ZREM`. -/
def releaseSec : Time := 5

/-- The settings of a `RequestGate`, as its constructor checks them. -/
structure RequestGate where
  limit : Nat
  waitSec : Time
  limit_pos : 1 ≤ limit
  wait_pos : 0 < waitSec

/-- How far the server is with one `_claim`: the key is watched, the time read, the tokens
counted, the transaction executed; or `_claim` returns `False`. -/
inductive Stage where
  | watched (version : Nat)
  | timed (version : Nat) (now : Time)
  | counted (version : Nat) (now : Time)
  | executed (now : Time)
  | refused
deriving DecidableEq

/-- One `_claim(token, lease_sec)`. -/
structure Attempt where
  token : String
  leaseSec : Time
  stage : Stage
deriving DecidableEq

/-- How far `run` is: between two attempts or in one until its wait is over, in the
operation, in the release of its token, or done. `asked` tells whether a `ZREM` was sent. -/
inductive Phase where
  | idle
  | waiting (timeoutSec until_ : Time) (attempt : Option Nat)
  | running (timeoutSec : Time) (attempt : Nat) (since : Time)
  | releasing (until_ : Time)
  | left (asked : Bool)
deriving DecidableEq

/-- When `asyncio.timeout` ends what `run` is doing. -/
def Phase.deadline : Phase → Option Time
  | .waiting _ until_ _ => some until_
  | .running timeoutSec _ since => some (since + (timeoutSec + callTimeoutGraceSec))
  | .releasing until_ => some until_
  | _ => none

def Phase.inFlight : Phase → Bool
  | .running .. => true
  | _ => false

structure Gate where
  /-- The server's clock. -/
  clock : Time
  /-- The sorted set at the key. -/
  tokens : SortedSet String Time
  /-- Changes whenever the key does; `WATCH` compares it. -/
  version : Nat
  attempts : Nat → Option Attempt
  /-- The tokens of the calls so far, the last first. -/
  begun : List String
  phase : String → Phase

inductive Action where
  | tick (time : Time)
  /-- `run(operation, timeout_sec)` draws its token. -/
  | begin (token : String) (timeoutSec : Time)
  /-- `WATCH` of a new `_claim`. -/
  | watch (token : String) (attempt : Nat)
  | readTime (attempt : Nat)
  | count (attempt : Nat)
  | exec (attempt : Nat)
  /-- `_claim` returns what the server answered. -/
  | answer (token : String)
  /-- The connection is lost while the key is watched: a `WatchError`, and `_claim`
  returns `False` whatever the server did. -/
  | lose (token : String)
  /-- The wait is over, the store failed or the task was cancelled. -/
  | giveUp (token : String)
  /-- The operation returned, raised, was cancelled or was stopped. -/
  | finish (token : String)
  /-- The server executes a `ZREM`. -/
  | zrem (token : String)
  | leave (token : String)
  /-- The process is lost. -/
  | crash (token : String)

namespace Gate

variable (gate : RequestGate) (x : Gate)

def setPhase (token : String) (p : Phase) : Gate :=
  { x with phase := Function.update x.phase token p }

def setAttempt (n : Nat) (a : Attempt) : Gate :=
  { x with attempts := Function.update x.attempts n (some a) }

/-- `asyncio.timeout` acts at once: time does not pass a deadline. -/
def due (time : Time) : Bool :=
  x.begun.all fun token => (x.phase token).deadline.all fun d => decide (time ≤ d)

def advance : Action → Option Gate
  | .tick time => if x.clock ≤ time ∧ x.due time then some { x with clock := time } else none
  | .begin token timeoutSec =>
      if token ∉ x.begun ∧ 0 < timeoutSec then
        some { x.setPhase token (.waiting timeoutSec (x.clock + gate.waitSec) none) with
          begun := token :: x.begun }
      else none
  | .watch token n =>
      match x.phase token, x.attempts n with
      | .waiting timeoutSec until_ none, none =>
          some ((x.setAttempt n ⟨token, timeoutSec + leaseSlackSec, .watched x.version⟩).setPhase
            token (.waiting timeoutSec until_ (some n)))
      | _, _ => none
  | .readTime n =>
      match x.attempts n with
      | some ⟨token, leaseSec, .watched version⟩ =>
          some (x.setAttempt n ⟨token, leaseSec, .timed version x.clock⟩)
      | _ => none
  | .count n =>
      match x.attempts n with
      | some ⟨token, leaseSec, .timed version now⟩ =>
          if x.tokens.countAbove now ≥ gate.limit then
            some (x.setAttempt n ⟨token, leaseSec, .refused⟩)
          else some (x.setAttempt n ⟨token, leaseSec, .counted version now⟩)
      | _ => none
  | .exec n =>
      match x.attempts n with
      | some ⟨token, leaseSec, .counted version now⟩ =>
          if version = x.version then
            some { x.setAttempt n ⟨token, leaseSec, .executed now⟩ with
              tokens := (x.tokens.removeBelow now).add token (now + leaseSec)
              version := x.version + 1 }
          else some (x.setAttempt n ⟨token, leaseSec, .refused⟩)
      | _ => none
  | .answer token =>
      match x.phase token with
      | .waiting timeoutSec until_ (some n) =>
          match (x.attempts n).map Attempt.stage with
          | some (.executed _) => some (x.setPhase token (.running timeoutSec n x.clock))
          | some .refused => some (x.setPhase token (.waiting timeoutSec until_ none))
          | _ => none
      | _ => none
  | .lose token =>
      match x.phase token with
      | .waiting timeoutSec until_ (some _) =>
          some (x.setPhase token (.waiting timeoutSec until_ none))
      | _ => none
  | .giveUp token =>
      match x.phase token with
      | .waiting .. => some (x.setPhase token (.releasing (x.clock + releaseSec)))
      | _ => none
  | .finish token =>
      match x.phase token with
      | .running .. => some (x.setPhase token (.releasing (x.clock + releaseSec)))
      | _ => none
  | .zrem token =>
      match x.phase token with
      | .releasing _ | .left true =>
          some { x with
            tokens := x.tokens.remove token
            version := if (x.tokens.score? token).isSome then x.version + 1 else x.version }
      | _ => none
  | .leave token =>
      match x.phase token with
      | .releasing _ => some (x.setPhase token (.left true))
      | _ => none
  | .crash token =>
      match x.phase token with
      | .idle => none
      | .releasing _ | .left true => some (x.setPhase token (.left true))
      | _ => some (x.setPhase token (.left false))

end Gate

def GateStep (gate : RequestGate) (x : Gate) (a : Action) (y : Gate) : Prop :=
  x.advance gate a = some y

/-- The gate before the first call. -/
def GateInitial (x : Gate) : Prop :=
  x.tokens = ∅ ∧ (∀ n, x.attempts n = none) ∧ x.begun = [] ∧ ∀ token, x.phase token = .idle

/-- The number of unexpired tokens. -/
def Gate.unexpired (x : Gate) : Nat := x.tokens.countAbove x.clock

/-- The calls whose operation is in flight. -/
def Gate.inFlight (x : Gate) : List String := x.begun.filter fun token => (x.phase token).inFlight

/-! ### What an action does -/

/-- A stage in which the `EXEC` may still come. -/
def Stage.version? : Stage → Option Nat
  | .watched version | .timed version _ | .counted version _ => some version
  | _ => none

/-- Everything an action can do. Only three of them touch the tokens: the clock, an `EXEC`
on an unchanged key, and a `ZREM`. -/
inductive Moved (gate : RequestGate) (x : Gate) : Action → Gate → Prop where
  | tick {time : Time} :
      x.clock ≤ time → x.due time = true → Moved gate x (.tick time) { x with clock := time }
  | begin {token : String} {timeoutSec : Time} :
      token ∉ x.begun → 0 < timeoutSec →
      Moved gate x (.begin token timeoutSec)
        { x.setPhase token (.waiting timeoutSec (x.clock + gate.waitSec) none) with
          begun := token :: x.begun }
  | watch {token : String} {n : Nat} {timeoutSec until_ : Time} :
      x.phase token = .waiting timeoutSec until_ none → x.attempts n = none →
      Moved gate x (.watch token n)
        ((x.setAttempt n ⟨token, timeoutSec + leaseSlackSec, .watched x.version⟩).setPhase token
          (.waiting timeoutSec until_ (some n)))
  | timed {a : Action} {n version : Nat} {token : String} {leaseSec : Time} :
      x.attempts n = some ⟨token, leaseSec, .watched version⟩ →
      Moved gate x a (x.setAttempt n ⟨token, leaseSec, .timed version x.clock⟩)
  | counted {a : Action} {n version : Nat} {token : String} {leaseSec now : Time} :
      x.attempts n = some ⟨token, leaseSec, .timed version now⟩ →
      x.tokens.countAbove now < gate.limit →
      Moved gate x a (x.setAttempt n ⟨token, leaseSec, .counted version now⟩)
  | refused {a : Action} {n : Nat} {token : String} {leaseSec : Time} {stage : Stage} :
      x.attempts n = some ⟨token, leaseSec, stage⟩ → stage.version?.isSome = true →
      Moved gate x a (x.setAttempt n ⟨token, leaseSec, .refused⟩)
  | executed {a : Action} {n : Nat} {token : String} {leaseSec now : Time} :
      x.attempts n = some ⟨token, leaseSec, .counted x.version now⟩ →
      Moved gate x a
        { x.setAttempt n ⟨token, leaseSec, .executed now⟩ with
          tokens := (x.tokens.removeBelow now).add token (now + leaseSec)
          version := x.version + 1 }
  | granted {token : String} {n : Nat} {timeoutSec until_ now : Time} {attempt : Attempt} :
      x.phase token = .waiting timeoutSec until_ (some n) → x.attempts n = some attempt →
      attempt.stage = .executed now →
      Moved gate x (.answer token) (x.setPhase token (.running timeoutSec n x.clock))
  | repeated {a : Action} {token : String} {n : Nat} {timeoutSec until_ : Time} :
      x.phase token = .waiting timeoutSec until_ (some n) →
      Moved gate x a (x.setPhase token (.waiting timeoutSec until_ none))
  | stopped {a : Action} {token : String} {p : Phase} :
      x.phase token ≠ .idle →
      p = .releasing (x.clock + releaseSec) ∨ p = .left true ∨ p = .left false →
      Moved gate x a (x.setPhase token p)
  | removed {a : Action} {token : String} {version : Nat} :
      (x.phase token).inFlight = false → (∀ t u n, x.phase token ≠ .waiting t u n) →
      x.version ≤ version →
      Moved gate x a { x with tokens := x.tokens.remove token, version := version }

variable {gate : RequestGate} {x y : Gate} {a : Action} {as : List Action}

theorem moved_of_step (h : GateStep gate x a y) : Moved gate x a y := by
  unfold GateStep at h
  cases a with
  | tick time =>
      simp only [Gate.advance] at h
      split at h
      · rename_i hdue
        cases h
        exact .tick hdue.1 hdue.2
      · cases h
  | begin token timeoutSec =>
      simp only [Gate.advance] at h
      split at h
      · rename_i hnew
        cases h
        exact .begin hnew.1 hnew.2
      · cases h
  | watch token n =>
      simp only [Gate.advance] at h
      split at h
      · rename_i hphase hfresh
        cases h
        exact .watch hphase hfresh
      · cases h
  | readTime n =>
      simp only [Gate.advance] at h
      split at h
      · rename_i hattempt
        cases h
        exact .timed hattempt
      · cases h
  | count n =>
      simp only [Gate.advance] at h
      split at h
      · rename_i hattempt
        split at h
        · cases h
          exact .refused hattempt rfl
        · rename_i hbelow
          cases h
          exact .counted hattempt (not_le.mp hbelow)
      · cases h
  | exec n =>
      simp only [Gate.advance] at h
      split at h
      · rename_i hattempt
        split at h
        · rename_i hversion
          cases h
          subst hversion
          exact .executed hattempt
        · cases h
          exact .refused hattempt rfl
      · cases h
  | answer token =>
      simp only [Gate.advance] at h
      split at h
      · rename_i hphase
        split at h
        · rename_i hstage
          cases h
          obtain ⟨attempt, hattempt, hstage⟩ := Option.map_eq_some_iff.mp hstage
          exact .granted hphase hattempt hstage
        · cases h
          exact .repeated hphase
        · cases h
      · cases h
  | lose token =>
      simp only [Gate.advance] at h
      split at h
      · rename_i hphase
        cases h
        exact .repeated hphase
      · cases h
  | giveUp token =>
      simp only [Gate.advance] at h
      split at h
      · rename_i hphase
        cases h
        exact .stopped (by simp [hphase]) (.inl rfl)
      · cases h
  | finish token =>
      simp only [Gate.advance] at h
      split at h
      · rename_i hphase
        cases h
        exact .stopped (by simp [hphase]) (.inl rfl)
      · cases h
  | zrem token =>
      have hversion : x.version ≤ if (x.tokens.score? token).isSome then x.version + 1
          else x.version := by
        split <;> omega
      simp only [Gate.advance] at h
      split at h
      · rename_i hphase
        cases h
        exact .removed (by simp [hphase, Phase.inFlight]) (by simp [hphase]) hversion
      · rename_i hphase
        cases h
        exact .removed (by simp [hphase, Phase.inFlight]) (by simp [hphase]) hversion
      · cases h
  | leave token =>
      simp only [Gate.advance] at h
      split at h
      · rename_i hphase
        cases h
        exact .stopped (by simp [hphase]) (.inr (.inl rfl))
      · cases h
  | crash token =>
      simp only [Gate.advance] at h
      split at h
      · cases h
      · rename_i hphase
        cases h
        exact .stopped (by simp [hphase]) (.inr (.inl rfl))
      · rename_i hphase
        cases h
        exact .stopped (by simp [hphase]) (.inr (.inl rfl))
      · rename_i hidle _ _
        cases h
        exact .stopped hidle (.inr (.inr rfl))

@[simp] theorem attempts_setAttempt (n m : Nat) (attempt : Attempt) :
    (x.setAttempt n attempt).attempts m = if m = n then some attempt else x.attempts m := by
  simp [Gate.setAttempt, Function.update_apply]

@[simp] theorem phase_setPhase (token t : String) (p : Phase) :
    (x.setPhase token p).phase t = if t = token then p else x.phase t := by
  simp [Gate.setPhase, Function.update_apply]

/-! ### The tokens -/

/-- The time the server read in a `_claim`. -/
def Stage.now? : Stage → Option Time
  | .timed _ now | .counted _ now | .executed now => some now
  | _ => none

/-- The unexpired tokens are within the limit, and there is room for one more as long as
the key is as a `_claim` counted it. -/
structure Bounded (gate : RequestGate) (x : Gate) : Prop where
  tokens : x.tokens.countAbove x.clock ≤ gate.limit
  counted : ∀ n token leaseSec now, x.attempts n = some ⟨token, leaseSec, .counted x.version now⟩ →
    x.tokens.countAbove now < gate.limit
  version : ∀ n attempt v, x.attempts n = some attempt → attempt.stage.version? = some v →
    v ≤ x.version
  now : ∀ n attempt now, x.attempts n = some attempt → attempt.stage.now? = some now →
    now ≤ x.clock

theorem bounded_initial (h : GateInitial x) : Bounded gate x := by
  obtain ⟨htokens, hattempts, -, -⟩ := h
  refine ⟨?_, ?_, ?_, ?_⟩
  · rw [htokens]
    exact Nat.zero_le _
  all_goals
    intro n
    simp [hattempts]

/-- A `_claim` that moves on without writing. -/
theorem Bounded.setAttempt (hx : Bounded gate x) {n : Nat} {attempt : Attempt}
    (hcounted : ∀ now, attempt.stage = .counted x.version now →
      x.tokens.countAbove now < gate.limit)
    (hversion : ∀ v, attempt.stage.version? = some v → v ≤ x.version)
    (hnow : ∀ now, attempt.stage.now? = some now → now ≤ x.clock) :
    Bounded gate (x.setAttempt n attempt) := by
  refine ⟨hx.tokens, ?_, ?_, ?_⟩
  · intro m token leaseSec now hm
    rw [attempts_setAttempt] at hm
    split at hm
    · exact hcounted now (congrArg Attempt.stage (Option.some.inj hm))
    · exact hx.counted m token leaseSec now hm
  · intro m attempt' v hm
    rw [attempts_setAttempt] at hm
    split at hm
    · obtain rfl := Option.some.inj hm
      exact hversion v
    · exact hx.version m attempt' v hm
  · intro m attempt' now hm
    rw [attempts_setAttempt] at hm
    split at hm
    · obtain rfl := Option.some.inj hm
      exact hnow now
    · exact hx.now m attempt' now hm

theorem Bounded.setPhase (hx : Bounded gate x) (token : String) (p : Phase) :
    Bounded gate (x.setPhase token p) :=
  ⟨hx.tokens, hx.counted, hx.version, hx.now⟩

/-- **Step lemma.** -/
theorem bounded_of_step (hx : Bounded gate x) (h : GateStep gate x a y) : Bounded gate y := by
  cases moved_of_step h with
  | tick hle _ =>
      refine ⟨?_, hx.counted, hx.version, fun n attempt now hn hstage => ?_⟩
      · exact (SortedSet.countAbove_anti hle).trans hx.tokens
      · exact (hx.now n attempt now hn hstage).trans hle
  | begin _ _ =>
      exact ⟨hx.tokens, hx.counted, hx.version, hx.now⟩
  | watch _ _ =>
      refine Bounded.setPhase (hx.setAttempt (fun now hnow => by cases hnow) ?_
        fun now hnow => by cases hnow) _ _
      rintro v ⟨⟩
      exact le_rfl
  | timed hn =>
      refine hx.setAttempt (fun now hnow => by cases hnow) ?_ ?_
      · rintro v ⟨⟩
        exact hx.version _ _ _ hn rfl
      · rintro now ⟨⟩
        exact le_rfl
  | counted hn hlimit =>
      refine hx.setAttempt ?_ ?_ ?_
      · rintro now ⟨⟩
        exact hlimit
      · rintro v ⟨⟩
        exact hx.version _ _ _ hn rfl
      · rintro now ⟨⟩
        exact hx.now _ _ _ hn rfl
  | refused _ _ =>
      exact hx.setAttempt (fun now hnow => by cases hnow) (fun v hv => by cases hv)
        fun now hnow => by cases hnow
  | @executed _ n token leaseSec now hn =>
      have hroom := hx.counted n token leaseSec now hn
      have hnow := hx.now n _ now hn rfl
      refine ⟨?_, ?_, ?_, ?_⟩
      · -- What was counted above `now` bounds what is above the present clock.
        have hadd : ((x.tokens.removeBelow now).add token (now + leaseSec)).countAbove now ≤
            (x.tokens.removeBelow now).countAbove now + 1 := SortedSet.countAbove_add_le
        have hremove : (x.tokens.removeBelow now).countAbove now ≤ x.tokens.countAbove now :=
          SortedSet.countAbove_filter_le _
        have hclock := SortedSet.countAbove_anti
          (s := (x.tokens.removeBelow now).add token (now + leaseSec)) hnow
        change ((x.tokens.removeBelow now).add token (now + leaseSec)).countAbove x.clock ≤ _
        omega
      · intro m token' leaseSec' now' hm
        change (x.setAttempt n ⟨token, leaseSec, .executed now⟩).attempts m = _ at hm
        rw [attempts_setAttempt] at hm
        split at hm
        · cases hm
        · have hle := hx.version m _ (x.version + 1) hm rfl
          omega
      · intro m attempt v hm hv
        change (x.setAttempt n ⟨token, leaseSec, .executed now⟩).attempts m = _ at hm
        rw [attempts_setAttempt] at hm
        split at hm
        · cases hm
          cases hv
        · exact (hx.version m attempt v hm hv).trans (Nat.le_succ _)
      · intro m attempt now' hm hstage
        change (x.setAttempt n ⟨token, leaseSec, .executed now⟩).attempts m = _ at hm
        rw [attempts_setAttempt] at hm
        split at hm
        · cases hm
          cases hstage
          exact hnow
        · exact hx.now m attempt now' hm hstage
  | granted _ _ _ => exact hx.setPhase _ _
  | repeated _ => exact hx.setPhase _ _
  | stopped _ _ => exact hx.setPhase _ _
  | @removed _ token version _ _ hversion =>
      refine ⟨?_, ?_, ?_, hx.now⟩
      · exact (SortedSet.countAbove_filter_le _).trans hx.tokens
      · intro n token' leaseSec now hn
        have hle := hx.version n _ version hn rfl
        obtain rfl : x.version = version := le_antisymm hversion hle
        exact (SortedSet.countAbove_filter_le _).trans_lt (hx.counted n token' leaseSec now hn)
      · intro n attempt v hn hv
        exact (hx.version n attempt v hn hv).trans hversion

theorem reached_bounded (h : Reachable GateInitial (GateStep gate) x) : Bounded gate x :=
  h.invariant (fun _ hinit => bounded_initial hinit) fun _ _ _ hx hst => bounded_of_step hx hst

/-! ### The calls -/

/-- The time limit of a call in a `_claim` or with a token, and the `_claim`. -/
def Phase.claim? : Phase → Option (Time × Nat)
  | .waiting timeoutSec _ (some n) => some (timeoutSec, n)
  | .running timeoutSec n _ => some (timeoutSec, n)
  | _ => none

/-- The token of a call whose `_claim` was executed stays until it expires: an earlier
`_claim` of the call that is still under way has lost the key it watched. -/
structure Owned (x : Gate) : Prop where
  owner : ∀ token timeoutSec n, (x.phase token).claim? = some (timeoutSec, n) →
    ∃ stage, x.attempts n = some ⟨token, timeoutSec + leaseSlackSec, stage⟩
  alone : ∀ token timeoutSec n now, (x.phase token).claim? = some (timeoutSec, n) →
    x.attempts n = some ⟨token, timeoutSec + leaseSlackSec, .executed now⟩ →
    ∀ m leaseSec stage v, m ≠ n → x.attempts m = some ⟨token, leaseSec, stage⟩ →
      stage.version? = some v → v < x.version
  held : ∀ token timeoutSec n now, (x.phase token).claim? = some (timeoutSec, n) →
    x.attempts n = some ⟨token, timeoutSec + leaseSlackSec, .executed now⟩ →
    x.clock < now + (timeoutSec + leaseSlackSec) →
      x.tokens.score? token = some (now + (timeoutSec + leaseSlackSec))

theorem owned_initial (h : GateInitial x) : Owned x := by
  obtain ⟨-, -, -, hphase⟩ := h
  constructor
  all_goals
    intro token
    simp [hphase, Phase.claim?]

/-- A `_claim` that moves on without writing. -/
theorem Owned.setAttempt (hx : Owned x) {n : Nat} {token : String} {leaseSec : Time}
    {stage stage' : Stage} (hn : x.attempts n = some ⟨token, leaseSec, stage⟩)
    (hopen : stage'.version? = none ∨ stage'.version? = stage.version?)
    (hstage : ∀ now, stage' ≠ .executed now) :
    Owned (x.setAttempt n ⟨token, leaseSec, stage'⟩) := by
  refine ⟨?_, ?_, ?_⟩
  · intro t timeoutSec m hm
    obtain ⟨stage'', hstage''⟩ := hx.owner t timeoutSec m hm
    rw [attempts_setAttempt]
    split
    · rename_i hmn
      rw [hmn, hn] at hstage''
      cases hstage''
      exact ⟨_, rfl⟩
    · exact ⟨stage'', hstage''⟩
  · intro t timeoutSec m now hm hexec k leaseSec' stage'' v hk hattempt hv
    rw [attempts_setAttempt] at hexec hattempt
    split at hexec
    · cases hexec
      exact absurd rfl (hstage now)
    · split at hattempt
      · rename_i hkn
        cases hattempt
        rcases hopen with hnone | hsame
        · rw [hnone] at hv
          cases hv
        · rw [hsame] at hv
          exact hx.alone _ timeoutSec m now hm hexec k leaseSec stage v hk (hkn ▸ hn) hv
      · exact hx.alone t timeoutSec m now hm hexec k leaseSec' stage'' v hk hattempt hv
  · intro t timeoutSec m now hm hexec
    rw [attempts_setAttempt] at hexec
    split at hexec
    · cases hexec
      exact absurd rfl (hstage now)
    · exact hx.held t timeoutSec m now hm hexec

/-- Calls that are in the same `_claim`, or in none. -/
theorem Owned.phases (hx : Owned x) {phase : String → Phase} {begun : List String}
    (hclaim : ∀ t T n, (phase t).claim? = some (T, n) → (x.phase t).claim? = some (T, n)) :
    Owned { x with phase := phase, begun := begun } :=
  ⟨fun t T n h => hx.owner t T n (hclaim t T n h),
    fun t T n now h => hx.alone t T n now (hclaim t T n h),
    fun t T n now h => hx.held t T n now (hclaim t T n h)⟩

/-- A call that leaves its `_claim`, or stays in it. -/
theorem Owned.setPhase (hx : Owned x) (token : String) (p : Phase) (begun : List String)
    (hp : p.claim? = none ∨ p.claim? = (x.phase token).claim?) :
    Owned { x.setPhase token p with begun := begun } := by
  apply hx.phases
  intro t T n h
  rw [phase_setPhase] at h
  split at h
  · rename_i ht
    rcases hp with hnone | hsame
    · rw [hnone] at h
      cases h
    · rw [ht, ← hsame]
      exact h
  · exact h

/-- A call that enters a `_claim`. -/
theorem Owned.watch (hx : Owned x) {token : String} {n : Nat} {timeoutSec until_ : Time}
    (hphase : x.phase token = .waiting timeoutSec until_ none) (hfresh : x.attempts n = none) :
    Owned ((x.setAttempt n ⟨token, timeoutSec + leaseSlackSec, .watched x.version⟩).setPhase token
      (.waiting timeoutSec until_ (some n))) := by
  have hold : ∀ t T m, t ≠ token → ((x.setAttempt n ⟨token, timeoutSec + leaseSlackSec,
      .watched x.version⟩).phase t).claim? = some (T, m) →
        m ≠ n ∧ (x.phase t).claim? = some (T, m) := by
    intro t T m _ hclaim
    refine ⟨?_, hclaim⟩
    rintro rfl
    obtain ⟨stage, hstage⟩ := hx.owner t T m hclaim
    rw [hfresh] at hstage
    cases hstage
  have hself : ∀ T m, (Phase.waiting timeoutSec until_ (some n)).claim? = some (T, m) →
      T = timeoutSec ∧ m = n := by
    rintro T m ⟨⟩
    exact ⟨rfl, rfl⟩
  refine ⟨?_, ?_, ?_⟩
  · intro t T m hclaim
    rw [phase_setPhase] at hclaim
    change ∃ stage, (x.setAttempt n _).attempts m = _
    rw [attempts_setAttempt]
    split at hclaim
    · rename_i ht
      obtain ⟨rfl, rfl⟩ := hself T m hclaim
      rw [if_pos rfl, ht]
      exact ⟨_, rfl⟩
    · rename_i ht
      obtain ⟨hm, hclaim⟩ := hold t T m ht hclaim
      rw [if_neg hm]
      exact hx.owner t T m hclaim
  · intro t T m now hclaim hexec k leaseSec stage v hk hattempt hv
    rw [phase_setPhase] at hclaim
    change (x.setAttempt n _).attempts m = _ at hexec
    change (x.setAttempt n _).attempts k = _ at hattempt
    rw [attempts_setAttempt] at hexec hattempt
    split at hclaim
    · obtain ⟨rfl, rfl⟩ := hself T m hclaim
      rw [if_pos rfl] at hexec
      cases hexec
    · rename_i ht
      obtain ⟨hm, hclaim⟩ := hold t T m ht hclaim
      rw [if_neg hm] at hexec
      split at hattempt
      · cases hattempt
        exact absurd rfl ht
      · exact hx.alone t T m now hclaim hexec k leaseSec stage v hk hattempt hv
  · intro t T m now hclaim hexec hlive
    rw [phase_setPhase] at hclaim
    change (x.setAttempt n _).attempts m = _ at hexec
    rw [attempts_setAttempt] at hexec
    split at hclaim
    · obtain ⟨rfl, rfl⟩ := hself T m hclaim
      rw [if_pos rfl] at hexec
      cases hexec
    · rename_i ht
      obtain ⟨hm, hclaim⟩ := hold t T m ht hclaim
      rw [if_neg hm] at hexec
      exact hx.held t T m now hclaim hexec hlive

/-- The `EXEC` of a `_claim`: every other `_claim` that watches the key has lost it. -/
theorem Owned.exec (hx : Owned x) (hbounded : Bounded gate x) {n : Nat} {token : String}
    {leaseSec now : Time} (hn : x.attempts n = some ⟨token, leaseSec, .counted x.version now⟩) :
    Owned { x.setAttempt n ⟨token, leaseSec, .executed now⟩ with
      tokens := (x.tokens.removeBelow now).add token (now + leaseSec)
      version := x.version + 1 } := by
  have hnow := hbounded.now n _ now hn rfl
  refine ⟨?_, ?_, ?_⟩
  · intro t timeoutSec m hm
    obtain ⟨stage, hstage⟩ := hx.owner t timeoutSec m hm
    change ∃ stage, (x.setAttempt n _).attempts m = _
    rw [attempts_setAttempt]
    split
    · rename_i hmn
      rw [hmn, hn] at hstage
      cases hstage
      exact ⟨_, rfl⟩
    · exact ⟨stage, hstage⟩
  · intro t timeoutSec m now' hm hexec k leaseSec' stage v hk hattempt hv
    change (x.setAttempt n _).attempts k = _ at hattempt
    rw [attempts_setAttempt] at hattempt
    split at hattempt
    · cases hattempt
      cases hv
    · exact Nat.lt_succ_of_le (hbounded.version k _ v hattempt hv)
  · intro t timeoutSec m now' hm hexec hlive
    change (x.setAttempt n _).attempts m = _ at hexec
    change x.clock < _ at hlive
    change ((x.tokens.removeBelow now).add token (now + leaseSec)).score? t = _
    rw [attempts_setAttempt] at hexec
    split at hexec
    · cases hexec
      rw [SortedSet.score?_add_self]
    · rename_i hmn
      have hne : t ≠ token := by
        rintro rfl
        have hlost := hx.alone t timeoutSec m now' hm hexec n leaseSec _ x.version
          (fun h => hmn h.symm) hn rfl
        exact lt_irrefl _ hlost
      rw [SortedSet.score?_add_ne hne, SortedSet.score?_removeBelow,
        hx.held t timeoutSec m now' hm hexec hlive]
      exact Option.filter_some_pos (decide_eq_true (not_le.mpr (hnow.trans_lt hlive)))

/-- **Step lemma.** -/
theorem owned_of_step (hbounded : Bounded gate x) (hx : Owned x) (h : GateStep gate x a y) :
    Owned y := by
  cases moved_of_step h with
  | tick hle _ =>
      exact ⟨hx.owner, hx.alone, fun t timeoutSec n now hn hexec hlive =>
        hx.held t timeoutSec n now hn hexec (hle.trans_lt hlive)⟩
  | begin _ _ => exact hx.setPhase _ _ _ (.inl rfl)
  | watch hphase hfresh => exact hx.watch hphase hfresh
  | timed hn => exact hx.setAttempt hn (.inr rfl) (by simp)
  | counted hn _ => exact hx.setAttempt hn (.inr rfl) (by simp)
  | refused hn _ => exact hx.setAttempt hn (.inl rfl) (by simp)
  | executed hn => exact hx.exec hbounded hn
  | granted hphase _ _ => exact hx.setPhase _ _ x.begun (.inr (by rw [hphase]; rfl))
  | repeated _ => exact hx.setPhase _ _ x.begun (.inl rfl)
  | stopped _ hp =>
      rcases hp with rfl | rfl | rfl
      all_goals exact hx.setPhase _ _ x.begun (.inl rfl)
  | @removed _ token version hflight hwait hversion =>
      refine ⟨hx.owner, ?_, ?_⟩
      · intro t timeoutSec n now hn hexec m leaseSec stage v hm hattempt hv
        exact (hx.alone t timeoutSec n now hn hexec m leaseSec stage v hm hattempt hv).trans_le
          hversion
      · intro t timeoutSec n now hn hexec hlive
        have hne : t ≠ token := by
          rintro rfl
          cases hphase : x.phase t with
          | waiting T u o => exact hwait T u o hphase
          | running => simp [hphase, Phase.inFlight] at hflight
          | idle | releasing | left =>
              rw [hphase] at hn
              cases hn
        change (x.tokens.remove token).score? t = _
        rw [SortedSet.score?_remove_ne hne]
        exact hx.held t timeoutSec n now hn hexec hlive

/-! ### Time limits -/

/-- The time limit of a call that has not reached its release. -/
def Phase.timeout? : Phase → Option Time
  | .waiting timeoutSec _ _ => some timeoutSec
  | .running timeoutSec _ _ => some timeoutSec
  | _ => none

/-- Every call is listed once, and no deadline has passed. -/
structure Clocked (x : Gate) : Prop where
  known : ∀ token, x.phase token ≠ .idle → token ∈ x.begun
  nodup : x.begun.Nodup
  timeout : ∀ token timeoutSec, (x.phase token).timeout? = some timeoutSec → 0 < timeoutSec
  due : ∀ token d, (x.phase token).deadline = some d → x.clock ≤ d

theorem clocked_initial (h : GateInitial x) : Clocked x := by
  obtain ⟨-, -, hbegun, hphase⟩ := h
  refine ⟨fun token hidle => absurd (hphase token) hidle, by simp [hbegun], ?_, ?_⟩
  · intro token timeoutSec htimeout
    rw [hphase] at htimeout
    cases htimeout
  · intro token d hd
    rw [hphase] at hd
    cases hd

theorem Clocked.setPhase (hx : Clocked x) {token : String} {p : Phase} (hmem : token ∈ x.begun)
    (htimeout : ∀ timeoutSec, p.timeout? = some timeoutSec → 0 < timeoutSec)
    (hdue : ∀ d, p.deadline = some d → x.clock ≤ d) : Clocked (x.setPhase token p) := by
  refine ⟨?_, hx.nodup, ?_, ?_⟩
  · intro t hidle
    by_cases ht : t = token
    · rw [ht]
      exact hmem
    · rw [phase_setPhase, if_neg ht] at hidle
      exact hx.known t hidle
  · intro t timeoutSec h
    rw [phase_setPhase] at h
    split at h
    · exact htimeout timeoutSec h
    · exact hx.timeout t timeoutSec h
  · intro t d h
    rw [phase_setPhase] at h
    split at h
    · exact hdue d h
    · exact hx.due t d h

/-- **Step lemma.** -/
theorem clocked_of_step (hx : Clocked x) (h : GateStep gate x a y) : Clocked y := by
  cases moved_of_step h with
  | tick _ hdue =>
      refine ⟨hx.known, hx.nodup, hx.timeout, fun token d hd => ?_⟩
      have hmem : token ∈ x.begun := hx.known token fun hidle => by
        change (x.phase token).deadline = _ at hd
        rw [hidle] at hd
        cases hd
      have hall := List.all_eq_true.mp hdue token hmem
      change (x.phase token).deadline = _ at hd
      rw [hd] at hall
      simpa using hall
  | @begin token timeoutSec hnew hpos =>
      have hwait : x.clock ≤ x.clock + gate.waitSec := by linarith [gate.wait_pos]
      have hlisted : Clocked { x with begun := token :: x.begun } :=
        ⟨fun t ht => List.mem_cons_of_mem _ (hx.known t ht), List.nodup_cons.mpr ⟨hnew, hx.nodup⟩,
          hx.timeout, hx.due⟩
      refine hlisted.setPhase List.mem_cons_self ?_ ?_
      · rintro T ⟨⟩
        exact hpos
      · rintro d ⟨⟩
        exact hwait
  | @watch token n timeoutSec until_ hphase _ =>
      have hmem : token ∈ x.begun := hx.known token (by simp [hphase])
      have hsame : Clocked (x.setAttempt n ⟨token, timeoutSec + leaseSlackSec,
          .watched x.version⟩) := ⟨hx.known, hx.nodup, hx.timeout, hx.due⟩
      refine hsame.setPhase hmem ?_ ?_
      · rintro T ⟨⟩
        exact hx.timeout token timeoutSec (by rw [hphase]; rfl)
      · rintro d ⟨⟩
        exact hx.due token until_ (by rw [hphase]; rfl)
  | timed | counted | refused | executed | removed =>
      exact ⟨hx.known, hx.nodup, hx.timeout, hx.due⟩
  | @granted token n timeoutSec until_ now attempt hphase _ _ =>
      have hpos : 0 < timeoutSec := hx.timeout token timeoutSec (by rw [hphase]; rfl)
      refine hx.setPhase (hx.known token (by simp [hphase])) ?_ ?_
      · rintro T ⟨⟩
        exact hpos
      · rintro d ⟨⟩
        simp only [callTimeoutGraceSec]
        linarith
  | @repeated _ token n timeoutSec until_ hphase =>
      refine hx.setPhase (hx.known token (by simp [hphase])) ?_ ?_
      · rintro T ⟨⟩
        exact hx.timeout token timeoutSec (by rw [hphase]; rfl)
      · rintro d ⟨⟩
        exact hx.due token until_ (by rw [hphase]; rfl)
  | @stopped _ token p hidle hp =>
      refine hx.setPhase (hx.known token hidle) ?_ ?_
      · rcases hp with rfl | rfl | rfl
        all_goals
          rintro T ⟨⟩
      · rcases hp with rfl | rfl | rfl
        · rintro d ⟨⟩
          simp only [releaseSec]
          linarith
        all_goals
          rintro d ⟨⟩

/-! ### The calls in flight -/

/-- The `_claim` returns less than five seconds after the server read its time. -/
def Prompt (x : Gate) (a : Action) : Prop :=
  ∀ token timeoutSec until_ n attempt now, a = .answer token →
    x.phase token = .waiting timeoutSec until_ (some n) → x.attempts n = some attempt →
    attempt.stage = .executed now → x.clock < now + (leaseSlackSec - callTimeoutGraceSec)

/-- A call in flight began soon after the server read its time. -/
def Started (x : Gate) : Prop :=
  ∀ token timeoutSec n since, x.phase token = .running timeoutSec n since →
    ∃ now, x.attempts n = some ⟨token, timeoutSec + leaseSlackSec, .executed now⟩ ∧
      since < now + (leaseSlackSec - callTimeoutGraceSec)

theorem Started.setPhase (hx : Started x) (token : String) {p : Phase} (begun : List String)
    (hp : p.inFlight = false) : Started { x.setPhase token p with begun := begun } := by
  intro t timeoutSec n since h
  change (x.setPhase token p).phase t = _ at h
  rw [phase_setPhase] at h
  split at h
  · rw [h] at hp
    cases hp
  · exact hx t timeoutSec n since h

/-- A `_claim` that was executed is over. -/
theorem Started.setAttempt (hx : Started x) {n : Nat} {attempt : Attempt}
    (hopen : ∀ token leaseSec now, x.attempts n ≠ some ⟨token, leaseSec, .executed now⟩) :
    Started (x.setAttempt n attempt) := by
  intro t timeoutSec m since h
  obtain ⟨now, hm, hsince⟩ := hx t timeoutSec m since h
  refine ⟨now, ?_, hsince⟩
  rw [attempts_setAttempt, if_neg]
  · exact hm
  · rintro rfl
    exact hopen _ _ _ hm

/-- **Step lemma.** -/
theorem started_of_step (howned : Owned x) (hx : Started x) (hprompt : Prompt x a)
    (h : GateStep gate x a y) : Started y := by
  cases moved_of_step h with
  | tick | removed => exact hx
  | begin _ _ => exact hx.setPhase _ _ rfl
  | watch _ hfresh =>
      exact Started.setPhase (hx.setAttempt fun token leaseSec now => by rw [hfresh]; simp) _
        x.begun rfl
  | timed hn => exact hx.setAttempt fun token leaseSec now => by rw [hn]; simp
  | counted hn _ => exact hx.setAttempt fun token leaseSec now => by rw [hn]; simp
  | refused hn hstage =>
      apply hx.setAttempt
      intro token leaseSec now hexec
      rw [hn] at hexec
      cases hexec
      cases hstage
  | executed hn => exact hx.setAttempt fun token leaseSec now => by rw [hn]; simp
  | @granted token n timeoutSec until_ now attempt hphase hn hstage =>
      intro t T m since hrunning
      rw [phase_setPhase] at hrunning
      split at hrunning
      · rename_i ht
        cases hrunning
        obtain ⟨stage, hattempt⟩ := howned.owner token timeoutSec n (by rw [hphase]; rfl)
        obtain rfl : attempt = _ := Option.some.inj (hn.symm.trans hattempt)
        obtain rfl : stage = _ := hstage
        rw [ht]
        exact ⟨now, hattempt, hprompt token timeoutSec until_ n _ now rfl hphase hn rfl⟩
      · exact hx t T m since hrunning
  | repeated _ => exact hx.setPhase _ x.begun rfl
  | stopped _ hp =>
      rcases hp with rfl | rfl | rfl
      all_goals exact hx.setPhase _ x.begun rfl

/-- The token of a call in flight outlives it. -/
theorem outlives (howned : Owned x) (hclocked : Clocked x) (hstarted : Started x) {token : String}
    (h : (x.phase token).inFlight = true) :
    ∃ d expiry, (x.phase token).deadline = some d ∧ x.tokens.score? token = some expiry ∧
      x.clock ≤ d ∧ d < expiry := by
  cases hphase : x.phase token with
  | running timeoutSec n since =>
      obtain ⟨now, hn, hsince⟩ := hstarted token timeoutSec n since hphase
      have hdue := hclocked.due token _ (by rw [hphase]; rfl)
      have hlate : since + (timeoutSec + callTimeoutGraceSec) <
          now + (timeoutSec + leaseSlackSec) := by
        linarith
      exact ⟨_, _, rfl, howned.held token timeoutSec n now (by rw [hphase]; rfl) hn
        (hdue.trans_lt hlate), hdue, hlate⟩
  | idle | waiting | releasing | left =>
      rw [hphase] at h
      cases h

/-- **The gate holds its limit.** In every reachable state the unexpired tokens are within
it; and the calls in flight are, each stopped before its token expires, in every state
reached while every `_claim` returns promptly. -/
theorem reached_gateSound (gate : RequestGate) :
    (∀ x, Reachable GateInitial (GateStep gate) x → x.unexpired ≤ gate.limit) ∧
    ∀ x, Reachable GateInitial (Guarded Prompt (GateStep gate)) x →
      x.inFlight.length ≤ gate.limit ∧
      ∀ token, (x.phase token).inFlight = true →
        token ∈ x.inFlight ∧
        ∃ d expiry, (x.phase token).deadline = some d ∧ x.tokens.score? token = some expiry ∧
          x.clock ≤ d ∧ d < expiry := by
  refine ⟨fun x h => (reached_bounded h).tokens, fun x h => ?_⟩
  have hinv : Bounded gate x ∧ Owned x ∧ Clocked x ∧ Started x := by
    refine h.invariant (P := fun x => Bounded gate x ∧ Owned x ∧ Clocked x ∧ Started x) ?_ ?_
    · intro x hinit
      refine ⟨bounded_initial hinit, owned_initial hinit, clocked_initial hinit, ?_⟩
      intro token timeoutSec n since hrunning
      rw [hinit.2.2.2] at hrunning
      cases hrunning
    · rintro x a y ⟨hbounded, howned, hclocked, hstarted⟩ ⟨hprompt, hst⟩
      exact ⟨bounded_of_step hbounded hst, owned_of_step hbounded howned hst,
        clocked_of_step hclocked hst, started_of_step howned hstarted hprompt hst⟩
  obtain ⟨hbounded, howned, hclocked, hstarted⟩ := hinv
  have houtlives : ∀ token, (x.phase token).inFlight = true → _ := fun token hflight =>
    outlives howned hclocked hstarted hflight
  refine ⟨?_, fun token hflight => ⟨?_, houtlives token hflight⟩⟩
  · refine (SortedSet.length_le_countAbove (hclocked.nodup.filter _) fun token hmem => ?_).trans
      hbounded.tokens
    obtain ⟨d, expiry, -, hscore, hle, hlt⟩ := houtlives token (List.mem_filter.mp hmem).2
    exact ⟨expiry, hscore, hle.trans_lt hlt⟩
  · refine List.mem_filter.mpr ⟨hclocked.known token fun hidle => ?_, hflight⟩
    rw [hidle] at hflight
    cases hflight

/-- `Prompt`, decided. -/
def prompt (x : Gate) : Action → Bool
  | .answer token =>
      match x.phase token with
      | .waiting _ _ (some n) => (x.attempts n).all fun attempt => match attempt.stage with
          | .executed now => decide (x.clock < now + (leaseSlackSec - callTimeoutGraceSec))
          | _ => true
      | _ => true
  | _ => true

theorem prompt_sound (h : prompt x a = true) : Prompt x a := by
  rintro token timeoutSec until_ n attempt now rfl hphase hn hstage
  simpa [prompt, hphase, hn, hstage] using h

/-- A gate for one call at a time. -/
def sampleGate : RequestGate := ⟨1, 2, by decide, by decide⟩

def emptyGate : Gate where
  clock := 0
  tokens := ∅
  version := 0
  attempts := fun _ => none
  begun := []
  phase := fun _ => .idle

/-- One call takes the only token and runs; another counts it and is refused. -/
def busySchedule : List Action :=
  [.begin "a" 180, .watch "a" 0, .readTime 0, .count 0, .exec 0, .tick 1, .answer "a",
   .begin "b" 180, .watch "b" 1, .readTime 1, .count 1, .answer "b"]

/-- The call in flight is stopped at 186, and its token expires at 190. -/
theorem gateSound_sampleGate :
    let x := followed (Gate.advance sampleGate) emptyGate busySchedule
    (x.unexpired ≤ 1 ∧ x.inFlight.length ≤ 1 ∧
      ∃ d expiry, (x.phase "a").deadline = some d ∧
      x.tokens.score? "a" = some expiry ∧ d < expiry) ∧
    x.unexpired = 1 ∧ x.inFlight = ["a"] ∧ x.phase "b" = .waiting 180 3 none := by
  have hinit : GateInitial emptyGate := ⟨rfl, fun _ => rfl, rfl, fun _ => rfl⟩
  have hpasses : passes (Gate.advance sampleGate) prompt emptyGate busySchedule = true := by
    decide +kernel
  have hprompt : Reachable GateInitial (Guarded Prompt (GateStep sampleGate))
      (followed (Gate.advance sampleGate) emptyGate busySchedule) :=
    reachable_passes (fun _ _ _ h => prompt_sound h) hinit hpasses
  obtain ⟨hunexpired, hflight⟩ := reached_gateSound sampleGate
  obtain ⟨hlength, hcalls⟩ := hflight _ hprompt
  obtain ⟨-, d, expiry, hd, hexpiry, -, hlt⟩ := hcalls "a" (by decide +kernel)
  exact ⟨⟨hunexpired _ hprompt.of_guarded, hlength, d, expiry, hd, hexpiry, hlt⟩, by decide +kernel,
    by decide +kernel, by decide +kernel⟩

end Yeodam.Jobs.GpuRequests
