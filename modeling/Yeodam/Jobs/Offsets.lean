/-
No request is skipped (`consume_requests` in `app/jobs/kafka.py`).

A message is concluded once its execution is closed to registration, its batch was answered for,
or it is in a dead-letter topic, and what is concluded stays so. `Clears` is what an offset
must not leave behind; `Safe` says it of the committed offsets and of every position, up to
the message a consumer holds. The step lemma follows the steps of the loop, each said as a few
writes: the lemmas about the single writes are the argument.
-/

import Yeodam.Jobs.Consumer

namespace Yeodam.Jobs

open Yeodam.Lib

section

variable {env : Env} {json : JsonLibrary} {c c' : Consumption} {a : Consuming} {r : String}
  {m x : Incoming} {reason : RejectReason} {fault : RedisFault} {now : Time} {p : Partition}
  {n : Nat} {held : Option Incoming} {l : Loop}

/-! ### Concluded messages -/

variable (env json c m)

inductive Concluded : Prop where
  | registered {q : Intake} : m.asks env json = some (.register q) →
      c.exchange.world.store.closed (q.identity env) = true → Concluded
  | staged {message : PhotosReadyMessage} {topic : String} {reply : StageReply} :
      m.asks env json = some (.stagePhotos message topic) → (m, .stage reply) ∈ c.answers →
      Concluded
  | deadLettered {reason : RejectReason} : ⟨m, reason⟩ ∈ c.deadLetters → Concluded

variable {env json c m}

/-- What concluded messages rest on only grows. -/
structure Consumption.Grows (c c' : Consumption) : Prop where
  closed : ∀ i, c.exchange.world.store.closed i = true → c'.exchange.world.store.closed i = true
  answers : ∀ answer ∈ c.answers, answer ∈ c'.answers
  deadLetters : ∀ letter ∈ c.deadLetters, letter ∈ c'.deadLetters

theorem Consumption.Grows.same (hexchange : c'.exchange = c.exchange)
    (hanswers : c'.answers = c.answers) (hletters : c'.deadLetters = c.deadLetters) :
    c.Grows c' := by
  refine ⟨fun _ h => ?_, fun _ h => ?_, fun _ h => ?_⟩
  · rwa [hexchange]
  · rwa [hanswers]
  · rwa [hletters]

theorem Concluded.grow (h : Concluded env json c m) (hgrow : c.Grows c') :
    Concluded env json c' m := by
  cases h with
  | registered hasks hclosed => exact .registered hasks (hgrow.closed _ hclosed)
  | staged hasks hanswer => exact .staged hasks (hgrow.answers _ hanswer)
  | deadLettered hletter => exact .deadLettered (hgrow.deadLetters _ hletter)

/-- An execution stays closed, whatever the exchange does. -/
theorem closed_of_exchange {x y : Exchange} {a : Action} {i : String}
    (h : ExchangeStep env x a y) (hclosed : x.world.store.closed i = true) :
    y.world.store.closed i = true := by
  rcases world_of_step h with ⟨-, hsame, -⟩ | ⟨e, -, ⟨-, hnext⟩, -⟩
  · rw [hsame]
    exact hclosed
  · rw [hnext]
    exact closed_of_transaction (transaction_after ..) hclosed

/-- A registration that is answered closes its execution. -/
theorem closed_of_perform_register {s s' : Store} {q : Intake} {reply : Reply}
    (h : perform env now s (.register q) = .ok (reply, s')) :
    s'.closed (q.identity env) = true := by
  rcases perform_register_cases h with ⟨-, hclosed, rfl⟩ | ⟨-, -, _, rfl⟩ | ⟨-, -, _, _, rfl⟩
  · exact hclosed
  · simp [Store.closed, Store.ignore, Store.setIgnored]
  · simp [Store.closed]

/-! ### One call of `accept` -/

/-- What the receiver makes of a message before it rejects it. -/
theorem examine_cases (env : Env) (json : JsonLibrary) (m : Incoming) (fault : RedisFault)
    (now : Time) (s : Store) :
    (∃ reason, examine env json m fault now s = .invalid reason ∧
      ∀ q, m.asks env json ≠ some (.register q)) ∨
    (∃ e s', examine env json m fault now s = .settled (.raised e) s') ∨
    ∃ op reply s', m.asks env json = some op ∧ fault = .none ∧
      perform env now s op = .ok (reply, s') ∧
      examine env json m fault now s = .settled (.stored reply) s' := by
  unfold examine Incoming.asks
  cases htopic : env.cfg.topics.lookup m.topic with
  | none => exact .inr (.inl ⟨_, _, rfl⟩)
  | some route =>
      obtain ⟨kind, resultTopic⟩ := route
      dsimp only
      cases hparse : parse env json kind resultTopic m with
      | error reason => exact .inl ⟨reason, rfl, by simp⟩
      | ok request =>
          cases request with
          | photos message =>
              dsimp only
              cases hperf : perform env now s (.stagePhotos message m.topic) with
              | error e =>
                  cases fault with
                  | lost => exact .inr (.inl ⟨_, _, rfl⟩)
                  | none | unanswered =>
                      simp only [transact]
                      split
                      · exact .inl ⟨_, rfl, by simp⟩
                      · exact .inr (.inl ⟨_, _, rfl⟩)
              | ok done =>
                  obtain ⟨reply, s'⟩ := done
                  cases fault with
                  | lost => exact .inr (.inl ⟨_, _, rfl⟩)
                  | unanswered => exact .inr (.inl ⟨_, _, rfl⟩)
                  | none => exact .inr (.inr ⟨_, reply, s', rfl, rfl, hperf, rfl⟩)
          | job q =>
              dsimp only
              cases hperf : perform env now s (.register q) with
              | error e => cases fault <;> exact .inr (.inl ⟨_, _, rfl⟩)
              | ok done =>
                  obtain ⟨reply, s'⟩ := done
                  cases fault with
                  | lost => exact .inr (.inl ⟨_, _, rfl⟩)
                  | unanswered => exact .inr (.inl ⟨_, _, rfl⟩)
                  | none => exact .inr (.inr ⟨_, reply, s', rfl, rfl, hperf, rfl⟩)

/-- The consumption after the transaction of a call of `accept`. -/
def Consumption.stored (env : Env) (json : JsonLibrary) (c : Consumption) (m : Incoming)
    (fault : RedisFault) (now : Time) : Consumption :=
  { c with
    exchange := c.fired env json m fault now
    registered :=
      (registers env json m fault now c.exchange.world.store).toList ++ c.registered }

theorem Consumption.stored_grows (hle : c.exchange.world.clock ≤ now) :
    c.Grows (c.stored env json m fault now) := by
  refine ⟨fun i hclosed => ?_, fun _ h => h, fun _ h => h⟩
  show (c.fired env json m fault now).world.store.closed i = true
  rcases c.fired_cases env json m fault now hle with
    ⟨-, hsame⟩ | ⟨op, -, -, -, hstep⟩
  · rw [hsame]
    exact hclosed
  · exact closed_of_exchange hstep hclosed

variable (env json c r m fault now)

/-- What a call of `accept` does to its consumer. -/
inductive Accepted : Consumption → Prop where
  | refused (reason : RejectReason) : (∀ q, m.asks env json ≠ some (.register q)) →
      Accepted ((c.stored env json m fault now).setLoop r (.rejecting m reason))
  | answered (reply : Reply) : Concluded env json
        { c.stored env json m fault now with answers := (m, reply) :: c.answers } m →
      Accepted (Consumption.setLoop
        { c.stored env json m fault now with answers := (m, reply) :: c.answers } r
        (.committing m))
  | stopped : Accepted ((c.stored env json m fault now).stopped r)
  | again : Accepted (c.stored env json m fault now)

theorem accepted_cases : Accepted env json c r m fault now (c.accepted env json r m fault now) := by
  unfold Consumption.accepted
  dsimp only
  rcases examine_cases env json m fault now c.exchange.world.store with
    ⟨reason, hexamine, hasks⟩ | ⟨e, s', hexamine⟩ | ⟨op, reply, s', hasks, rfl, hperf, hexamine⟩
  · rw [hexamine]
    exact .refused reason hasks
  · rw [hexamine]
    cases e with
    | job => exact .stopped
    | invalidMessage | redis | send => exact .again
  · rw [hexamine]
    refine .answered reply ?_
    have hstore : (c.fired env json m .none now).world.store = s' := by
      simp [Consumption.fired, hasks, Exchange.fire, World.next, after, hperf]
    cases op with
    | register q =>
        refine .registered hasks ?_
        show (c.fired env json m .none now).world.store.closed (q.identity env) = true
        rw [hstore]
        exact closed_of_perform_register hperf
    | stagePhotos message topic =>
        obtain ⟨⟨answer, s''⟩, -, hreply⟩ := except_bind_eq_ok.mp hperf
        cases hreply
        exact .staged hasks List.mem_cons_self
    | _ => cases Incoming.intake_of_asks hasks

variable {env json c r m fault now}

/-! ### Offsets -/

/-- Nothing that was produced below the offset is left, except a message held; and the
offset is not beyond what was produced. -/
structure Clears (env : Env) (json : JsonLibrary) (c : Consumption) (held : Option Incoming)
    (p : Partition) (n : Nat) : Prop where
  within : n = 0 ∨ ∃ x ∈ c.log p, n ≤ x.offset + 1
  concluded : ∀ x ∈ c.log p, x.offset < n → Concluded env json c x ∨ held = some x

theorem Clears.weaken (h : Clears env json c none p n) : Clears env json c held p n :=
  ⟨h.within, fun x hx hlt => (h.concluded x hx hlt).elim .inl fun hno => nomatch hno⟩

/-- What is held is concluded now. -/
theorem Clears.release (h : Clears env json c (some m) p n) (hm : Concluded env json c m) :
    Clears env json c held p n := by
  refine ⟨h.within, fun x hx hlt => .inl ?_⟩
  rcases h.concluded x hx hlt with hconcluded | heq
  · exact hconcluded
  · cases heq
    exact hm

theorem Clears.grow (h : Clears env json c held p n) (hgrow : c.Grows c') (hlog : c'.log = c.log) :
    Clears env json c' held p n := by
  refine ⟨by rw [hlog]; exact h.within, fun x hx hlt => ?_⟩
  rw [hlog] at hx
  exact (h.concluded x hx hlt).imp_left fun hx => hx.grow hgrow

/-- Below the next message, nothing is left but the message held. -/
theorem Clears.next (h : Clears env json c none p m.offset) (hm : m ∈ c.log p)
    (hordered : (c.log p).Pairwise fun x y => x.offset < y.offset) :
    Clears env json c (some m) p (m.offset + 1) := by
  refine ⟨.inr ⟨m, hm, le_rfl⟩, fun x hx hlt => ?_⟩
  rcases Nat.lt_succ_iff_lt_or_eq.mp hlt with hlt | heq
  · exact (h.concluded x hx hlt).imp_right fun hno => nomatch hno
  · refine .inr (congrArg some ?_)
    have hnodup : ((c.log p).map Incoming.offset).Nodup :=
      (List.pairwise_map.mpr hordered).imp ne_of_lt
    exact List.inj_on_of_nodup_map hnodup hm hx heq.symm

/-- Between the position and the message `getone` returns there is no other. -/
theorem Clears.skip (h : Clears env json c none p n) (hm : c.next? p n = some m)
    (hordered : (c.log p).Pairwise fun x y => x.offset < y.offset) :
    m ∈ c.log p ∧ Clears env json c none p m.offset := by
  obtain ⟨hle, before, rest, hlog, hbefore⟩ := List.find?_eq_some_iff_append.mp hm
  have hmem : m ∈ c.log p := by
    rw [hlog]
    simp
  refine ⟨hmem, .inr ⟨m, hmem, Nat.le_succ _⟩, fun x hx hlt => ?_⟩
  rw [hlog] at hx hordered
  have hfirst : x ∈ before := by
    rcases List.mem_append.mp hx with hx | hx
    · exact hx
    · rcases List.mem_cons.mp hx with rfl | hx
      · exact absurd hlt (lt_irrefl _)
      · have hrest := (List.pairwise_cons.mp (List.pairwise_append.mp hordered).2.1).1 x hx
        omega
  have hskip := hbefore x hfirst
  simp only [Bool.not_eq_true', decide_eq_false_iff_not, not_le] at hskip
  exact h.concluded x (by rw [hlog]; exact hx) hskip

/-! ### The invariant -/

variable (env json c)

structure Safe : Prop where
  exchange : ExchangeReached env c.exchange
  placed : ∀ p, ∀ x ∈ c.log p, x.origin = p
  ordered : ∀ p, (c.log p).Pairwise fun x y => x.offset < y.offset
  committed : ∀ p, Clears env json c none p (c.committed p)
  position : ∀ r p n, c.position r p = some n → Clears env json c (c.loop r).message p n
  /-- A message held was produced, and nothing before it is left. -/
  held : ∀ r x, (c.loop r).message = some x →
    x ∈ c.log x.origin ∧ Clears env json c none x.origin x.offset
  settled : ∀ r x, c.loop r = .committing x → Concluded env json c x

variable {env json c}

theorem safe_initial (h : ConsumptionInitial c) : Safe env json c where
  exchange := .of_init h.exchange
  placed p x hx := by
    rw [h.log] at hx
    cases hx
  ordered p := by
    rw [h.log]
    exact .nil
  committed p := by
    rw [h.committed]
    exact ⟨.inl rfl, fun x _ hlt => absurd hlt (Nat.not_lt_zero _)⟩
  position r p n hn := by
    rw [h.position] at hn
    cases hn
  held r x hx := by
    rw [h.loop] at hx
    cases hx
  settled r x hx := by
    rw [h.loop] at hx
    cases hx

/-! ### The single writes -/

namespace Safe

theorem grow (h : Safe env json c) (hgrow : c.Grows c') (hreached : ExchangeReached env c'.exchange)
    (hlog : c'.log = c.log) (hcommitted : c'.committed = c.committed) (hloop : c'.loop = c.loop)
    (hposition : c'.position = c.position) : Safe env json c' where
  exchange := hreached
  placed := by rw [hlog]; exact h.placed
  ordered := by rw [hlog]; exact h.ordered
  committed p := by rw [hcommitted]; exact (h.committed p).grow hgrow hlog
  position r p n hn := by
    rw [hposition] at hn
    rw [hloop]
    exact (h.position r p n hn).grow hgrow hlog
  held r x hx := by
    rw [hloop] at hx
    rw [hlog]
    exact ⟨(h.held r x hx).1, (h.held r x hx).2.grow hgrow hlog⟩
  settled r x hx := by
    rw [hloop] at hx
    exact (h.settled r x hx).grow hgrow

/-- The loop and the positions of one consumer are written: only these are to be shown. -/
theorem move (h : Safe env json c) (r : String) (l : Loop) (o : Partition → Option Nat)
    (hposition : ∀ p n, o p = some n → Clears env json c l.message p n)
    (hheld : ∀ x, l.message = some x →
      x ∈ c.log x.origin ∧ Clears env json c none x.origin x.offset)
    (hsettled : ∀ x, l = .committing x → Concluded env json c x) :
    Safe env json { c with
      loop := Function.update c.loop r l
      position := Function.update c.position r o } := by
  refine ⟨h.exchange, h.placed, h.ordered, fun q => (h.committed q).grow (.same rfl rfl rfl) rfl,
    fun r' q n hn => ?_, fun r' x hx => ?_, fun r' x hx => ?_⟩
  all_goals by_cases hr : r' = r
  · subst hr
    simp only [Function.update_self] at hn ⊢
    exact (hposition q n hn).grow (.same rfl rfl rfl) rfl
  · simp only [Function.update_of_ne hr] at hn ⊢
    exact (h.position r' q n hn).grow (.same rfl rfl rfl) rfl
  · subst hr
    simp only [Function.update_self] at hx
    exact ⟨(hheld x hx).1, (hheld x hx).2.grow (.same rfl rfl rfl) rfl⟩
  · simp only [Function.update_of_ne hr] at hx
    exact ⟨(h.held r' x hx).1, (h.held r' x hx).2.grow (.same rfl rfl rfl) rfl⟩
  · subst hr
    simp only [Function.update_self] at hx
    exact (hsettled x hx).grow (.same rfl rfl rfl)
  · simp only [Function.update_of_ne hr] at hx
    exact (h.settled r' x hx).grow (.same rfl rfl rfl)

/-- The consumer goes on with the message it holds. -/
theorem proceed (h : Safe env json c) (hmessage : l.message = (c.loop r).message)
    (hsettled : ∀ x, l = .committing x → Concluded env json c x) :
    Safe env json (c.setLoop r l) := by
  have hposition := h.position r
  have hheld := h.held r
  rw [← hmessage] at hposition hheld
  have hmoved := h.move r l (c.position r) hposition hheld hsettled
  rw [Function.update_eq_self] at hmoved
  exact hmoved

/-- The consumer lets go of its message, which is concluded or to be read again. -/
theorem letGo (h : Safe env json c)
    (hposition : ∀ p n, c.position r p = some n → Clears env json c none p n) :
    Safe env json (c.setLoop r .idle) := by
  have hmoved := h.move r .idle (c.position r) hposition (fun x hx => nomatch hx)
    fun x hx => nomatch hx
  rw [Function.update_eq_self] at hmoved
  exact hmoved

theorem setPosition (h : Safe env json c) {o : Option Nat}
    (ho : ∀ n, o = some n → Clears env json c (c.loop r).message p n) :
    Safe env json (c.setPosition r p o) := by
  have hmoved := h.move r (c.loop r) (Function.update (c.position r) p o) (fun q n hn => ?_)
    (h.held r) (h.settled r)
  · rw [Function.update_eq_self] at hmoved
    exact hmoved
  · by_cases hq : q = p
    · subst hq
      exact ho n (by rwa [Function.update_self] at hn)
    · exact h.position r q n (by rwa [Function.update_of_ne hq] at hn)

theorem setPaused (h : Safe env json c) {b : Bool} : Safe env json (c.setPaused r p b) :=
  h.grow (.same rfl rfl rfl) h.exchange rfl rfl rfl rfl

theorem setCommitted (h : Safe env json c) (hn : Clears env json c none p n) :
    Safe env json (c.setCommitted p n) := by
  refine ⟨h.exchange, h.placed, h.ordered, fun q => ?_,
    fun r' q k hk => (h.position r' q k hk).grow (.same rfl rfl rfl) rfl,
    fun r' x hx => ⟨(h.held r' x hx).1, (h.held r' x hx).2.grow (.same rfl rfl rfl) rfl⟩,
    fun r' x hx => (h.settled r' x hx).grow (.same rfl rfl rfl)⟩
  by_cases hq : q = p
  · subst hq
    simp only [Consumption.setCommitted, Function.update_self]
    exact hn.grow (.same rfl rfl rfl) rfl
  · simp only [Consumption.setCommitted, Function.update_of_ne hq]
    exact (h.committed q).grow (.same rfl rfl rfl) rfl

/-- `getone`: the consumer holds the next message. -/
theorem take (h : Safe env json c) (hidle : c.loop r = .idle) (hm : m ∈ c.log p)
    (hclear : Clears env json c none p m.offset) :
    Safe env json ((c.setPosition r p (some (m.offset + 1))).setLoop r (.accepting m)) := by
  refine h.move r (.accepting m) _ (fun q n hn => ?_) (fun x hx => ?_) fun x hx => nomatch hx
  · by_cases hq : q = p
    · subst hq
      rw [Function.update_self] at hn
      cases hn
      exact hclear.next hm (h.ordered q)
    · rw [Function.update_of_ne hq] at hn
      have hpos := h.position r q n hn
      rw [hidle] at hpos
      exact hpos.weaken
  · cases hx
    rw [h.placed p m hm]
    exact ⟨hm, hclear⟩

theorem stopped (h : Safe env json c) : Safe env json (c.stopped r) :=
  h.move r .idle (fun _ => none) (fun _ _ hn => nomatch hn) (fun _ hx => nomatch hx)
    fun _ hx => nomatch hx

theorem produce (h : Safe env json c) (hfresh : ∀ x ∈ c.log m.origin, x.offset < m.offset) :
    Safe env json (c.produced m) := by
  have hclears : ∀ {held q n}, Clears env json c held q n →
      Clears env json (c.produced m) held q n := by
    intro held q n hc
    refine ⟨hc.within.imp_right fun ⟨x, hx, hle⟩ => ⟨x, Consumption.mem_log_produced hx, hle⟩,
      fun x hx hlt => ?_⟩
    have hold : x ∈ c.log q := by
      by_cases hq : q = m.origin
      · subst hq
        rw [Consumption.log_produced_self] at hx
        rcases List.mem_append.mp hx with hx | hx
        · exact hx
        · -- The new message is beyond every offset read or committed so far.
          obtain rfl := List.mem_singleton.mp hx
          rcases hc.within with rfl | ⟨y, hy, hle⟩
          · exact absurd hlt (Nat.not_lt_zero _)
          · have hlast := hfresh y hy
            omega
      · rwa [Consumption.log_produced_ne hq] at hx
    exact (hc.concluded x hold hlt).imp_left fun hx => hx.grow (.same rfl rfl rfl)
  refine ⟨h.exchange, fun q x hx => ?_, fun q => ?_, fun q => hclears (h.committed q),
    fun r' q n hn => hclears (h.position r' q n hn),
    fun r' x hx => ⟨Consumption.mem_log_produced (h.held r' x hx).1, hclears (h.held r' x hx).2⟩,
    fun r' x hx => (h.settled r' x hx).grow (.same rfl rfl rfl)⟩
  · by_cases hq : q = m.origin
    · subst hq
      rw [Consumption.log_produced_self] at hx
      rcases List.mem_append.mp hx with hx | hx
      · exact h.placed _ x hx
      · rw [List.mem_singleton.mp hx]
    · rw [Consumption.log_produced_ne hq] at hx
      exact h.placed q x hx
  · by_cases hq : q = m.origin
    · subst hq
      rw [Consumption.log_produced_self]
      refine List.pairwise_append.mpr ⟨h.ordered _, List.pairwise_singleton .., ?_⟩
      intro x hx y hy
      rw [List.mem_singleton.mp hy]
      exact hfresh x hx
    · rw [Consumption.log_produced_ne hq]
      exact h.ordered q

end Safe

/-! ### The steps -/

/-- Away from its partition a held message does not matter. -/
theorem Clears.elsewhere (h : Clears env json c (some m) p n) (hs : Safe env json c)
    (hp : p ≠ m.origin) : Clears env json c none p n := by
  refine ⟨h.within, fun x hx hlt => .inl ?_⟩
  rcases h.concluded x hx hlt with hconcluded | heq
  · exact hconcluded
  · cases heq
    exact absurd (hs.placed p m hx).symm hp

/-- A consumer that gives up a message it cannot send goes back to it. -/
theorem Safe.preserved (h : Safe env json c) (hm : (c.loop r).message = some m) :
    Safe env json (c.preserved r m) := by
  have hother : ∀ p n, p ≠ m.origin → c.position r p = some n → Clears env json c none p n := by
    intro p n hp hn
    have hpos := h.position r p n hn
    rw [hm] at hpos
    exact hpos.elsewhere h hp
  unfold Consumption.preserved
  dsimp only
  split
  · have hback : Safe env json (c.setPosition r m.origin (some m.offset)) := by
      apply h.setPosition
      intro n hn
      cases hn
      exact Clears.weaken (h.held r m hm).2
    refine Safe.setPaused (c := (c.setPosition r m.origin (some m.offset)).setLoop r .idle)
      (hback.letGo fun p n hn => ?_)
    by_cases hp : p = m.origin
    · subst hp
      have hn : m.offset = n := by simpa [Consumption.setPosition] using hn
      rw [← hn]
      exact (h.held r m hm).2.grow (.same rfl rfl rfl) rfl
    · have hn : c.position r p = some n := by simpa [Consumption.setPosition, hp] using hn
      exact (hother p n hp hn).grow (.same rfl rfl rfl) rfl
  · rename_i hassigned
    refine h.letGo fun p n hn => hother p n ?_ hn
    rintro rfl
    have hsome : ((c.setLoop r .idle).position r m.origin).isSome = true := by
      rw [show (c.setLoop r .idle).position r m.origin = some n from hn]
      rfl
    exact hassigned hsome

theorem Safe.commits (h : Safe env json c) (hloop : c.loop r = .committing m)
    (answer : CommitAnswer) :
    Safe env json (c.commits r m answer) := by
  have hmessage : (c.loop r).message = some m := by rw [hloop]; rfl
  have hm := h.settled r m hloop
  obtain ⟨hmem, hclear⟩ := h.held r m hmessage
  have hdone : Safe env json (c.setCommitted m.origin (m.offset + 1)) :=
    h.setCommitted ((hclear.next hmem (h.ordered _)).release hm)
  have hread : ∀ p n, c.position r p = some n → Clears env json c none p n := by
    intro p n hn
    have hpos := h.position r p n hn
    rw [hmessage] at hpos
    exact hpos.release hm
  cases answer with
  | taken => exact hdone.letGo fun p n hn => (hread p n hn).grow (.same rfl rfl rfl) rfl
  | refused => exact h.letGo hread
  | failed taken =>
      have hagain : (Loop.accepting m).message = (c.loop r).message := hmessage.symm
      cases taken with
      | true => exact hdone.proceed hagain fun x hx => nomatch hx
      | false => exact h.proceed hagain fun x hx => nomatch hx

theorem Safe.accepted (h : Safe env json c) (hm : (c.loop r).message = some m)
    (hle : c.exchange.world.clock ≤ now) :
    Safe env json (c.accepted env json r m fault now) := by
  have hstored : Safe env json (c.stored env json m fault now) := by
    refine h.grow (c.stored_grows hle) ?_ rfl rfl rfl rfl
    show ExchangeReached env (c.fired env json m fault now)
    rcases c.fired_cases env json m fault now hle with ⟨-, hsame⟩ | ⟨op, -, -, -, hstep⟩
    · rw [hsame]
      exact h.exchange
    · exact h.exchange.next hstep
  have hmessage : ((c.stored env json m fault now).loop r).message = some m := hm
  generalize hc' : c.accepted env json r m fault now = c'
  cases hc' ▸ accepted_cases env json c r m fault now with
  | refused => exact hstored.proceed hmessage.symm fun x hx => nomatch hx
  | answered reply hconcluded =>
      refine Safe.proceed (hstored.grow ⟨fun _ h => h, fun _ h => List.mem_cons_of_mem _ h,
        fun _ h => h⟩ hstored.exchange rfl rfl rfl rfl) hmessage.symm ?_
      rintro x ⟨⟩
      exact hconcluded
  | stopped => exact hstored.stopped
  | again => exact hstored

theorem Safe.counted (h : Safe env json c) (hm : (c.loop r).message = some m) :
    Safe env json (c.counted env r m reason fault now) := by
  unfold Consumption.counted
  dsimp only
  refine Safe.proceed (h.grow (.same rfl rfl rfl) h.exchange rfl rfl rfl rfl) ?_ ?_
  · show _ = (c.loop r).message
    rw [hm]
    split <;> rfl
  · intro x hx
    split at hx <;> cases hx

/-- Whatever the broker answers, no letter is lost. -/
theorem Safe.quarantined (h : Safe env json c) (hm : (c.loop r).message = some m)
    (answer : SendOutcome) : Safe env json (c.quarantined r m reason answer) := by
  have hsent : Safe env json { c with
      deadLetters := (quarantine m reason answer c.services).2.deadLetters } := by
    refine h.grow ⟨fun _ h => h, fun _ h => h, fun d hd => ?_⟩ h.exchange rfl rfl rfl rfl
    cases answer with
    | acknowledged => exact List.mem_cons_of_mem _ hd
    | failed e appended =>
        cases appended with
        | true => exact List.mem_cons_of_mem _ hd
        | false => exact hd
  cases answer with
  | acknowledged =>
      refine hsent.proceed hm.symm ?_
      rintro x ⟨⟩
      exact .deadLettered List.mem_cons_self
  | failed e appended =>
      cases e with
      | tooLarge => exact hsent.preserved hm
      | kafka | os => exact hsent.proceed hm.symm fun x hx => nomatch hx

/-- **Step lemma.** -/
theorem safe_of_step (hs : Safe env json c) (h : ConsumptionStep env json c a c') :
    Safe env json c' := by
  have hmessage : ∀ {r l m}, c.loop r = l → l.message = some m →
      (c.loop r).message = some m := fun hloop hm => hloop ▸ hm
  cases consumed_of_step h with
  | produce hfresh => exact hs.produce hfresh
  | assign r p =>
      refine Safe.setPaused (hs.setPosition fun n hn => ?_)
      cases hn
      exact (hs.committed p).weaken
  | revoke r p => exact hs.setPosition fun n hn => nomatch hn
  | deliver hidle hn hm =>
      have hclear := hs.position _ _ _ hn
      rw [hidle] at hclear
      obtain ⟨hmem, hclear⟩ := Clears.skip hclear hm (hs.ordered _)
      exact hs.take hidle hmem hclear
  | accept hloop hle => exact hs.accepted (hmessage hloop rfl) hle
  | count hloop => exact hs.counted (hmessage hloop rfl)
  | quarantine hloop => exact hs.quarantined (hmessage hloop rfl) _
  | commit hloop => exact hs.commits hloop _
  | stop => exact hs.stopped
  | other hother hstep =>
      exact hs.grow ⟨fun _ => closed_of_exchange hstep, fun _ h => h, fun _ h => h⟩
        (hs.exchange.next hstep) rfl rfl rfl rfl

theorem reached_safe (h : ConsumptionReached env json c) : Safe env json c :=
  h.invariant (fun _ => safe_initial) fun _ _ _ => safe_of_step

/-- **No request is skipped.** Whatever consumers are assigned, lost and brought back, whatever
fails: a message below the committed offset of its partition is concluded. -/
theorem reached_noneSkipped (h : ConsumptionReached env json c) (hm : m ∈ c.log p)
    (hlt : m.offset < c.committed p) : Concluded env json c m :=
  (((reached_safe h).committed p).concluded m hm hlt).resolve_right fun hno => nomatch hno

end

theorem reached_noneSkipped_sampleConsumption :
    ∃ m ∈ sampleConsumption.log ("local.yeodam.trip-create.request", 0), m.offset = 1 ∧
      Concluded sampleEnv bareJson sampleConsumption m := by
  have hproduced : (sampleConsumption.log ("local.yeodam.trip-create.request", 0)).any
      (fun m => decide (m.offset = 1)) = true := by decide +kernel
  obtain ⟨m, hm, hoffset⟩ := List.any_eq_true.mp hproduced
  rw [decide_eq_true_iff] at hoffset
  refine ⟨m, hm, hoffset, reached_noneSkipped reached_sampleConsumption hm ?_⟩
  rw [hoffset]
  decide +kernel

end Yeodam.Jobs
