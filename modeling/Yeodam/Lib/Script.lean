/-
Programs that pass through events, any of which may be their last.

A `Script` lists the events a program passes through and what it comes to in the end. What is
around the program may interrupt it at any event (`Script.execute`), so a program that is
interrupted comes to an error, and one that is not comes to its `outcome`: `execute_eq_ok`.

Scripts are put together in `do` blocks, and `outcome` takes such a block to the one of the
outcomes (`outcome_bind`).

A monitor is an automaton over the events. `Meets` is a Hoare triple whose precondition is the
state the monitor starts in: `Meets.bind` and `meets_forM` are its rules.
-/

import Yeodam.Lib.Except

namespace Yeodam.Lib

universe u v w

structure Script (ω : Type u) (ε : Type v) (α : Type w) where
  events : List ω
  outcome : Except ε α

namespace Script

variable {ω : Type u} {ε : Type v} {α β : Type w}

/-- Pass through one event. -/
def emit (e : ω) : Script ω ε PUnit := ⟨[e], .ok ⟨⟩⟩

/-- Compute without events. -/
def lift (x : Except ε α) : Script ω ε α := ⟨[], x⟩

/-- The events of the second program come after those of the first, if this one returns. -/
def andThen (x : Script ω ε α) (f : α → Script ω ε β) : Script ω ε β :=
  match x.outcome with
  | .ok a => ⟨x.events ++ (f a).events, (f a).outcome⟩
  | .error e => ⟨x.events, .error e⟩

instance : Monad (Script ω ε) where
  pure a := lift (.ok a)
  bind := andThen

/-- The first error among the interruptions, each decided by the events so far, or else the
outcome. -/
def execute (interrupt : List ω → Option ε) (s : Script ω ε α) : Except ε α :=
  match (List.range s.events.length).findSome? fun i => interrupt (s.events.take (i + 1)) with
  | some e => .error e
  | none => s.outcome

/-- Nothing interrupts a program. -/
def quiet : List ω → Option ε := fun _ => none

/-! ### Outcomes -/

@[simp] theorem outcome_pure (a : α) : (pure a : Script ω ε α).outcome = .ok a := rfl

@[simp] theorem outcome_lift (x : Except ε α) : (lift x : Script ω ε α).outcome = x := rfl

@[simp] theorem outcome_emit (e : ω) : (emit e : Script ω ε PUnit).outcome = .ok ⟨⟩ := rfl

@[simp] theorem outcome_bind (x : Script ω ε α) (f : α → Script ω ε β) :
    (x >>= f).outcome = x.outcome >>= fun a => (f a).outcome := by
  change (andThen x f).outcome = _
  unfold andThen
  cases x.outcome <;> rfl

theorem outcome_foldlM {γ : Type*} (f : α → γ → Script ω ε α) (zs : List γ) (a : α) :
    (zs.foldlM f a).outcome = zs.foldlM (fun a z => (f a z).outcome) a := by
  induction zs generalizing a with
  | nil => rfl
  | cons z zs ih =>
      rw [List.foldlM_cons, List.foldlM_cons, outcome_bind]
      exact congrArg _ (funext fun a => ih a)

/-- **A program returns** if it is not interrupted and its outcome is to return. -/
theorem execute_eq_ok {interrupt : List ω → Option ε} {s : Script ω ε α} {a : α} :
    s.execute interrupt = .ok a ↔
      (∀ i < s.events.length, interrupt (s.events.take (i + 1)) = none) ∧ s.outcome = .ok a := by
  unfold execute
  cases h : (List.range s.events.length).findSome? fun i => interrupt (s.events.take (i + 1)) with
  | none =>
      have hnone := List.findSome?_eq_none_iff.mp h
      simp only [List.mem_range] at hnone
      exact ⟨fun houtcome => ⟨hnone, houtcome⟩, fun houtcome => houtcome.2⟩
  | some e =>
      obtain ⟨i, hi, he⟩ := List.exists_of_findSome?_eq_some h
      constructor
      · intro h
        cases h
      · rintro ⟨hnone, -⟩
        rw [hnone i (List.mem_range.mp hi)] at he
        cases he

@[simp] theorem execute_quiet (s : Script ω ε α) : s.execute quiet = s.outcome := by
  cases h : s.outcome with
  | ok a => exact execute_eq_ok.mpr ⟨fun _ _ => rfl, h⟩
  | error e =>
      have hnone : ((List.range s.events.length).findSome? fun i =>
          (quiet : List ω → Option ε) (s.events.take (i + 1))) = none :=
        List.findSome?_eq_none_iff.mpr fun _ _ => rfl
      rw [execute, hnone, h]

/-- The events a program passes through, the one it is interrupted at included. -/
def passed (interrupt : List ω → Option ε) (s : Script ω ε α) : List ω :=
  match (List.range s.events.length).find? fun i => (interrupt (s.events.take (i + 1))).isSome with
  | some i => s.events.take (i + 1)
  | none => s.events

theorem passed_prefix (interrupt : List ω → Option ε) (s : Script ω ε α) :
    s.passed interrupt <+: s.events := by
  unfold passed
  split
  · exact List.take_prefix _ _
  · exact List.prefix_rfl

/-- A program that returns passes through all its events. -/
theorem passed_of_execute {interrupt : List ω → Option ε} {s : Script ω ε α} {a : α}
    (h : s.execute interrupt = .ok a) : s.passed interrupt = s.events := by
  obtain ⟨hquiet, -⟩ := execute_eq_ok.mp h
  unfold passed
  split
  · rename_i i hi
    have hlt := List.mem_range.mp (List.mem_of_find?_eq_some hi)
    have hsome := List.find?_some hi
    rw [hquiet i hlt] at hsome
    cases hsome
  · rfl

/-! ### Monitors -/

section Monitors

variable {σ : Type*} (monitor : σ → ω → Option σ)

/-- A monitor that starts at `s` lets every event of the program pass, and where the program
returns, what it returns goes with the state of the monitor. -/
def Meets (s : σ) (p : Script ω ε α) (Q : σ → α → Prop) : Prop :=
  ∃ s', p.events.foldlM monitor s = some s' ∧ ∀ a, p.outcome = .ok a → Q s' a

variable {monitor} {s : σ} {p : Script ω ε α} {Q Q' : σ → α → Prop}

theorem Meets.mono (h : p.Meets monitor s Q) (hQ : ∀ s a, Q s a → Q' s a) :
    p.Meets monitor s Q' := by
  obtain ⟨s', hs', hQs⟩ := h
  exact ⟨s', hs', fun a ha => hQ s' a (hQs a ha)⟩

theorem meets_lift {x : Except ε α} (h : ∀ a, x = .ok a → Q s a) : (lift x).Meets monitor s Q :=
  ⟨s, rfl, h⟩

theorem meets_pure {a : α} (h : Q s a) : (pure a : Script ω ε α).Meets monitor s Q :=
  meets_lift fun _ ha => Except.ok.inj ha ▸ h

theorem meets_emit {e : ω} {s' : σ} {Q : σ → PUnit → Prop} (he : monitor s e = some s')
    (h : Q s' ⟨⟩) : (emit e : Script ω ε PUnit).Meets monitor s Q := by
  refine ⟨s', ?_, fun _ _ => h⟩
  change [e].foldlM monitor s = some s'
  rw [List.foldlM_cons, he]
  rfl

/-- **The rule of sequencing.** -/
theorem Meets.bind {R : σ → β → Prop} {f : α → Script ω ε β} (h : p.Meets monitor s Q)
    (hf : ∀ s' a, Q s' a → (f a).Meets monitor s' R) : (p >>= f).Meets monitor s R := by
  obtain ⟨s', hs', hQ⟩ := h
  change (andThen p f).Meets monitor s R
  unfold andThen
  cases houtcome : p.outcome with
  | error e => exact ⟨s', hs', nofun⟩
  | ok a =>
      obtain ⟨t, ht, hR⟩ := hf s' a (hQ a houtcome)
      refine ⟨t, ?_, hR⟩
      dsimp only
      rw [List.foldlM_append, hs']
      exact ht

theorem meets_forM {γ : Type*} {f : γ → Script ω ε PUnit} {I : List γ → σ → Prop}
    (hstep : ∀ z zs s, I (z :: zs) s → (f z).Meets monitor s fun s' _ => I zs s') {zs : List γ}
    {s : σ} (h : I zs s) : (zs.forM f).Meets monitor s fun s' _ => I [] s' := by
  induction zs generalizing s with
  | nil => exact meets_pure h
  | cons z zs ih => exact (hstep z zs s h).bind fun s' _ h' => ih h'

/-- A monitor lets pass what an interrupted program passes through, too. -/
theorem Meets.passed (h : p.Meets monitor s Q) (interrupt : List ω → Option ε) :
    ∃ s', (p.passed interrupt).foldlM monitor s = some s' := by
  obtain ⟨s', hs', -⟩ := h
  obtain ⟨rest, hrest⟩ := passed_prefix interrupt p
  rw [← hrest, List.foldlM_append, Option.bind_eq_bind, Option.bind_eq_some_iff] at hs'
  obtain ⟨t, ht, -⟩ := hs'
  exact ⟨t, ht⟩

end Monitors

end Script

/-! ### Repetitions -/

/-- A list with each element repeated at will. -/
inductive Repeats {α : Type u} : List α → List α → Prop where
  | nil : Repeats [] []
  | cons {xs ys : List α} (x : α) (count : Nat) (h : Repeats xs ys) :
      Repeats (x :: xs) (List.replicate (count + 1) x ++ ys)

section Repeats

variable {α : Type u} {σ : Type v} {xs ys : List α} {step : σ → α → Option σ} {s s' : σ}

/-- A step that may be taken again may be taken any number of times. -/
theorem foldlM_replicate {x : α} (h : step s x = some s) (count : Nat) :
    (List.replicate count x).foldlM step s = some s := by
  induction count with
  | zero => rfl
  | succ count ih =>
      rw [List.replicate_succ, List.foldlM_cons, h]
      exact ih

/-- Nothing has to be repeated. -/
theorem Repeats.refl (xs : List α) : Repeats xs xs := by
  induction xs with
  | nil => exact .nil
  | cons x xs ih => exact .cons x 0 ih

/-- **Repetitions pass an automaton** that may stay where it is. -/
theorem Repeats.foldlM (h : Repeats xs ys)
    (hagain : ∀ s x s', step s x = some s' → step s' x = some s')
    (hs : xs.foldlM step s = some s') : ys.foldlM step s = some s' := by
  induction h generalizing s with
  | nil => exact hs
  | cons x count _ ih =>
      rw [List.foldlM_cons, Option.bind_eq_bind, Option.bind_eq_some_iff] at hs
      obtain ⟨t, ht, hs⟩ := hs
      rw [List.replicate_succ, List.cons_append, List.foldlM_cons, ht, Option.bind_eq_bind,
        Option.bind_some, List.foldlM_append, foldlM_replicate (hagain s x t ht),
        Option.bind_eq_bind,
        Option.bind_some]
      exact ih hs

end Repeats

/-! ### Chunks -/

section Chunks

variable {α : Type u}

/-- `xs[start:start + n] for start in range(0, len(xs), n)`, at most so many. -/
def chunksFrom (n : Nat) : Nat → List α → List (List α)
  | 0, _ => []
  | count + 1, xs => if xs.isEmpty then [] else xs.take n :: chunksFrom n count (xs.drop n)

/-- A list in pieces of `n`. -/
def chunks (n : Nat) (xs : List α) : List (List α) := chunksFrom n xs.length xs

theorem flatten_chunksFrom {n count : Nat} {xs : List α} (hn : 0 < n)
    (hlength : xs.length ≤ count) : (chunksFrom n count xs).flatten = xs := by
  induction count generalizing xs with
  | zero =>
      rw [List.length_eq_zero_iff.mp (Nat.le_zero.mp hlength)]
      rfl
  | succ count ih =>
      rw [chunksFrom]
      split
      · rename_i hempty
        rw [List.isEmpty_iff.mp hempty]
        rfl
      · rw [List.flatten_cons, ih, List.take_append_drop]
        rw [List.length_drop]
        omega

theorem length_le_chunksFrom {n count : Nat} {xs : List α} (hn : 0 < n)
    (hlength : xs.length ≤ count) : xs.length ≤ n * (chunksFrom n count xs).length := by
  induction count generalizing xs with
  | zero => omega
  | succ count ih =>
      rw [chunksFrom]
      split
      · rename_i hempty
        rw [List.isEmpty_iff.mp hempty]
        exact Nat.zero_le _
      · have hdrop : (xs.drop n).length ≤ count := by
          rw [List.length_drop]
          omega
        have hrest := ih hdrop
        rw [List.length_drop] at hrest
        rw [List.length_cons, Nat.mul_succ]
        omega

/-- There are pieces enough. -/
theorem length_le_chunks {n : Nat} (hn : 0 < n) (xs : List α) :
    xs.length ≤ n * (chunks n xs).length :=
  length_le_chunksFrom hn (Nat.le_refl _)

/-- **The pieces are the list.** -/
theorem flatten_chunks {n : Nat} (hn : 0 < n) (xs : List α) : (chunks n xs).flatten = xs :=
  flatten_chunksFrom hn (Nat.le_refl _)

end Chunks

end Yeodam.Lib
