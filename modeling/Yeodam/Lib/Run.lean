/-
Labelled transition systems and their finite runs.

A system is a step relation `σ → ι → σ → Prop`; a run is the list of labels it
performs. Two rules carry every development over it:

* `Run.preserves`: what one step preserves, a run preserves;
* `Run.preserves_of`: the same for a run whose steps all meet a condition on the
  label and the state it fires in (`Guarded`).

Nothing here names a concrete system.
-/

import Mathlib.Logic.Basic

namespace Yeodam.Lib

variable {σ ι : Type*}

/-- `Run step s es t`: performing the labels `es` in order leads from `s` to `t`. -/
inductive Run (step : σ → ι → σ → Prop) : σ → List ι → σ → Prop where
  | refl (s : σ) : Run step s [] s
  | cons {s t u : σ} {e : ι} {es : List ι} :
      step s e t → Run step t es u → Run step s (e :: es) u

/-- The steps of `step` that fire only where `cond` holds. -/
def Guarded (cond : σ → ι → Prop) (step : σ → ι → σ → Prop) : σ → ι → σ → Prop :=
  fun s e t => cond s e ∧ step s e t

/-- `Reachable init step s`: some run from an initial state ends in `s`. -/
def Reachable (init : σ → Prop) (step : σ → ι → σ → Prop) (s : σ) : Prop :=
  ∃ s₀ es, init s₀ ∧ Run step s₀ es s

variable {step : σ → ι → σ → Prop} {init : σ → Prop} {s t u : σ} {e : ι} {es fs : List ι}

theorem Run.single (h : step s e t) : Run step s [e] t :=
  .cons h (.refl t)

theorem Run.append (h : Run step s es t) (h' : Run step t fs u) : Run step s (es ++ fs) u := by
  induction h with
  | refl => exact h'
  | cons first _ ih => exact .cons first (ih h')

theorem Run.mono {step' : σ → ι → σ → Prop} (sub : ∀ s e t, step s e t → step' s e t)
    (h : Run step s es t) : Run step' s es t := by
  induction h with
  | refl => exact .refl _
  | cons first _ ih => exact .cons (sub _ _ _ first) ih

/-- **Step lemma to run lemma.** A property that every step preserves holds at
the end of a run when it holds at its start. -/
theorem Run.preserves {P : σ → Prop} (hstep : ∀ s e t, P s → step s e t → P t)
    (h : Run step s es t) (hs : P s) : P t := by
  induction h with
  | refl => exact hs
  | cons first _ ih => exact ih (hstep _ _ _ hs first)

/-- **A measure that every step lowers bounds the length of a run.** -/
theorem Run.length_add_le {μ : σ → Nat} {P : σ → Prop}
    (hstep : ∀ s e t, P s → step s e t → μ t < μ s ∧ P t) (h : Run step s es t) (hs : P s) :
    es.length + μ t ≤ μ s := by
  induction h with
  | refl => simp
  | cons first _ ih =>
      obtain ⟨hlt, hP⟩ := hstep _ _ _ hs first
      have hrest := ih hP
      simp only [List.length_cons]
      omega

/-- The guarded rule: each step preserves `P` where the condition holds, so a
run whose steps all meet the condition does. -/
theorem Run.preserves_of {cond : σ → ι → Prop} {P : σ → Prop}
    (hstep : ∀ s e t, P s → cond s e → step s e t → P t)
    (h : Run (Guarded cond step) s es t) (hs : P s) : P t :=
  h.preserves (fun s e t hP hst => hstep s e t hP hst.1 hst.2) hs

theorem Run.of_guarded {cond : σ → ι → Prop} (h : Run (Guarded cond step) s es t) :
    Run step s es t :=
  h.mono fun _ _ _ hst => hst.2

/-- A run is guarded if its labels are harmless wherever they fire. -/
theorem Run.guarded {cond : σ → ι → Prop} (hes : ∀ e ∈ es, ∀ s, cond s e)
    (h : Run step s es t) : Run (Guarded cond step) s es t := by
  induction h with
  | refl => exact .refl _
  | cons first _ ih =>
      exact .cons ⟨hes _ List.mem_cons_self _, first⟩
        (ih fun e he => hes e (List.mem_cons_of_mem _ he))

theorem Reachable.of_init (h : init s) : Reachable init step s :=
  ⟨s, [], h, .refl s⟩

theorem Reachable.run (h : Reachable init step s) (hrun : Run step s es t) :
    Reachable init step t := by
  obtain ⟨s₀, fs, hs₀, hfs⟩ := h
  exact ⟨s₀, fs ++ es, hs₀, hfs.append hrun⟩

theorem Reachable.next (h : Reachable init step s) (hst : step s e t) :
    Reachable init step t :=
  h.run (.single hst)

theorem Reachable.of_guarded {cond : σ → ι → Prop} (h : Reachable init (Guarded cond step) s) :
    Reachable init step s := by
  obtain ⟨s₀, es, hs₀, hrun⟩ := h
  exact ⟨s₀, es, hs₀, hrun.of_guarded⟩

/-- **Invariant rule.** What holds initially and is preserved by every step holds
in every reachable state. -/
theorem Reachable.invariant {P : σ → Prop} (hinit : ∀ s, init s → P s)
    (hstep : ∀ s e t, P s → step s e t → P t) (h : Reachable init step s) : P s := by
  obtain ⟨s₀, es, hs₀, hrun⟩ := h
  exact hrun.preserves hstep (hinit s₀ hs₀)

/-- The invariant rule for systems whose step lemma may use what is already known
of the reachable state it starts from. -/
theorem Reachable.invariant_of {I P : σ → Prop} (hI : ∀ s, Reachable init step s → I s)
    (hinit : ∀ s, init s → P s) (hstep : ∀ s e t, I s → P s → step s e t → P t)
    (h : Reachable init step s) : P s := by
  obtain ⟨s₀, es, hs₀, hrun⟩ := h
  have key : Reachable init step s ∧ P s :=
    hrun.preserves (P := fun s => Reachable init step s ∧ P s)
      (fun s e t hP hst => ⟨hP.1.next hst, hstep s e t (hI s hP.1) hP.2 hst⟩)
      ⟨.of_init hs₀, hinit s₀ hs₀⟩
  exact key.2

/-! ### Schedules -/

/-- The state a schedule leads to, for a system whose step is a partial function, if every
action of it is possible. -/
def follow (advance : σ → ι → Option σ) : σ → List ι → Option σ
  | s, [] => some s
  | s, e :: es => (advance s e).bind fun t => follow advance t es

theorem run_follow {advance : σ → ι → Option σ} (h : follow advance s es = some t) :
    Run (fun s e t => advance s e = some t) s es t := by
  induction es generalizing s with
  | nil =>
      cases h
      exact .refl _
  | cons e es ih =>
      obtain ⟨u, hu, h⟩ := Option.bind_eq_some_iff.mp h
      exact .cons hu (ih h)

/-- The state after a schedule whose actions are all possible. -/
def followed (advance : σ → ι → Option σ) (s : σ) (es : List ι) : σ :=
  (follow advance s es).getD s

theorem run_followed {advance : σ → ι → Option σ} (s : σ) (es : List ι)
    (h : (follow advance s es).isSome = true) :
    Run (fun s e t => advance s e = some t) s es (followed advance s es) := by
  obtain ⟨t, ht⟩ := Option.isSome_iff_exists.mp h
  rw [followed, ht]
  exact run_follow ht

theorem follow_append {advance : σ → ι → Option σ} : follow advance s (es ++ fs) =
    (follow advance s es).bind fun t => follow advance t fs := by
  induction es generalizing s with
  | nil => rfl
  | cons e es ih =>
      rw [List.cons_append, follow, follow, Option.bind_assoc]
      exact congrArg _ (funext fun t => ih)

/-- The last part of a schedule is a run from where the first ends. -/
theorem run_followed_append {advance : σ → ι → Option σ} (s : σ) (es fs : List ι)
    (h : (follow advance s (es ++ fs)).isSome = true) :
    Run (fun s e t => advance s e = some t) (followed advance s es) fs
      (followed advance s (es ++ fs)) := by
  obtain ⟨u, hu⟩ := Option.isSome_iff_exists.mp h
  rw [followed, followed, hu]
  obtain ⟨t, ht, hu⟩ := Option.bind_eq_some_iff.mp (follow_append.symm.trans hu)
  rw [ht]
  exact run_follow hu

/-- The actions of a schedule meet a condition where they fire. -/
def Meets (advance : σ → ι → Option σ) (cond : σ → ι → Prop) : σ → List ι → Prop
  | _, [] => True
  | s, e :: es => cond s e ∧ ∀ t, advance s e = some t → Meets advance cond t es

theorem run_meets {advance : σ → ι → Option σ} {cond : σ → ι → Prop} (s : σ) (es : List ι)
    (h : (follow advance s es).isSome = true) (hmeets : Meets advance cond s es) :
    Run (Guarded cond fun s e t => advance s e = some t) s es (followed advance s es) := by
  obtain ⟨t, ht⟩ := Option.isSome_iff_exists.mp h
  rw [followed, ht]
  clear h
  induction es generalizing s with
  | nil =>
      cases ht
      exact .refl _
  | cons e es ih =>
      obtain ⟨u, hu, ht⟩ := Option.bind_eq_some_iff.mp ht
      exact .cons ⟨hmeets.1, hu⟩ (ih u (hmeets.2 u hu) ht)

/-- The actions of a schedule fire, each where a check passes. -/
def passes (advance : σ → ι → Option σ) (check : σ → ι → Bool) : σ → List ι → Bool
  | _, [] => true
  | s, e :: es => check s e && (advance s e).any fun t => passes advance check t es

/-- A schedule that passes a check is a run under the condition that the check decides in
reachable states. -/
theorem reachable_passes {advance : σ → ι → Option σ} {check : σ → ι → Bool}
    {cond : σ → ι → Prop}
    (hcheck : ∀ s e, Reachable init (fun s e t => advance s e = some t) s → check s e = true →
      cond s e)
    (hinit : init s) (h : passes advance check s es = true) :
    Reachable init (Guarded cond fun s e t => advance s e = some t) (followed advance s es) := by
  have key : ∀ es s, Reachable init (fun s e t => advance s e = some t) s →
      passes advance check s es = true → ∃ t, follow advance s es = some t ∧
        Run (Guarded cond fun s e t => advance s e = some t) s es t := by
    intro es
    induction es with
    | nil => exact fun s _ _ => ⟨s, rfl, .refl s⟩
    | cons e es ih =>
        intro s hs h
        obtain ⟨hfirst, hrest⟩ := Bool.and_eq_true_iff.mp h
        obtain ⟨u, hu, hrest⟩ := (Option.any_eq_true _ _).mp hrest
        obtain ⟨t, ht, hrun⟩ := ih u (hs.next hu) hrest
        exact ⟨t, Option.bind_eq_some_iff.mpr ⟨u, hu, ht⟩,
          .cons ⟨hcheck s e hs hfirst, hu⟩ hrun⟩
  obtain ⟨t, ht, hrun⟩ := key es s (.of_init hinit) h
  rw [followed, ht]
  exact ⟨s, es, hinit, hrun⟩

/-! ### Counting steps -/

/-- The number of steps of a schedule at which `p` holds, for a system whose next
state is a function. -/
def tally (next : σ → ι → σ) (p : σ → ι → Bool) : σ → List ι → Nat
  | _, [] => 0
  | s, e :: es => (if p s e then 1 else 0) + tally next p (next s e) es

/-- **Potential rule.** A step counted by `p` uses up potential and no step creates
any, so a schedule has at most as many of them as the potential it starts with. -/
theorem tally_le {next : σ → ι → σ} {p : σ → ι → Bool} (potential : σ → Nat) {I : σ → Prop}
    (hI : ∀ s e, I s → I (next s e))
    (hstep : ∀ s e, I s → (if p s e then 1 else 0) + potential (next s e) ≤ potential s)
    (hs : I s) (es : List ι) : tally next p s es ≤ potential s := by
  induction es generalizing s with
  | nil => exact Nat.zero_le _
  | cons e es ih =>
      have hrest := ih (hI s e hs)
      have hfirst := hstep s e hs
      rw [tally]
      omega

end Yeodam.Lib
