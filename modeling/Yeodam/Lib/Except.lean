/-
Peeling apart fallible computations: what a successful `Except` step says about
its parts. `simp` uses these to turn `x >>= f = .ok b` into the value `x` returned.
-/

import Mathlib.Data.List.Forall2

namespace Yeodam.Lib

universe u v

variable {ε : Type u} {α β : Type v}

@[simp] theorem except_bind_eq_ok {x : Except ε α} {f : α → Except ε β} {b : β} :
    (x >>= f) = .ok b ↔ ∃ a, x = .ok a ∧ f a = .ok b := by
  cases x with
  | error e =>
      constructor
      · intro h
        cases h
      · rintro ⟨_, h, _⟩
        cases h
  | ok a =>
      constructor
      · intro h
        exact ⟨a, rfl, h⟩
      · rintro ⟨_, h, hf⟩
        cases h
        exact hf

@[simp] theorem except_map_eq_ok {x : Except ε α} {f : α → β} {b : β} :
    x.map f = .ok b ↔ ∃ a, x = .ok a ∧ f a = b := by
  cases x with
  | error e => simp [Except.map]
  | ok a => simp [Except.map]

@[simp] theorem except_ok_bind (a : α) (f : α → Except ε β) : (Except.ok a >>= f) = f a := rfl

@[simp] theorem except_bind_ok (x : Except ε α) : (x >>= fun a => Except.ok a) = x := by
  cases x <;> rfl

/-- A computation that succeeds returns its value. -/
theorem eq_ok_getD {x : Except ε α} (h : x.toOption.isSome = true) (d : α) :
    x = .ok (x.toOption.getD d) := by
  cases x with
  | error e => cases h
  | ok a => rfl

/-- A sequence succeeds when its steps do, one after the other. -/
theorem bind_succeeds {x : Except ε α} {f : α → Except ε β} {a : α} (hx : x = .ok a)
    (hf : ∃ b, f a = .ok b) : ∃ b, (x >>= f) = .ok b := by
  obtain ⟨b, hb⟩ := hf
  exact ⟨b, except_bind_eq_ok.mpr ⟨a, hx, hb⟩⟩

/-- The errors of a sequence: the first step's, or the second's after the first
succeeded. -/
theorem except_bind_eq_error {x : Except ε α} {f : α → Except ε β} {e : ε} :
    (x >>= f) = .error e ↔ x = .error e ∨ ∃ a, x = .ok a ∧ f a = .error e := by
  cases x with
  | error e' =>
      constructor
      · intro h
        cases h
        exact .inl rfl
      · rintro (h | ⟨_, h, _⟩)
        · cases h
          rfl
        · cases h
  | ok a =>
      constructor
      · intro h
        exact .inr ⟨a, rfl, h⟩
      · rintro (h | ⟨_, h, hf⟩)
        · cases h
        · cases h
          exact hf

/-! ### Loops -/

section Loops

variable {γ : Type*} {σ : Type v} {step : σ → γ → Except ε σ} {P : σ → Prop}
  {zs : List γ} {s s' : σ}

/-- **What one round of a loop preserves, the loop preserves.** -/
theorem foldlM_preserves (hstep : ∀ s, P s → ∀ z ∈ zs, ∀ s', step s z = .ok s' → P s') (hs : P s)
    (h : zs.foldlM step s = .ok s') : P s' := by
  induction zs generalizing s with
  | nil =>
      cases h
      exact hs
  | cons z zs ih =>
      rw [List.foldlM_cons, except_bind_eq_ok] at h
      obtain ⟨t, ht, hrest⟩ := h
      have hP := hstep s hs z List.mem_cons_self t ht
      exact ih (fun s hs z hz => hstep s hs z (List.mem_cons_of_mem _ hz)) hP hrest

/-- A loop none of whose rounds fails succeeds. -/
theorem foldlM_succeeds (hstep : ∀ s, P s → ∀ z ∈ zs, ∃ s', step s z = .ok s' ∧ P s') (hs : P s) :
    ∃ s', zs.foldlM step s = .ok s' ∧ P s' := by
  induction zs generalizing s with
  | nil => exact ⟨s, rfl, hs⟩
  | cons z zs ih =>
      obtain ⟨t, ht, hP⟩ := hstep s hs z List.mem_cons_self
      obtain ⟨s', hs', hP'⟩ := ih (fun s hs z hz => hstep s hs z (List.mem_cons_of_mem _ hz)) hP
      refine ⟨s', ?_, hP'⟩
      rw [List.foldlM_cons, except_bind_eq_ok]
      exact ⟨t, ht, hs'⟩

/-- The error of a loop over a state is that of one of its rounds. -/
theorem foldlM_eq_error {e : ε} (h : zs.foldlM step s = .error e) :
    ∃ t, ∃ z ∈ zs, step t z = .error e := by
  induction zs generalizing s with
  | nil => cases h
  | cons z zs ih =>
      rw [List.foldlM_cons] at h
      rcases except_bind_eq_error.mp h with h | ⟨t, -, h⟩
      · exact ⟨s, z, List.mem_cons_self, h⟩
      · obtain ⟨t, z', hz', ht⟩ := ih h
        exact ⟨t, z', List.mem_cons_of_mem _ hz', ht⟩

/-- **A loop over related elements** whose rounds keep a relation of the states keeps it. -/
theorem foldlM_simulates {γ' : Type*} {σ' : Type v} {step' : σ' → γ' → Except ε σ'}
    {R : σ → σ' → Prop} {S : γ → γ' → Prop} {zs' : List γ'} {t : σ}
    (hstep : ∀ s s' z z' t, R s s' → S z z' → step s z = .ok t →
      ∃ t', step' s' z' = .ok t' ∧ R t t')
    (hzs : List.Forall₂ S zs zs') {s : σ} {s' : σ'} (hs : R s s') (h : zs.foldlM step s = .ok t) :
    ∃ t', zs'.foldlM step' s' = .ok t' ∧ R t t' := by
  induction hzs generalizing s s' with
  | nil =>
      cases h
      exact ⟨s', rfl, hs⟩
  | @cons z z' zs zs' hz _ ih =>
      rw [List.foldlM_cons, except_bind_eq_ok] at h
      obtain ⟨mid, hmid, h⟩ := h
      obtain ⟨mid', hmid', hR⟩ := hstep s s' z z' mid hs hz hmid
      obtain ⟨t', ht', hR'⟩ := ih hR h
      refine ⟨t', ?_, hR'⟩
      rw [List.foldlM_cons, except_bind_eq_ok]
      exact ⟨mid', hmid', ht'⟩

end Loops

/-- A loop that gives related elements related results. -/
theorem mapM_simulates {α α' β' : Type*} {f : α → Except ε β} {f' : α' → Except ε β'}
    {R : α → α' → Prop} {S : β → β' → Prop} {xs : List α} {xs' : List α'} {ys : List β}
    (hstep : ∀ x x' y, R x x' → f x = .ok y → ∃ y', f' x' = .ok y' ∧ S y y')
    (hxs : List.Forall₂ R xs xs') (h : xs.mapM f = .ok ys) :
    ∃ ys', xs'.mapM f' = .ok ys' ∧ List.Forall₂ S ys ys' := by
  induction hxs generalizing ys with
  | nil =>
      cases h
      exact ⟨[], rfl, .nil⟩
  | @cons x x' xs xs' hx _ ih =>
      rw [List.mapM_cons, except_bind_eq_ok] at h
      obtain ⟨y, hy, h⟩ := h
      obtain ⟨ys, hys, h⟩ := except_bind_eq_ok.mp h
      cases h
      obtain ⟨y', hy', hS⟩ := hstep x x' y hx hy
      obtain ⟨ys', hys', hSs⟩ := ih hys
      refine ⟨y' :: ys', ?_, .cons hS hSs⟩
      rw [List.mapM_cons, hy', hys']
      rfl

/-- A loop that succeeds gives each element its own result. -/
theorem mapM_eq_ok {α : Type*} {f : α → Except ε β} {xs : List α} {ys : List β} :
    xs.mapM f = .ok ys ↔ List.Forall₂ (fun x y => f x = .ok y) xs ys := by
  induction xs generalizing ys with
  | nil =>
      rw [List.mapM_nil, List.forall₂_nil_left_iff]
      constructor
      · intro h
        cases h
        rfl
      · rintro rfl
        rfl
  | cons x xs ih =>
      rw [List.mapM_cons]
      simp only [except_bind_eq_ok]
      constructor
      · rintro ⟨y, hy, ys', hys, h⟩
        cases h
        exact .cons hy (ih.mp hys)
      · intro h
        cases h with
        | cons hy hys => exact ⟨_, hy, _, ih.mpr hys, rfl⟩

/-- Loops over related lists whose rounds agree. -/
theorem mapM_congr_forall₂ {α α' : Type*} {R : α → α' → Prop} {f : α → Except ε β}
    {g : α' → Except ε β} {xs : List α} {ys : List α'} (h : List.Forall₂ R xs ys)
    (heq : ∀ x y, R x y → f x = g y) : xs.mapM f = ys.mapM g := by
  induction h with
  | nil => rfl
  | cons hR _ ih => rw [List.mapM_cons, List.mapM_cons, heq _ _ hR, ih]

theorem mapM_succeeds {α : Type*} {f : α → Except ε β} {xs : List α}
    (h : ∀ x ∈ xs, ∃ y, f x = .ok y) : ∃ ys, xs.mapM f = .ok ys := by
  induction xs with
  | nil => exact ⟨[], rfl⟩
  | cons x xs ih =>
      obtain ⟨y, hy⟩ := h x List.mem_cons_self
      obtain ⟨ys, hys⟩ := ih fun x hx => h x (List.mem_cons_of_mem _ hx)
      exact ⟨y :: ys, mapM_eq_ok.mpr (.cons hy (mapM_eq_ok.mp hys))⟩

/-- The error of a loop is that of one of its rounds. -/
theorem mapM_eq_error {α : Type*} {f : α → Except ε β} {xs : List α} {e : ε}
    (h : xs.mapM f = .error e) : ∃ x ∈ xs, f x = .error e := by
  induction xs with
  | nil => cases h
  | cons x xs ih =>
      rw [List.mapM_cons] at h
      rcases except_bind_eq_error.mp h with hx | ⟨y, -, h⟩
      · exact ⟨x, List.mem_cons_self, hx⟩
      · rcases except_bind_eq_error.mp h with hxs | ⟨ys, -, h⟩
        · obtain ⟨z, hz, hze⟩ := ih hxs
          exact ⟨z, List.mem_cons_of_mem x hz, hze⟩
        · cases h

/-- Where an `Option` step over a list gives nothing, it does so at one of the elements. -/
theorem mapM_eq_none {α : Type*} {β : Type v} {f : α → Option β} {xs : List α}
    (h : xs.mapM f = none) : ∃ x ∈ xs, f x = none := by
  induction xs with
  | nil => simp at h
  | cons x xs ih =>
      cases hx : f x with
      | none => exact ⟨x, List.mem_cons_self, hx⟩
      | some y =>
          cases hxs : xs.mapM f with
          | none =>
              obtain ⟨z, hz, hnone⟩ := ih hxs
              exact ⟨z, List.mem_cons_of_mem x hz, hnone⟩
          | some ys => simp [hx, hxs] at h

/-- A check of every element succeeds when each check does. -/
theorem forM_eq_ok {α : Type*} {f : α → Except ε PUnit.{v + 1}} {xs : List α} {u : PUnit.{v + 1}} :
    xs.forM f = .ok u ↔ ∀ x ∈ xs, f x = .ok ⟨⟩ := by
  induction xs with
  | nil =>
      constructor
      · intro _ x hx
        cases hx
      · intro _
        rfl
  | cons x xs ih =>
      change (f x >>= fun _ => xs.forM f) = .ok u ↔ _
      rw [except_bind_eq_ok]
      constructor
      · rintro ⟨_, hx, hxs⟩
        exact List.forall_mem_cons.mpr ⟨hx, ih.mp hxs⟩
      · intro h
        obtain ⟨hx, hxs⟩ := List.forall_mem_cons.mp h
        exact ⟨_, hx, ih.mpr hxs⟩

/-- The elements for which the check gives `true`, every element being checked. -/
def filterOk {α : Type} (f : α → Except ε Bool) (xs : List α) : Except ε (List α) :=
  (xs.mapM f).map fun flags => ((xs.zip flags).filter Prod.snd).map Prod.fst

section Filter

variable {α : Type} {f : α → Except ε Bool} {xs ys : List α}

theorem mem_filterOk (h : filterOk f xs = .ok ys) {x : α} : x ∈ ys ↔ x ∈ xs ∧ f x = .ok true := by
  obtain ⟨flags, hflags, rfl⟩ := except_map_eq_ok.mp h
  have hpairs := mapM_eq_ok.mp hflags
  rw [List.forall₂_iff_zip] at hpairs
  constructor
  · intro hx
    obtain ⟨⟨y, flag⟩, hmem, rfl⟩ := List.mem_map.mp hx
    obtain ⟨hmem, hflag⟩ := List.mem_filter.mp hmem
    obtain rfl : flag = true := hflag
    exact ⟨(List.of_mem_zip hmem).1, hpairs.2 hmem⟩
  · rintro ⟨hx, hf⟩
    obtain ⟨i, hi, rfl⟩ := List.getElem_of_mem hx
    have hi' : i < flags.length := hpairs.1 ▸ hi
    have hmem : (xs[i], flags[i]) ∈ xs.zip flags := by
      rw [← List.getElem_zip (h := by rw [List.length_zip]; omega)]
      exact List.getElem_mem _
    have hflag := hpairs.2 hmem
    rw [hf, Except.ok.injEq] at hflag
    exact List.mem_map.mpr ⟨_, List.mem_filter.mpr ⟨hmem, hflag.symm⟩, rfl⟩

theorem filterOk_error {e : ε} (h : filterOk f xs = .error e) : ∃ x ∈ xs, f x = .error e := by
  unfold filterOk at h
  cases hflags : xs.mapM f with
  | error e' =>
      rw [hflags] at h
      cases h
      exact mapM_eq_error hflags
  | ok flags =>
      rw [hflags] at h
      cases h

theorem filterOk_succeeds (h : ∀ x ∈ xs, ∃ b, f x = .ok b) : ∃ ys, filterOk f xs = .ok ys := by
  obtain ⟨flags, hflags⟩ := mapM_succeeds h
  exact ⟨_, except_map_eq_ok.mpr ⟨flags, hflags, rfl⟩⟩

end Filter

end Yeodam.Lib
