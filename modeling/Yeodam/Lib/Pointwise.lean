/-
Two lists related element by element, `List.Forall₂`, as the input and the output of a loop
over a list are.
-/

import Mathlib.Data.List.Forall2

namespace Yeodam.Lib

variable {α β γ : Type*} {R : α → β → Prop} {S : β → γ → Prop} {T : α → γ → Prop}
  {xs : List α} {ys : List β} {zs : List γ}

theorem forall₂_trans (hcomp : ∀ a b c, R a b → S b c → T a c) (h : List.Forall₂ R xs ys)
    (h' : List.Forall₂ S ys zs) : List.Forall₂ T xs zs := by
  induction h generalizing zs with
  | nil =>
      cases h'
      exact .nil
  | cons hR _ ih =>
      cases h' with
      | cons hS hrest => exact .cons (hcomp _ _ _ hR hS) (ih hrest)

theorem exists_left_of_forall₂ (h : List.Forall₂ R xs ys) {y : β} (hy : y ∈ ys) :
    ∃ x ∈ xs, R x y := by
  induction h with
  | nil => cases hy
  | cons hR _ ih =>
      rcases List.mem_cons.mp hy with rfl | hy
      · exact ⟨_, List.mem_cons_self, hR⟩
      · obtain ⟨x, hx, hxy⟩ := ih hy
        exact ⟨x, List.mem_cons_of_mem _ hx, hxy⟩

theorem exists_right_of_forall₂ (h : List.Forall₂ R xs ys) {x : α} (hx : x ∈ xs) :
    ∃ y ∈ ys, R x y := by
  induction h with
  | nil => cases hx
  | cons hR _ ih =>
      rcases List.mem_cons.mp hx with rfl | hx
      · exact ⟨_, List.mem_cons_self, hR⟩
      · obtain ⟨y, hy, hxy⟩ := ih hx
        exact ⟨y, List.mem_cons_of_mem _ hy, hxy⟩

theorem exists_forall₂ (h : ∀ x ∈ xs, ∃ y, R x y) : ∃ ys, List.Forall₂ R xs ys := by
  induction xs with
  | nil => exact ⟨[], .nil⟩
  | cons x xs ih =>
      obtain ⟨y, hy⟩ := h x List.mem_cons_self
      obtain ⟨ys, hys⟩ := ih fun x hx => h x (List.mem_cons_of_mem _ hx)
      exact ⟨y :: ys, .cons hy hys⟩

/-- The elements related are elements of the lists. -/
theorem forall₂_mem (h : List.Forall₂ R xs ys) :
    List.Forall₂ (fun x y => R x y ∧ x ∈ xs ∧ y ∈ ys) xs ys := by
  rw [List.forall₂_iff_zip] at h ⊢
  refine ⟨h.1, fun hmem => ?_⟩
  obtain ⟨hx, hy⟩ := List.of_mem_zip hmem
  exact ⟨h.2 hmem, hx, hy⟩

/-- Lists whose elements agree under two functions. -/
theorem map_eq_of_forall₂ {δ : Type*} {f : α → δ} {g : β → δ} (h : List.Forall₂ R xs ys)
    (heq : ∀ x y, R x y → g y = f x) : ys.map g = xs.map f := by
  induction h with
  | nil => rfl
  | cons hR _ ih => rw [List.map_cons, List.map_cons, heq _ _ hR, ih]

theorem forall₂_map (f : α → β) (h : ∀ x ∈ xs, R x (f x)) : List.Forall₂ R xs (xs.map f) := by
  induction xs with
  | nil => exact .nil
  | cons x xs ih =>
      have hrest := ih fun x hx => h x (List.mem_cons_of_mem _ hx)
      exact .cons (h x List.mem_cons_self) hrest

theorem forall₂_append_left {xs' : List α} (h : List.Forall₂ R (xs ++ xs') ys) :
    ∃ us vs, List.Forall₂ R xs us ∧ List.Forall₂ R xs' vs ∧ ys = us ++ vs := by
  induction xs generalizing ys with
  | nil => exact ⟨[], ys, .nil, h, rfl⟩
  | cons x xs ih =>
      cases h with
      | cons hR hrest =>
          obtain ⟨us, vs, hus, hvs, rfl⟩ := ih hrest
          exact ⟨_ :: us, vs, .cons hR hus, hvs, rfl⟩

/-- What holds of any two elements on the left holds of those they are related to. -/
theorem pairwise_of_forall₂ {P : α → α → Prop} {Q : β → β → Prop} (h : List.Forall₂ R xs ys)
    (himp : ∀ a a' b b', R a b → R a' b' → P a a' → Q b b') (hxs : xs.Pairwise P) :
    ys.Pairwise Q := by
  induction h with
  | nil => exact .nil
  | cons hR hrest ih =>
      obtain ⟨hhead, htail⟩ := List.pairwise_cons.mp hxs
      refine List.pairwise_cons.mpr ⟨fun b hb => ?_, ih htail⟩
      obtain ⟨a, ha, hab⟩ := exists_left_of_forall₂ hrest hb
      exact himp _ a _ b hR hab (hhead a ha)

/-- A loop all of whose results are on the right. -/
theorem forall₂_inr {R : α → β ⊕ γ → Prop} {ys : List (β ⊕ γ)} (h : List.Forall₂ R xs ys)
    (hleft : ys.filterMap Sum.getLeft? = []) :
    List.Forall₂ (fun x c => R x (.inr c)) xs (ys.filterMap Sum.getRight?) := by
  induction h with
  | nil => exact .nil
  | @cons x y xs ys hR _ ih =>
      cases y with
      | inl b => cases hleft
      | inr c => exact .cons hR (ih hleft)

/-- A test that fewer elements pass. -/
theorem countP_lt_countP {p q : α → Bool} (himp : ∀ x ∈ xs, q x = true → p x = true) {x : α}
    (hx : x ∈ xs) (hp : p x = true) (hq : q x = false) : xs.countP q < xs.countP p := by
  obtain ⟨before, after, rfl⟩ := List.append_of_mem hx
  have hbefore := List.countP_mono_left (p := q) (q := p) (l := before)
    fun y hy => himp y (List.mem_append_left _ hy)
  have hafter := List.countP_mono_left (p := q) (q := p) (l := after)
    fun y hy => himp y (List.mem_append_right _ (List.mem_cons_of_mem _ hy))
  rw [List.countP_append, List.countP_append, List.countP_cons_of_pos hp,
    List.countP_cons_of_neg (by rw [hq]; exact Bool.false_ne_true)]
  omega

end Yeodam.Lib
