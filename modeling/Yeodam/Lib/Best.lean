/-
The only best element of a list, and pairs that choose each other.

`OnlyBest f xs x`: `x` stands in `xs` once and everything else there is of less value. It does not
depend on the order of the list, and there is at most one. Two elements of two lists that are each
other's only best form a pair; such pairs are a matching (`nodup_of_mutual`).
-/

import Mathlib

namespace Yeodam.Lib

variable {α β κ : Type*} [LinearOrder κ] {f : α → κ} {xs ys : List α} {x y : α}

def OnlyBest (f : α → κ) (xs : List α) (x : α) : Prop :=
  ∃ rest, xs.Perm (x :: rest) ∧ ∀ y ∈ rest, f y < f x

theorem OnlyBest.mem (h : OnlyBest f xs x) : x ∈ xs := by
  obtain ⟨rest, hperm, -⟩ := h
  exact hperm.mem_iff.mpr List.mem_cons_self

theorem OnlyBest.unique (h : OnlyBest f xs x) (h' : OnlyBest f xs y) : x = y := by
  obtain ⟨rest, hperm, hless⟩ := h
  obtain ⟨rest', hperm', hless'⟩ := h'
  rcases List.mem_cons.mp (hperm.mem_iff.mp (hperm'.mem_iff.mpr List.mem_cons_self)) with hy | hy
  · exact hy.symm
  rcases List.mem_cons.mp (hperm'.mem_iff.mp (hperm.mem_iff.mpr List.mem_cons_self)) with hx | hx
  · exact hx
  · exact absurd (hless y hy) (hless' x hx).asymm

theorem onlyBest_perm (h : xs.Perm ys) : OnlyBest f xs x ↔ OnlyBest f ys x := by
  constructor
  · rintro ⟨rest, hperm, hless⟩
    exact ⟨rest, h.symm.trans hperm, hless⟩
  · rintro ⟨rest, hperm, hless⟩
    exact ⟨rest, h.trans hperm, hless⟩

/-- The only best element by its position. -/
theorem onlyBest_iff_getElem? {i : Nat} (hx : xs[i]? = some x) :
    OnlyBest f xs x ↔ ∀ (j : Nat) (y : α), j ≠ i → xs[j]? = some y → f y < f x := by
  have herase : xs.Perm (x :: xs.eraseIdx i) := by
    obtain ⟨hi, rfl⟩ := List.getElem?_eq_some_iff.mp hx
    exact (List.getElem_cons_eraseIdx_perm hi).symm
  have hmem : ∀ y, y ∈ xs.eraseIdx i ↔ ∃ j, j ≠ i ∧ xs[j]? = some y := by
    intro y
    rw [List.mem_eraseIdx_iff_getElem?]
  constructor
  · rintro ⟨rest, hperm, hless⟩ j y hj hy
    have hrest : rest.Perm (xs.eraseIdx i) := (hperm.symm.trans herase).cons_inv
    exact hless y (hrest.mem_iff.mpr ((hmem y).mpr ⟨j, hj, hy⟩))
  · intro hless
    refine ⟨xs.eraseIdx i, herase, fun y hy => ?_⟩
    obtain ⟨j, hj, hy⟩ := (hmem y).mp hy
    exact hless j y hj hy

/-- Each of the two is the other's only best. -/
def Mutual (f : α → β → κ) (xs : List α) (ys : List β) (pair : α × β) : Prop :=
  OnlyBest (f pair.1) ys pair.2 ∧ OnlyBest (fun x => f x pair.2) xs pair.1

/-- **Mutual pairs are a matching.** -/
theorem nodup_of_mutual {f : α → β → κ} {ys : List β} {pairs : List (α × β)} (hnodup : pairs.Nodup)
    (h : ∀ pair ∈ pairs, Mutual f xs ys pair) :
    (pairs.map Prod.fst).Nodup ∧ (pairs.map Prod.snd).Nodup := by
  constructor
  · refine hnodup.map_on fun p hp q hq heq => Prod.ext heq ?_
    have hq' := (h q hq).1
    rw [← heq] at hq'
    exact (h p hp).1.unique hq'
  · refine hnodup.map_on fun p hp q hq heq => Prod.ext ?_ heq
    have hq' := (h q hq).2
    rw [← heq] at hq'
    exact (h p hp).2.unique hq'

theorem mutual_perm {f : α → β → κ} {xs' : List α} {ys ys' : List β} {pair : α × β}
    (hxs : xs.Perm xs') (hys : ys.Perm ys') : Mutual f xs ys pair ↔ Mutual f xs' ys' pair :=
  and_congr (onlyBest_perm hys) (onlyBest_perm hxs)

end Yeodam.Lib
