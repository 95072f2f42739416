/-
Computations that do not depend on the order of a list.

Sorting by a key without ties forgets the order (`sortOn_eq_of_perm`); a loop over a list in
another order gives its results in another order (`mapM_perm`), and the groups of one are the same
groups in another order (`groupOn_perm`).
-/

import Mathlib.Data.List.Perm.Basic
import Yeodam.Lib.Except
import Yeodam.Lib.Keyed

namespace Yeodam.Lib

universe u v w

variable {α : Type u} {β : Type w} {κ : Type v} {xs ys : List α}

/-! ### Sorting -/

section Sorting

variable [LinearOrder κ] {key : α → κ}

/-- **Without ties, what is sorted does not depend on the order before.** -/
theorem sortOn_eq_of_perm (hkeys : (xs.map key).Nodup) (h : xs.Perm ys) :
    sortOn key xs = sortOn key ys := by
  have hperm : (sortOn key xs).Perm (sortOn key ys) :=
    (sortOn_perm key xs).trans (h.trans (sortOn_perm key ys).symm)
  refine hperm.eq_of_pairwise (fun a b ha hb hab hba => ?_) (pairwise_sortOn key xs)
    (pairwise_sortOn key ys)
  exact List.inj_on_of_nodup_map hkeys (mem_sortOn.mp ha) (h.mem_iff.mpr (mem_sortOn.mp hb))
    (le_antisymm hab hba)

theorem map_sortOn {f : α → β} {key' : β → κ} (h : ∀ x, key' (f x) = key x) :
    (sortOn key xs).map f = sortOn key' (xs.map f) :=
  List.map_insertionSort _ _ f xs fun a _ b _ => by rw [h, h]

end Sorting

/-- Related lists in the order of keys that agree. -/
theorem forall₂_sortOn {κ κ' : Type*} [LinearOrder κ] [LinearOrder κ'] {α β : Type*}
    {R : α → β → Prop} {key : α → κ} {key' : β → κ'} {xs : List α} {ys : List β}
    (hkey : ∀ a b a' b', R a b → R a' b' → (key a ≤ key a' ↔ key' b ≤ key' b'))
    (h : List.Forall₂ R xs ys) : List.Forall₂ R (sortOn key xs) (sortOn key' ys) := by
  obtain ⟨hlength, hpairs⟩ := List.forall₂_iff_zip.mp h
  have hxs : xs = (xs.zip ys).map Prod.fst := (List.map_fst_zip (Nat.le_of_eq hlength)).symm
  have hys : ys = (xs.zip ys).map Prod.snd := (List.map_snd_zip (Nat.le_of_eq hlength.symm)).symm
  have hsorted : (xs.zip ys).insertionSort (fun a b => key a.1 ≤ key b.1) =
      (xs.zip ys).insertionSort fun a b => key' a.2 ≤ key' b.2 := by
    conv_lhs => rw [← List.map_id ((xs.zip ys).insertionSort fun a b => key a.1 ≤ key b.1)]
    rw [List.map_insertionSort _ (fun a b => key' a.2 ≤ key' b.2) id]
    · rw [List.map_id]
    · intro a ha b hb
      exact hkey a.1 a.2 b.1 b.2 (hpairs ha) (hpairs hb)
  have hfst : sortOn key xs =
      ((xs.zip ys).insertionSort fun a b => key a.1 ≤ key b.1).map Prod.fst := by
    conv_lhs => rw [hxs]
    exact (List.map_insertionSort _ _ Prod.fst _ fun _ _ _ _ => Iff.rfl).symm
  have hsnd : sortOn key' ys =
      ((xs.zip ys).insertionSort fun a b => key' a.2 ≤ key' b.2).map Prod.snd := by
    conv_lhs => rw [hys]
    exact (List.map_insertionSort _ _ Prod.snd _ fun _ _ _ _ => Iff.rfl).symm
  rw [hfst, hsnd, ← hsorted, List.forall₂_map_left_iff, List.forall₂_map_right_iff,
    List.forall₂_same]
  intro pair hpair
  exact hpairs ((List.mem_insertionSort _).mp hpair)

/-! ### Looking up -/

section Finding

variable [DecidableEq κ] {f : α → κ} {k : κ} {x : α}

end Finding

/-! ### Loops -/

section Loops

variable {ε : Type u} {f : α → Except ε β}

/-- The results of a loop over a list in another order. -/
theorem mapM_perm {zs : List β} (h : xs.Perm ys) (hys : ys.mapM f = .ok zs) :
    ∃ ws, xs.mapM f = .ok ws ∧ ws.Perm zs := by
  obtain ⟨ws, hws, hperm⟩ := List.perm_comp_forall₂ h (mapM_eq_ok.mp hys)
  exact ⟨ws, mapM_eq_ok.mpr hws, hperm⟩

end Loops

/-! ### Groups -/

section Groups

variable [DecidableEq κ] {key : α → κ}

theorem eraseDups_perm {ks ks' : List κ} (h : ks.Perm ks') : ks.eraseDups.Perm ks'.eraseDups := by
  rw [List.perm_ext_iff_of_nodup (nodup_eraseDups ks) (nodup_eraseDups ks')]
  intro k
  rw [List.mem_eraseDups, List.mem_eraseDups, h.mem_iff]

/-- **The groups of a list in another order**, as far as `f` tells their members apart. -/
theorem groupOn_perm {f : κ × List α → β} (h : xs.Perm ys)
    (hf : ∀ k, f (k, xs.filter fun x => key x = k) = f (k, ys.filter fun x => key x = k)) :
    ((groupOn key xs).map f).Perm ((groupOn key ys).map f) := by
  rw [groupOn, groupOn, List.map_map, List.map_map]
  have hmembers : ∀ ks : List κ, ks.map (f ∘ fun k => (k, xs.filter fun x => key x = k)) =
      ks.map (f ∘ fun k => (k, ys.filter fun x => key x = k)) :=
    fun ks => List.map_congr_left fun k _ => hf k
  rw [hmembers]
  exact (eraseDups_perm (h.map key)).map _

end Groups

end Yeodam.Lib
