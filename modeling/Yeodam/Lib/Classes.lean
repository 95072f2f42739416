/-
Equivalences kept by a representative: two elements are equivalent when a function sends
them to the same one, `Setoid.ker`.

Joining the classes of two representatives is renaming one to the other (`ker_rename`), so
a sequence of such joins gives the finest equivalence that relates every pair joined.
`Setoid` is a complete lattice; `eqvGen_or` and `sup_eqvGen_apply` are the rules to add up
and to read off what was joined.
-/

import Mathlib.Data.Setoid.Basic
import Mathlib.Order.CompletePartialOrder
import Mathlib.Order.ConditionallyCompleteLattice.Basic
import Mathlib.Order.GaloisConnection.Basic

namespace Yeodam.Lib

universe u v

variable {α : Type u} {β : Type v} {r s : α → α → Prop} {f : α → α} {a b x y : α}

theorem eqvGen_or (r s : α → α → Prop) :
    Relation.EqvGen.setoid (fun x y => r x y ∨ s x y) =
      Relation.EqvGen.setoid r ⊔ Relation.EqvGen.setoid s :=
  GaloisConnection.l_sup Setoid.gi.gc

theorem eqvGen_congr (h : ∀ x y, r x y ↔ s x y) :
    Relation.EqvGen.setoid r = Relation.EqvGen.setoid s :=
  congrArg _ (funext fun x => funext fun y => propext (h x y))

/-- Nothing joined. -/
theorem eqvGen_of_eq (h : ∀ x y, r x y → x = y) : Relation.EqvGen.setoid r = ⊥ :=
  le_bot_iff.mp (Setoid.eqvGen_le h)

theorem sup_eqvGen_apply {g : α → β} :
    (Setoid.ker g ⊔ Relation.EqvGen.setoid r) x y ↔
      Relation.EqvGen (fun x y => g x = g y ∨ r x y) x y := by
  have hker : Relation.EqvGen.setoid (fun x y => g x = g y) = Setoid.ker g :=
    Setoid.eqvGen_of_setoid (Setoid.ker g)
  rw [← hker, ← eqvGen_or]
  rfl

/-- **Renaming one representative to another joins their classes** and no others. -/
theorem ker_rename [DecidableEq α] (hidem : ∀ x, f (f x) = f x) (ha : f a = a) (hb : f b = b) :
    Setoid.ker (fun x => if f x = a then b else f x) =
      Setoid.ker f ⊔ Relation.EqvGen.setoid (fun x y => x = a ∧ y = b) := by
  refine le_antisymm ?_ (sup_le ?_ (Setoid.eqvGen_le ?_))
  · intro x y hxy
    have hrename : ∀ x, (Setoid.ker f ⊔ Relation.EqvGen.setoid (fun x y => x = a ∧ y = b)) x
        (if f x = a then b else f x) := by
      intro x
      refine sup_eqvGen_apply.mpr (.trans _ (f x) _ (.rel _ _ (.inl (hidem x).symm)) ?_)
      split
      · rename_i hx
        exact .rel _ _ (.inr ⟨hx, rfl⟩)
      · exact .refl _
    have hy := Setoid.symm' _ (hrename y)
    rw [Setoid.ker_def] at hxy
    exact Setoid.trans' _ (hxy ▸ hrename x) hy
  · intro x y hxy
    rw [Setoid.ker_def] at hxy ⊢
    rw [hxy]
  · rintro x y ⟨rfl, rfl⟩
    rw [Setoid.ker_def, ha, hb, if_pos rfl]
    split <;> rfl

end Yeodam.Lib
