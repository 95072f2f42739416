/-
Rounding and medians over exact numbers.

`roundHalfEven` is Python's `round` to an integer: the nearest one, an even one at a tie.
A shift by an integer shifts what is rounded except at a tie (`roundHalfEven_sub_int`), and
shifts every median (`median_map_sub`).
-/

import Mathlib.Algebra.Order.Floor.Ring
import Mathlib.Data.Rat.Floor
import Mathlib.Data.List.Sort
import Mathlib.Tactic.Linarith
import Mathlib.Tactic.NormNum
import Mathlib.Tactic.Ring

namespace Yeodam.Lib

/-- `round(q)`. -/
def roundHalfEven (q : ℚ) : Int :=
  let below := ⌊q⌋
  if q - below < 1 / 2 then below
  else if 1 / 2 < q - below then below + 1
  else if below % 2 = 0 then below
  else below + 1

/-- `np.median(values)`, 0 where there are none. -/
def median (values : List ℚ) : ℚ :=
  let sorted := values.insertionSort (· ≤ ·)
  let upper := sorted.getD (sorted.length / 2) 0
  if sorted.length % 2 = 1 then upper
  else (sorted.getD (sorted.length / 2 - 1) 0 + upper) / 2

/-! ### Shifting -/

/-- Away from ties a shift by an integer shifts what is rounded; at a tie the parity decides. -/
theorem roundHalfEven_sub_int {q : ℚ} (k : Int) (htie : q - ⌊q⌋ ≠ 1 / 2) :
    roundHalfEven (q - k) = roundHalfEven q - k := by
  have hfloor : ⌊q - (k : ℚ)⌋ = ⌊q⌋ - k := Int.floor_sub_intCast q k
  have hrest : q - (k : ℚ) - ((⌊q⌋ - k : Int) : ℚ) = q - ⌊q⌋ := by
    push_cast
    ring
  unfold roundHalfEven
  dsimp only
  rw [hfloor, hrest]
  by_cases hbelow : q - ⌊q⌋ < 1 / 2
  · rw [if_pos hbelow, if_pos hbelow]
  · have habove : 1 / 2 < q - ⌊q⌋ := lt_of_le_of_ne (not_lt.mp hbelow) (Ne.symm htie)
    rw [if_neg hbelow, if_neg hbelow, if_pos habove, if_pos habove]
    omega

/-- A number is half between two integers exactly if it is rounded by a half. -/
theorem abs_sub_roundHalfEven_eq_half {q : ℚ} :
    |q - roundHalfEven q| = 1 / 2 ↔ q - ⌊q⌋ = 1 / 2 := by
  have hlow := Int.floor_le q
  have hhigh := Int.lt_floor_add_one q
  unfold roundHalfEven
  dsimp only
  constructor
  · intro h
    split at h
    · rwa [abs_of_nonneg (by linarith)] at h
    rename_i hbelow
    split at h
    · push_cast at h
      rw [abs_of_neg (by linarith)] at h
      linarith
    · linarith
  · intro h
    rw [if_neg (by rw [h]; exact lt_irrefl _), if_neg (by rw [h]; exact lt_irrefl _)]
    split
    · rw [h]
      norm_num
    · push_cast
      rw [← sub_sub, h]
      norm_num

theorem median_map_sub {values : List ℚ} (h : values ≠ []) (c : ℚ) :
    median (values.map fun v => v - c) = median values - c := by
  have hsorted : (values.map fun v => v - c).insertionSort (· ≤ ·) =
      (values.insertionSort (· ≤ ·)).map fun v => v - c := by
    refine (List.map_insertionSort _ _ _ _ fun a _ b _ => ?_).symm
    exact (sub_le_sub_iff_right c).symm
  have hpos : 0 < (values.insertionSort (· ≤ ·)).length := by
    rw [List.length_insertionSort]
    exact List.length_pos_of_ne_nil h
  unfold median
  dsimp only
  rw [hsorted, List.length_map]
  generalize values.insertionSort (· ≤ ·) = sorted at hpos
  have hget : ∀ i < sorted.length, (sorted.map fun v => v - c).getD i 0 = sorted.getD i 0 - c := by
    intro i hi
    rw [List.getD_eq_getElem?_getD, List.getD_eq_getElem?_getD, List.getElem?_map,
      List.getElem?_eq_getElem hi, Option.map_some, Option.getD_some, Option.getD_some]
  rw [hget _ (by omega), hget _ (by omega)]
  split
  · rfl
  · ring

/-- A median does not depend on the order of the values. -/
theorem median_perm {values values' : List ℚ} (h : values.Perm values') :
    median values = median values' := by
  have hsorted : values.insertionSort (· ≤ ·) = values'.insertionSort (· ≤ ·) := by
    have hperm := (List.perm_insertionSort (· ≤ ·) values).trans
      (h.trans (List.perm_insertionSort (· ≤ ·) values').symm)
    exact hperm.eq_of_pairwise (fun a b _ _ => le_antisymm)
      (List.pairwise_insertionSort _ values) (List.pairwise_insertionSort _ values')
  unfold median
  rw [hsorted]

end Yeodam.Lib
