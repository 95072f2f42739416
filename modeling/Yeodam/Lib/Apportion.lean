/-
Apportionment by largest remainders.

`R` units are shared out in proportion to weights `ws`: each weight gets its quota rounded down,
and what is left goes, one unit each, to the largest remainders. The remainders sum to a multiple
of the total weight and each is below it, so there are more positive ones than units left
(`left_le_countP`): no unit ever goes to a quota that is whole, and no share exceeds its weight.
-/

import Mathlib.Algebra.BigOperators.Group.List.Basic
import Mathlib.Algebra.Order.BigOperators.Group.List
import Mathlib.Algebra.Order.Field.Rat
import Mathlib.Data.Prod.Lex
import Mathlib.Data.Rat.Floor
import Mathlib.Tactic.Linarith
import Yeodam.Lib.Keyed

namespace Yeodam.Lib

universe u v

/-! ### The first of an ordered list -/

section Prefix

variable {α : Type u} {κ : Type v} [LinearOrder κ] {key : α → κ} {xs : List α} {k : ℕ} {x y : α}

/-- The first elements are among those `p` holds of, if there are enough of these and they come
first. -/
theorem forall_mem_take {p : α → Bool} (h : xs.Pairwise fun a b => p b = true → p a = true)
    (hk : k ≤ xs.countP p) (hx : x ∈ xs.take k) : p x = true := by
  induction xs generalizing k with
  | nil => simp at hx
  | cons a xs ih =>
      obtain ⟨ha, hxs⟩ := List.pairwise_cons.mp h
      cases k with
      | zero => simp at hx
      | succ k =>
          -- Were the first element not among them, none would be.
          have hfirst : p a = true := by
            by_contra hno
            have hnone : (a :: xs).countP p = 0 := by
              rw [List.countP_eq_zero]
              intro b hb hpb
              rcases List.mem_cons.mp hb with rfl | hb
              · exact hno hpb
              · exact hno (ha b hb hpb)
            omega
          rw [List.countP_cons_of_pos hfirst] at hk
          rcases List.mem_cons.mp hx with rfl | hx
          · exact hfirst
          · exact ih hxs (by omega) hx

/-- Whatever comes before one of the first elements is one of them. -/
theorem mem_take_of_lt (h : xs.Pairwise fun a b => key a < key b) (hx : x ∈ xs)
    (hlt : key x < key y) (hy : y ∈ xs.take k) : x ∈ xs.take k := by
  induction xs generalizing k with
  | nil => cases hx
  | cons a xs ih =>
      obtain ⟨ha, hxs⟩ := List.pairwise_cons.mp h
      cases k with
      | zero => simp at hy
      | succ k =>
          rw [List.take_succ_cons, List.mem_cons] at hy ⊢
          rcases List.mem_cons.mp hx with rfl | hx
          · exact .inl rfl
          · rcases hy with heq | hy
            · exact absurd (hlt.trans (heq ▸ ha x hx)) (lt_irrefl _)
            · exact .inr (ih hxs hx hy)

end Prefix

/-! ### One more at some positions -/

section Bump

variable {xs : List ℤ} {is : List ℕ} {i : ℕ}

/-- `for i in is: xs[i] += 1` -/
def bump (xs : List ℤ) (is : List ℕ) : List ℤ := is.foldl (fun xs i => xs.modify i (· + 1)) xs

@[simp] theorem length_bump : (bump xs is).length = xs.length := by
  induction is generalizing xs with
  | nil => rfl
  | cons i is ih =>
      rw [bump, List.foldl_cons, ← bump, ih, List.length_modify]

theorem getElem?_bump (h : is.Nodup) :
    (bump xs is)[i]? = xs[i]?.map fun x => if i ∈ is then x + 1 else x := by
  induction is generalizing xs with
  | nil => simp [bump]
  | cons j is ih =>
      obtain ⟨hj, his⟩ := List.nodup_cons.mp h
      rw [bump, List.foldl_cons, ← bump, ih his, List.getElem?_modify]
      by_cases hji : j = i
      · subst hji
        cases xs[j]? <;> simp [hj]
      · have hij : i ≠ j := fun heq => hji heq.symm
        cases xs[i]? <;> simp [hji, hij]

theorem sum_modify {x : ℤ} (h : xs[i]? = some x) : (xs.modify i (· + 1)).sum = xs.sum + 1 := by
  induction xs generalizing i with
  | nil => simp at h
  | cons a xs ih =>
      cases i with
      | zero =>
          rw [List.modify_zero_cons, List.sum_cons, List.sum_cons]
          ring
      | succ i =>
          rw [List.modify_succ_cons, List.sum_cons, List.sum_cons, ih (by simpa using h)]
          ring

theorem sum_bump (h : ∀ i ∈ is, i < xs.length) : (bump xs is).sum = xs.sum + is.length := by
  induction is generalizing xs with
  | nil => simp [bump]
  | cons i is ih =>
      obtain ⟨hi, his⟩ := List.forall_mem_cons.mp h
      rw [bump, List.foldl_cons, ← bump, ih (by simpa using his),
        sum_modify (List.getElem?_eq_getElem hi), List.length_cons]
      push_cast
      ring

end Bump

/-! ### Largest remainders -/

variable (R : ℤ) (ws : List ℤ)

/-- The quotas rounded down. -/
def floors : List ℤ := ws.map fun w => R * w / ws.sum

/-- The remainder at a position. -/
def remainder (i : ℕ) : ℤ := R * ws.getD i 0 % ws.sum

/-- The positions by decreasing remainder, equal ones in order. -/
def byRemainder : List ℕ :=
  sortOn (fun i => toLex (-remainder R ws i, i)) (List.range ws.length)

/-- The units left when all quotas are rounded down. -/
def left : ℤ := R - (floors R ws).sum

def largestRemainder : List ℤ := bump (floors R ws) ((byRemainder R ws).take (left R ws).toNat)

/-- The part of a weight in `R`. -/
def quota (w : ℤ) : ℚ := R * w / ws.sum

variable {R ws}

section Order

variable {i : ℕ}

theorem mem_byRemainder : i ∈ byRemainder R ws ↔ i < ws.length := by
  rw [byRemainder, mem_sortOn, List.mem_range]

theorem byRemainder_nodup : (byRemainder R ws).Nodup :=
  (sortOn_perm _ _).nodup_iff.mpr List.nodup_range

theorem pairwise_byRemainder : (byRemainder R ws).Pairwise fun i j =>
    toLex (-remainder R ws i, i) < toLex (-remainder R ws j, j) := by
  apply pairwise_lt_sortOn
  rw [List.nodup_map_iff_inj_on List.nodup_range]
  intro i _ j _ h
  exact congrArg (fun k => (ofLex k).2) h

end Order

/-! ### How many units are left -/

/-- Division with remainder, summed over the weights. -/
theorem sum_floor_remainder (W : ℤ) (ws : List ℤ) :
    W * (ws.map fun w => R * w / W).sum + (ws.map fun w => R * w % W).sum = R * ws.sum := by
  induction ws with
  | nil => simp
  | cons w ws ih =>
      have hw := Int.mul_ediv_add_emod (R * w) W
      simp only [List.map_cons, List.sum_cons]
      linarith [hw, ih, mul_add W (R * w / W) (ws.map fun w => R * w / W).sum, mul_add R w ws.sum]

theorem sum_le_mul_countP {W : ℤ} {xs : List ℤ} (h : ∀ x ∈ xs, 0 ≤ x ∧ x < W) :
    0 ≤ xs.sum ∧ xs.sum ≤ (W - 1) * xs.countP fun x => 0 < x := by
  induction xs with
  | nil => simp
  | cons x xs ih =>
      obtain ⟨⟨hx, hlt⟩, hxs⟩ := List.forall_mem_cons.mp h
      obtain ⟨hnonneg, hle⟩ := ih hxs
      rw [List.sum_cons]
      refine ⟨by omega, ?_⟩
      by_cases hpos : 0 < x
      · rw [List.countP_cons_of_pos (by simpa using hpos)]
        push_cast
        linarith [mul_add (W - 1) (xs.countP fun x => 0 < x : ℤ) 1]
      · rw [List.countP_cons_of_neg (by simpa using hpos)]
        omega

theorem left_mul (R : ℤ) (ws : List ℤ) :
    ws.sum * left R ws = (ws.map fun w => R * w % ws.sum).sum := by
  have hsum := sum_floor_remainder (R := R) ws.sum ws
  rw [left, floors, mul_sub]
  linarith [mul_comm R ws.sum]

theorem remainders_bounded (hW : 0 < ws.sum) :
    ∀ x ∈ ws.map fun w => R * w % ws.sum, 0 ≤ x ∧ x < ws.sum := by
  intro x hx
  obtain ⟨w, -, rfl⟩ := List.mem_map.mp hx
  exact ⟨Int.emod_nonneg _ hW.ne', Int.emod_lt_of_pos _ hW⟩

theorem left_nonneg (hW : 0 < ws.sum) : 0 ≤ left R ws := by
  have hmul := left_mul R ws
  obtain ⟨hnonneg, -⟩ := sum_le_mul_countP (remainders_bounded (R := R) hW)
  exact nonneg_of_mul_nonneg_right (hmul ▸ hnonneg) hW

theorem countP_byRemainder :
    (byRemainder R ws).countP (fun i => 0 < remainder R ws i) =
      (ws.map fun w => R * w % ws.sum).countP fun x => 0 < x := by
  rw [byRemainder, (sortOn_perm _ _).countP_eq]
  have hmap : (ws.map fun w => R * w % ws.sum) = (List.range ws.length).map (remainder R ws) := by
    refine List.ext_getElem? fun i => ?_
    unfold remainder
    by_cases hi : i < ws.length <;> simp [hi]
  rw [hmap, List.countP_map]
  rfl

/-- **There are positive remainders for all units that are left.** -/
theorem left_le_countP (hW : 0 < ws.sum) :
    (left R ws).toNat ≤ (byRemainder R ws).countP fun i => 0 < remainder R ws i := by
  rw [countP_byRemainder]
  obtain ⟨-, hle⟩ := sum_le_mul_countP (remainders_bounded (R := R) hW)
  rw [← left_mul] at hle
  generalize (ws.map fun w => R * w % ws.sum).countP (fun x => 0 < x) = n at hle
  by_contra hlt
  -- Then each remainder would have to make up a whole unit.
  have hn : (n : ℤ) + 1 ≤ left R ws := by omega
  have hmore : ws.sum * ((n : ℤ) + 1) ≤ ws.sum * left R ws := Int.mul_le_mul_of_nonneg_left hn hW.le
  have hexpand : ws.sum * ((n : ℤ) + 1) = (ws.sum - 1) * n + n + ws.sum := by ring
  have hn0 : 0 ≤ (n : ℤ) := Int.natCast_nonneg n
  omega

/-! ### The shares -/

section Shares

variable {i j : ℕ} {w w' r r' : ℤ}

/-- A share is its quota rounded down, and one more at the largest remainders. -/
theorem getElem?_largestRemainder (hw : ws[i]? = some w) :
    (largestRemainder R ws)[i]? = some (if i ∈ (byRemainder R ws).take (left R ws).toNat then
      R * w / ws.sum + 1 else R * w / ws.sum) := by
  rw [largestRemainder, getElem?_bump (byRemainder_nodup.sublist (List.take_sublist _ _)), floors,
    List.getElem?_map, hw]
  rfl

theorem remainder_eq (hw : ws[i]? = some w) : remainder R ws i = R * w % ws.sum := by
  rw [remainder, List.getD_eq_getElem?_getD, hw, Option.getD_some]

/-- Only quotas that are not whole are rounded up. -/
theorem remainder_pos (hW : 0 < ws.sum) (hi : i ∈ (byRemainder R ws).take (left R ws).toNat) :
    0 < remainder R ws i := by
  refine of_decide_eq_true (forall_mem_take (p := fun i => decide (0 < remainder R ws i)) ?_
    (left_le_countP hW) hi)
  refine pairwise_byRemainder.imp fun {a b} hab hb => ?_
  rw [decide_eq_true_eq] at hb ⊢
  rcases Prod.Lex.toLex_lt_toLex.mp hab with hlt | ⟨heq, -⟩
  · dsimp only at hlt
    omega
  · dsimp only at heq
    omega

theorem floor_quota (hW : 0 < ws.sum) : ⌊quota R ws w⌋ = R * w / ws.sum := by
  rw [quota, ← Int.cast_mul]
  refine Int.floor_eq_iff.mpr ⟨?_, ?_⟩
  · rw [le_div_iff₀ (by exact_mod_cast hW)]
    exact_mod_cast Int.ediv_mul_le (R * w) hW.ne'
  · rw [div_lt_iff₀ (by exact_mod_cast hW)]
    exact_mod_cast Int.lt_ediv_add_one_mul_self (R * w) hW

theorem ceil_quota (hW : 0 < ws.sum) (hrem : 0 < R * w % ws.sum) :
    ⌈quota R ws w⌉ = R * w / ws.sum + 1 := by
  rw [quota, ← Int.cast_mul]
  have hdiv := Int.mul_ediv_add_emod (R * w) ws.sum
  refine Int.ceil_eq_iff.mpr ⟨?_, ?_⟩
  · rw [lt_div_iff₀ (by exact_mod_cast hW)]
    push_cast
    have hlt : R * w / ws.sum * ws.sum < R * w := by
      rw [mul_comm (R * w / ws.sum)]
      omega
    have hcast : ((R * w / ws.sum * ws.sum : ℤ) : ℚ) < ((R * w : ℤ) : ℚ) := by exact_mod_cast hlt
    push_cast at hcast
    linarith
  · rw [div_le_iff₀ (by exact_mod_cast hW)]
    exact_mod_cast (Int.lt_ediv_add_one_mul_self (R * w) hW).le

/-- **A share is its quota, rounded down or up.** -/
theorem floor_or_ceil (hW : 0 < ws.sum) (hw : ws[i]? = some w)
    (hr : (largestRemainder R ws)[i]? = some r) :
    r = ⌊quota R ws w⌋ ∨ r = ⌈quota R ws w⌉ := by
  rw [getElem?_largestRemainder hw] at hr
  rw [floor_quota hW]
  split at hr
  · rename_i hi
    cases hr
    exact .inr (ceil_quota hW (remainder_eq hw ▸ remainder_pos hW hi)).symm
  · cases hr
    exact .inl rfl

/-- **The shares sum to what is shared out.** -/
theorem sum_largestRemainder (hW : 0 < ws.sum) : (largestRemainder R ws).sum = R := by
  have hle : (left R ws).toNat ≤ (byRemainder R ws).length :=
    (left_le_countP hW).trans List.countP_le_length
  have hlength : ((byRemainder R ws).take (left R ws).toNat).length = (left R ws).toNat :=
    List.length_take_of_le hle
  rw [largestRemainder, sum_bump, hlength, Int.toNat_of_nonneg (left_nonneg hW), left]
  · ring
  · intro i hi
    rw [floors, List.length_map]
    exact mem_byRemainder.mp (List.mem_of_mem_take hi)

/-- **No share exceeds its weight**, where no more is shared out than all weights together. -/
theorem largestRemainder_le (hR : 0 ≤ R) (hle : R ≤ ws.sum) (hW : 0 < ws.sum) (hnonneg : 0 ≤ w)
    (hw : ws[i]? = some w) (hr : (largestRemainder R ws)[i]? = some r) : 0 ≤ r ∧ r ≤ w := by
  rw [getElem?_largestRemainder hw] at hr
  have hquota : R * w ≤ w * ws.sum := by
    rw [mul_comm]
    exact Int.mul_le_mul_of_nonneg_left hle hnonneg
  have hfloor : 0 ≤ R * w / ws.sum := Int.ediv_nonneg (Int.mul_nonneg hR hnonneg) hW.le
  split at hr
  · rename_i hi
    cases hr
    have hrem := remainder_pos hW hi
    rw [remainder_eq hw] at hrem
    have hdiv := Int.mul_ediv_add_emod (R * w) ws.sum
    refine ⟨by omega, ?_⟩
    have hlt : R * w / ws.sum * ws.sum < w * ws.sum := by
      rw [mul_comm (R * w / ws.sum)]
      omega
    exact lt_of_mul_lt_mul_right hlt hW.le
  · cases hr
    exact ⟨hfloor, Int.ediv_le_of_le_mul hW hquota⟩

/-- A position before another one that gets a unit gets one too. -/
theorem bumped_of_lt (hi : i < ws.length)
    (hlt : toLex (-remainder R ws i, i) < toLex (-remainder R ws j, j))
    (hj : j ∈ (byRemainder R ws).take (left R ws).toNat) :
    i ∈ (byRemainder R ws).take (left R ws).toNat :=
  mem_take_of_lt pairwise_byRemainder (mem_byRemainder.mpr hi) hlt hj

/-- **A larger weight gets no smaller share.** -/
theorem largestRemainder_mono (hR : 0 < R) (hW : 0 < ws.sum) (hw : ws[i]? = some w)
    (hw' : ws[j]? = some w') (hlt : w' < w) (hr : (largestRemainder R ws)[i]? = some r)
    (hr' : (largestRemainder R ws)[j]? = some r') : r' ≤ r := by
  rw [getElem?_largestRemainder hw] at hr
  rw [getElem?_largestRemainder hw'] at hr'
  have hmul : R * w' < R * w := Int.mul_lt_mul_of_pos_left hlt hR
  have hfloor : R * w' / ws.sum ≤ R * w / ws.sum := Int.ediv_le_ediv hW hmul.le
  rcases hfloor.lt_or_eq with hless | heq
  · -- One whole unit apart, and a remainder gives no more than one.
    split at hr <;> split at hr' <;> cases hr <;> cases hr' <;> omega
  · have hdiv := Int.mul_ediv_add_emod (R * w) ws.sum
    have hdiv' := Int.mul_ediv_add_emod (R * w') ws.sum
    rw [heq] at hdiv'
    have hrem : R * w' % ws.sum < R * w % ws.sum := by omega
    have hfirst : j ∈ (byRemainder R ws).take (left R ws).toNat →
        i ∈ (byRemainder R ws).take (left R ws).toNat := by
      refine bumped_of_lt (List.getElem?_eq_some_iff.mp hw).1 ?_
      rw [remainder_eq hw, remainder_eq hw']
      exact Prod.Lex.toLex_lt_toLex.mpr (.inl (neg_lt_neg hrem))
    split at hr' <;> cases hr'
    · rename_i hj
      rw [if_pos (hfirst hj)] at hr
      cases hr
      omega
    · split at hr <;> cases hr <;> omega

/-- **Equal weights differ by one unit at most**, which the earlier one has. -/
theorem largestRemainder_fair (hij : i < j) (hw : ws[i]? = some w) (hw' : ws[j]? = some w)
    (hr : (largestRemainder R ws)[i]? = some r) (hr' : (largestRemainder R ws)[j]? = some r') :
    r' ≤ r ∧ r ≤ r' + 1 := by
  rw [getElem?_largestRemainder hw] at hr
  rw [getElem?_largestRemainder hw'] at hr'
  have hfirst : j ∈ (byRemainder R ws).take (left R ws).toNat →
      i ∈ (byRemainder R ws).take (left R ws).toNat := by
    refine bumped_of_lt (List.getElem?_eq_some_iff.mp hw).1 ?_
    rw [remainder_eq hw, remainder_eq hw']
    exact Prod.Lex.toLex_lt_toLex.mpr (.inr ⟨rfl, hij⟩)
  split at hr' <;> cases hr'
  · rename_i hj
    rw [if_pos (hfirst hj)] at hr
    cases hr
    omega
  · split at hr <;> cases hr <;> omega

end Shares

end Yeodam.Lib
