/-
How many photos each place of a story gets (`allocate` in `app/story/selection.py`).

One photo each, and what is left of the budget in proportion to the further photos of the places,
by largest remainders. `allocate_spec` reads the guarantees off the apportionment of
`Yeodam.Lib.Apportion`: without photos beyond the first nothing is left to divide, so that the
division is by a positive number.
-/

import Mathlib.Tactic.Ring
import Yeodam.Lib.Apportion

namespace Yeodam.Story

open Yeodam.Lib

/-- What `allocate` raises. -/
inductive AllocateError where
  | value
  | zeroDivision
deriving DecidableEq, Repr

/-- `allocate`. The slice `order[:rest]` has no negative `rest` (`left_nonneg`). -/
def allocate (counts : List Int) (budget : Int) : Except AllocateError (List Int) :=
  if counts = [] ∨ (counts.any fun count => count < 1) ∨ budget < counts.length then .error .value
  else
    let remaining := min budget counts.sum - counts.length
    let capacity := counts.map fun count => count - 1
    if remaining = 0 then .ok (List.replicate counts.length 1)
    else
      let total := capacity.sum
      if total = 0 then .error .zeroDivision
      else
        let shares := capacity.map fun count => (remaining * count).fdiv total
        let rest := remaining - shares.sum
        let order := sortOn (fun i => toLex (-((remaining * capacity.getD i 0).fmod total), i))
          (List.range counts.length)
        .ok ((bump shares (order.take rest.toNat)).map fun share => share + 1)

/-- What `allocate` asks for: places, photos of each, and budget for one of each. -/
structure Allocatable (counts : List Int) (budget : Int) : Prop where
  nonempty : counts ≠ []
  positive : ∀ c ∈ counts, 1 ≤ c
  budget : counts.length ≤ budget

/-- The part of a place with `c` photos in what is left after one photo each. -/
def furtherQuota (counts : List Int) (budget c : Int) : ℚ :=
  quota (min budget counts.sum - counts.length) (counts.map fun count => count - 1) (c - 1)

/-- An allocation by largest remainders. -/
structure Apportioned (counts : List Int) (budget : Int) (shares : List Int) : Prop where
  length : shares.length = counts.length
  within : ∀ {i : ℕ} {c r : Int}, counts[i]? = some c → shares[i]? = some r → 1 ≤ r ∧ r ≤ c
  sum : shares.sum = min budget counts.sum
  rounded : ∀ {i : ℕ} {c r : Int}, counts[i]? = some c → shares[i]? = some r →
    r - 1 = ⌊furtherQuota counts budget c⌋ ∨ r - 1 = ⌈furtherQuota counts budget c⌉
  mono : ∀ {i j : ℕ} {c c' r r' : Int}, counts[i]? = some c → counts[j]? = some c' → c' < c →
    shares[i]? = some r → shares[j]? = some r' → r' ≤ r
  fair : ∀ {i j : ℕ} {c r r' : Int}, i < j → counts[i]? = some c → counts[j]? = some c →
    shares[i]? = some r → shares[j]? = some r' → r' ≤ r ∧ r ≤ r' + 1

variable {counts : List Int} {budget : Int}

theorem sum_sub_one (counts : List Int) :
    (counts.map fun count => count - 1).sum = counts.sum - counts.length := by
  induction counts with
  | nil => rfl
  | cons c counts ih =>
      rw [List.map_cons, List.sum_cons, ih, List.sum_cons, List.length_cons]
      push_cast
      ring

theorem sum_ge_length (h : ∀ c ∈ counts, 1 ≤ c) : (counts.length : Int) ≤ counts.sum := by
  induction counts with
  | nil => exact le_rfl
  | cons c counts ih =>
      obtain ⟨hc, hcounts⟩ := List.forall_mem_cons.mp h
      have hrest := ih hcounts
      rw [List.sum_cons, List.length_cons]
      push_cast
      omega

theorem allocatable_iff : Allocatable counts budget ↔
    ¬ (counts = [] ∨ (counts.any fun count => count < 1) = true ∨ budget < counts.length) := by
  constructor
  · rintro ⟨hne, hpos, hbudget⟩ (h | h | h)
    · exact hne h
    · obtain ⟨c, hc, hlt⟩ := List.any_eq_true.mp h
      exact absurd (hpos c hc) (not_le.mpr (of_decide_eq_true hlt))
    · exact absurd hbudget (not_le.mpr h)
  · intro h
    simp only [not_or, List.any_eq_true, not_exists, not_and, decide_eq_true_eq, not_lt] at h
    exact ⟨h.1, h.2.1, h.2.2⟩

/-- With something left to share out, the shares are those of largest remainders. -/
theorem allocate_eq (h : Allocatable counts budget)
    (hleft : min budget counts.sum - counts.length ≠ 0) :
    0 < min budget counts.sum - counts.length ∧ 0 < (counts.map fun count => count - 1).sum ∧
      allocate counts budget = .ok
        ((largestRemainder (min budget counts.sum - counts.length)
          (counts.map fun count => count - 1)).map fun share => share + 1) := by
  have hsum := sum_ge_length h.positive
  have hbudget := h.budget
  have htotal := sum_sub_one counts
  have hremaining : 0 < min budget counts.sum - counts.length := by omega
  have hpos : 0 < (counts.map fun count => count - 1).sum := by omega
  refine ⟨hremaining, hpos, ?_⟩
  unfold allocate
  rw [if_neg (allocatable_iff.mp h)]
  dsimp only
  rw [if_neg hleft, if_neg hpos.ne']
  simp only [Int.fdiv_eq_ediv_of_nonneg _ hpos.le, Int.fmod_eq_emod_of_nonneg _ hpos.le]
  simp only [largestRemainder, left, floors, byRemainder, remainder, List.length_map]

/-- Nothing is left: one photo each. -/
theorem apportioned_ones (h : Allocatable counts budget)
    (hleft : min budget counts.sum - counts.length = 0) :
    Apportioned counts budget (List.replicate counts.length 1) := by
  have hone : ∀ {i : ℕ} {r : Int}, (List.replicate counts.length (1 : Int))[i]? = some r → r = 1 :=
    fun hr => List.eq_of_mem_replicate (List.mem_of_getElem? hr)
  constructor
  case length => exact List.length_replicate
  case within =>
    intro i c r hc hr
    rw [hone hr]
    exact ⟨le_rfl, h.positive c (List.mem_of_getElem? hc)⟩
  case sum =>
    rw [List.sum_replicate, nsmul_eq_mul, mul_one]
    omega
  case rounded =>
    intro i c r hc hr
    left
    rw [hone hr, furtherQuota, quota, hleft]
    simp
  case mono =>
    intro i j c c' r r' _ _ _ hr hr'
    rw [hone hr, hone hr']
  case fair =>
    intro i j c r r' _ _ _ hr hr'
    rw [hone hr, hone hr']
    omega

/-- The shares of largest remainders, with the first photo of each place. -/
theorem apportioned_largestRemainder (h : Allocatable counts budget)
    (hR : 0 < min budget counts.sum - counts.length)
    (hW : 0 < (counts.map fun count => count - 1).sum) :
    Apportioned counts budget
      ((largestRemainder (min budget counts.sum - counts.length)
        (counts.map fun count => count - 1)).map fun share => share + 1) := by
  set R := min budget counts.sum - counts.length with hRdef
  set ws := counts.map fun count => count - 1 with hws
  have hweight : ∀ {i : ℕ} {c : Int}, counts[i]? = some c → ws[i]? = some (c - 1) := by
    intro i c hc
    rw [hws, List.getElem?_map, hc]
    rfl
  have hshare : ∀ {i : ℕ} {r : Int},
      ((largestRemainder R ws).map fun share => share + 1)[i]? = some r →
      (largestRemainder R ws)[i]? = some (r - 1) := by
    intro i r hr
    rw [List.getElem?_map] at hr
    obtain ⟨share, hshare, rfl⟩ := Option.map_eq_some_iff.mp hr
    rw [hshare, add_sub_cancel_right]
  have hlength : (largestRemainder R ws).length = counts.length := by
    rw [largestRemainder, length_bump, floors, List.length_map, hws, List.length_map]
  constructor
  case length => rw [List.length_map, hlength]
  case within =>
    intro i c r hc hr
    have hle : R ≤ ws.sum := by
      have htotal := sum_sub_one counts
      rw [hRdef, hws, htotal]
      omega
    have hc1 := h.positive c (List.mem_of_getElem? hc)
    obtain ⟨hnonneg, hcap⟩ := largestRemainder_le hR.le hle hW (by omega) (hweight hc) (hshare hr)
    omega
  case sum =>
    have hones : ((largestRemainder R ws).map fun share => share + 1).sum =
        (largestRemainder R ws).sum + (largestRemainder R ws).length := by
      generalize largestRemainder R ws = shares
      induction shares with
      | nil => rfl
      | cons share shares ih =>
          rw [List.map_cons, List.sum_cons, ih, List.sum_cons, List.length_cons]
          push_cast
          ring
    rw [hones, sum_largestRemainder hW, hlength, hRdef]
    omega
  case rounded =>
    intro i c r hc hr
    exact floor_or_ceil hW (hweight hc) (hshare hr)
  case mono =>
    intro i j c c' r r' hc hc' hlt hr hr'
    have hle := largestRemainder_mono hR hW (hweight hc) (hweight hc') (by omega)
      (hshare hr) (hshare hr')
    omega
  case fair =>
    intro i j c r r' hij hc hc' hr hr'
    have hle := largestRemainder_fair hij (hweight hc) (hweight hc') (hshare hr) (hshare hr')
    omega

/-- **`allocate` is the apportionment by largest remainders** wherever it can be one, and raises
elsewhere. -/
theorem allocate_spec (counts : List Int) (budget : Int) :
    (Allocatable counts budget ∧
        ∃ shares, allocate counts budget = .ok shares ∧ Apportioned counts budget shares) ∨
      (¬ Allocatable counts budget ∧ allocate counts budget = .error .value) := by
  by_cases h : Allocatable counts budget
  · refine .inl ⟨h, ?_⟩
    by_cases hleft : min budget counts.sum - counts.length = 0
    · refine ⟨_, ?_, apportioned_ones h hleft⟩
      unfold allocate
      rw [if_neg (allocatable_iff.mp h)]
      dsimp only
      rw [if_pos hleft]
    · obtain ⟨hR, hW, heq⟩ := allocate_eq h hleft
      exact ⟨_, heq, apportioned_largestRemainder h hR hW⟩
  · refine .inr ⟨h, ?_⟩
    rw [allocatable_iff, not_not] at h
    unfold allocate
    rw [if_pos h]

/-- Ten photos and one: the second place keeps its photo, the first gets the rest. -/
example : allocate [10, 1] 5 = .ok [4, 1] := by decide +kernel

end Yeodam.Story
