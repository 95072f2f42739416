/-
The proleptic Gregorian calendar over all day numbers, day 1 being the first of January of year 1.

A unit of the calendar (weeks, months, years) is a `Tiling`: unit `k` is the days from `start k`
to before `start (k + 1)`, and `index n` is the unit of day `n`. Consecutive units leave no gap and
do not overlap, so that the days of a unit are those of its number (`Tiling.index_eq_iff`).
-/

import Mathlib

namespace Yeodam.Lib

/-! ### Tilings -/

structure Tiling (start index : Int → Int) : Prop where
  step : ∀ k, start k < start (k + 1)
  covers : ∀ n, start (index n) ≤ n ∧ n < start (index n + 1)

variable {start index : Int → Int} {k l n : Int}

theorem Tiling.strictMono (h : Tiling start index) : StrictMono start :=
  strictMono_int_of_lt_succ h.step

/-- **The days of a unit.** -/
theorem Tiling.index_eq_iff (h : Tiling start index) :
    index n = k ↔ start k ≤ n ∧ n < start (k + 1) := by
  obtain ⟨hlow, hhigh⟩ := h.covers n
  constructor
  · rintro rfl
    exact ⟨hlow, hhigh⟩
  · rintro ⟨hk, hk'⟩
    have hle : index n < k + 1 := h.strictMono.lt_iff_lt.mp (hlow.trans_lt hk')
    have hge : k < index n + 1 := h.strictMono.lt_iff_lt.mp (hk.trans_lt hhigh)
    omega

theorem Tiling.start_le_iff (h : Tiling start index) : start k ≤ n ↔ k ≤ index n := by
  obtain ⟨hlow, hhigh⟩ := h.covers n
  constructor
  · intro hk
    have hlt : k < index n + 1 := h.strictMono.lt_iff_lt.mp (hk.trans_lt hhigh)
    omega
  · intro hk
    exact (h.strictMono.monotone hk).trans hlow

/-- Several units in a row. -/
theorem Tiling.index_mem_iff (h : Tiling start index) :
    k ≤ index n ∧ index n < l ↔ start k ≤ n ∧ n < start l := by
  obtain ⟨hlow, hhigh⟩ := h.covers n
  constructor
  · rintro ⟨hk, hl⟩
    exact ⟨(h.strictMono.monotone hk).trans hlow, hhigh.trans_le (h.strictMono.monotone hl)⟩
  · rintro ⟨hk, hl⟩
    have hge : k < index n + 1 := h.strictMono.lt_iff_lt.mp (hk.trans_lt hhigh)
    exact ⟨by omega, h.strictMono.lt_iff_lt.mp (hlow.trans_lt hl)⟩

/-! ### Weeks -/

/-- Monday is 0. -/
def weekdayOf (n : Int) : Int := (n + 6) % 7

def weekOf (n : Int) : Int := (n - 1) / 7

def weekStart (k : Int) : Int := 7 * k + 1

theorem tiling_weeks : Tiling weekStart weekOf := by
  constructor
  · intro k
    unfold weekStart
    omega
  · intro n
    unfold weekStart weekOf
    omega

/-! ### Years -/

def isLeap (y : Int) : Bool := y % 4 = 0 && (y % 100 ≠ 0 || y % 400 = 0)

def daysBeforeYear (y : Int) : Int := (y - 1) * 365 + (y - 1) / 4 - (y - 1) / 100 + (y - 1) / 400

def yearLength (y : Int) : Int := if isLeap y then 366 else 365

theorem daysBeforeYear_succ (y : Int) :
    daysBeforeYear (y + 1) = daysBeforeYear y + yearLength y := by
  simp only [daysBeforeYear, yearLength, isLeap, Bool.and_eq_true, Bool.or_eq_true,
    decide_eq_true_eq]
  split <;> omega

/-- The year of a day: cycles of 400, 100, 4 years and of one; the last day of a cycle is one too
many for the division. -/
def yearOf (n : Int) : Int :=
  let d := n - 1
  let n400 := d / 146097
  let d := d % 146097
  let n100 := d / 36524
  let d := d % 36524
  let n4 := d / 1461
  let n1 := d % 1461 / 365
  let year := n400 * 400 + n100 * 100 + n4 * 4 + n1 + 1
  if n1 = 4 ∨ n100 = 4 then year - 1 else year

def yearStart (y : Int) : Int := daysBeforeYear y + 1

/-- The days before a year, by its place in the cycles. -/
theorem daysBeforeYear_cycles {a b c d : Int} (hb : 0 ≤ b ∧ b ≤ 3) (hc : 0 ≤ c ∧ c ≤ 24)
    (hd : 0 ≤ d ∧ d ≤ 3) : daysBeforeYear (a * 400 + b * 100 + c * 4 + d + 1) =
      146097 * a + 36524 * b + 1461 * c + 365 * d := by
  have h4 : (a * 400 + b * 100 + c * 4 + d + 1 - 1) / 4 = 100 * a + 25 * b + c := by omega
  have h100 : (a * 400 + b * 100 + c * 4 + d + 1 - 1) / 100 = 4 * a + b := by omega
  have h400 : (a * 400 + b * 100 + c * 4 + d + 1 - 1) / 400 = a := by omega
  rw [daysBeforeYear, h4, h100, h400]
  ring

theorem le_yearLength (y : Int) : 365 ≤ yearLength y := by
  unfold yearLength
  split <;> omega

/-- A day within the cycles, `r` days into its year. -/
theorem covers_of_cycles {a b c d r : Int} (hb : 0 ≤ b ∧ b ≤ 3) (hc : 0 ≤ c ∧ c ≤ 24)
    (hd : 0 ≤ d ∧ d ≤ 3) (hn : n - 1 = 146097 * a + 36524 * b + 1461 * c + 365 * d + r) (hr : 0 ≤ r)
    (hlength : r < yearLength (a * 400 + b * 100 + c * 4 + d + 1)) :
    yearStart (a * 400 + b * 100 + c * 4 + d + 1) ≤ n ∧
      n < yearStart (a * 400 + b * 100 + c * 4 + d + 1 + 1) := by
  have hdays := daysBeforeYear_cycles (a := a) hb hc hd
  have hsucc := daysBeforeYear_succ (a * 400 + b * 100 + c * 4 + d + 1)
  unfold yearStart
  omega

theorem tiling_years : Tiling yearStart yearOf where
  step := by
    intro y
    have hsucc := daysBeforeYear_succ y
    have hlength := le_yearLength y
    unfold yearStart
    omega
  covers := by
    intro n
    unfold yearOf
    dsimp only
    -- The quotients, and what is left of the day number.
    obtain ⟨a, ha⟩ : ∃ a, a = (n - 1) / 146097 := ⟨_, rfl⟩
    obtain ⟨b, hb⟩ : ∃ b, b = (n - 1) % 146097 / 36524 := ⟨_, rfl⟩
    obtain ⟨c, hc⟩ : ∃ c, c = (n - 1) % 146097 % 36524 / 1461 := ⟨_, rfl⟩
    obtain ⟨d, hd⟩ : ∃ d, d = (n - 1) % 146097 % 36524 % 1461 / 365 := ⟨_, rfl⟩
    obtain ⟨r, hr⟩ : ∃ r, r = (n - 1) % 146097 % 36524 % 1461 % 365 := ⟨_, rfl⟩
    rw [← ha, ← hb, ← hc, ← hd]
    have hn : n - 1 = 146097 * a + 36524 * b + 1461 * c + 365 * d + r := by omega
    have hbounds : 0 ≤ b ∧ b ≤ 4 ∧ 0 ≤ c ∧ c ≤ 24 ∧ 0 ≤ d ∧ d ≤ 4 ∧ 0 ≤ r ∧ r < 365 := by omega
    have hlastCentury : b = 4 → c = 0 ∧ d = 0 ∧ r = 0 := by omega
    have hlastYear : d = 4 → c ≤ 23 ∧ r = 0 := by omega
    clear ha hb hc hd hr
    by_cases hcentury : b = 4
    · -- The last day of a cycle of 400 years.
      obtain ⟨rfl, rfl, rfl⟩ := hlastCentury hcentury
      subst hcentury
      have hleap : yearLength (a * 400 + 3 * 100 + 24 * 4 + 3 + 1) = 366 := by
        rw [yearLength, if_pos]
        simp only [isLeap, Bool.and_eq_true, Bool.or_eq_true, decide_eq_true_eq]
        omega
      have hcovers := covers_of_cycles (n := n) (r := 365) (a := a) (b := 3) (c := 24)
        (d := 3) ⟨by omega, by omega⟩ ⟨by omega, by omega⟩ ⟨by omega, by omega⟩ (by omega)
        (by omega) (by omega)
      rw [if_pos (Or.inr rfl)]
      have hyear : a * 400 + 4 * 100 + 0 * 4 + 0 + 1 - 1 = a * 400 + 3 * 100 + 24 * 4 + 3 + 1 := by
        ring
      rw [hyear]
      exact hcovers
    by_cases hfourth : d = 4
    · -- The last day of a cycle of four years.
      obtain ⟨hc, rfl⟩ := hlastYear hfourth
      subst hfourth
      have hleap : yearLength (a * 400 + b * 100 + c * 4 + 3 + 1) = 366 := by
        rw [yearLength, if_pos]
        simp only [isLeap, Bool.and_eq_true, Bool.or_eq_true, decide_eq_true_eq]
        omega
      have hcovers := covers_of_cycles (n := n) (r := 365) (a := a) (b := b) (c := c)
        (d := 3) ⟨by omega, by omega⟩ ⟨by omega, by omega⟩ ⟨by omega, by omega⟩ (by omega)
        (by omega) (by omega)
      rw [if_pos (Or.inl rfl)]
      have hyear : a * 400 + b * 100 + c * 4 + 4 + 1 - 1 = a * 400 + b * 100 + c * 4 + 3 + 1 := by
        ring
      rw [hyear]
      exact hcovers
    · have hlength := le_yearLength (a * 400 + b * 100 + c * 4 + d + 1)
      rw [if_neg (not_or.mpr ⟨hfourth, hcentury⟩)]
      exact covers_of_cycles ⟨by omega, by omega⟩ ⟨by omega, by omega⟩ ⟨by omega, by omega⟩ hn
        (by omega) (by omega)

/-! ### Months -/

/-- Days before month `m` of a year, `m` counted from 0. -/
def daysBeforeMonth (leap : Bool) (m : Nat) : Int :=
  [0, 31, 59, 90, 120, 151, 181, 212, 243, 273, 304, 334, 365].getD m 0 +
    if leap ∧ 2 ≤ m then 1 else 0

/-- The month of a day of a year, both counted from 0. -/
def monthIn (leap : Bool) (d : Nat) : Nat :=
  let m := (d + 50) / 32 - 1
  if d < daysBeforeMonth leap m then m - 1 else m

/-- Months are numbered through the years: `12 * year + month - 1`. -/
def monthStart (k : Int) : Int :=
  daysBeforeYear (k / 12) + daysBeforeMonth (isLeap (k / 12)) (k % 12).toNat + 1

def monthOf (n : Int) : Int :=
  12 * yearOf n + monthIn (isLeap (yearOf n)) (n - yearStart (yearOf n)).toNat

theorem monthIn_spec : ∀ (leap : Bool) (d : Fin 366), (leap = false → d.val < 365) →
    monthIn leap d < 12 ∧ daysBeforeMonth leap (monthIn leap d) ≤ d.val ∧
      (d.val : Int) < daysBeforeMonth leap (monthIn leap d + 1) := by
  decide +kernel

def monthLength (leap : Bool) (m : Nat) : Int :=
  [31, 28, 31, 30, 31, 30, 31, 31, 30, 31, 30, 31].getD m 0 + if leap ∧ m = 1 then 1 else 0

theorem daysBeforeMonth_succ : ∀ (leap : Bool) (m : Fin 12),
    daysBeforeMonth leap (m + 1) = daysBeforeMonth leap m + monthLength leap m := by
  decide

theorem monthLength_pos : ∀ (leap : Bool) (m : Fin 12), 0 < monthLength leap m := by
  decide

theorem daysBeforeMonth_twelve (y : Int) : daysBeforeMonth (isLeap y) 12 = yearLength y := by
  unfold yearLength
  cases isLeap y <;> decide

/-- The first day of a month by its year. -/
theorem monthStart_eq (y : Int) {m : Nat} (hm : m ≤ 12) :
    monthStart (12 * y + m) = daysBeforeYear y + daysBeforeMonth (isLeap y) m + 1 := by
  rcases Nat.lt_or_eq_of_le hm with hm | rfl
  · have hyear : (12 * y + m) / 12 = y := by omega
    have hmonth : ((12 * y + m) % 12).toNat = m := by omega
    rw [monthStart, hyear, hmonth]
  · -- The month after December is January of the next year.
    have hyear : (12 * y + (12 : Nat)) / 12 = y + 1 := by omega
    have hmonth : ((12 * y + (12 : Nat)) % 12).toNat = 0 := by omega
    rw [monthStart, hyear, hmonth, daysBeforeYear_succ, daysBeforeMonth_twelve]
    simp [daysBeforeMonth]

/-- **A month is as long as the calendar says.** -/
theorem monthStart_succ (k : Int) :
    monthStart (k + 1) = monthStart k + monthLength (isLeap (k / 12)) (k % 12).toNat := by
  obtain ⟨m, hm, hk⟩ : ∃ m : Nat, m < 12 ∧ k = 12 * (k / 12) + m :=
    ⟨(k % 12).toNat, by omega, by omega⟩
  have hmonth : (k % 12).toNat = m := by omega
  have hlength := daysBeforeMonth_succ (isLeap (k / 12)) ⟨m, hm⟩
  have hnext : k + 1 = 12 * (k / 12) + (m + 1 : Nat) := by omega
  have hstart := monthStart_eq (k / 12) (Nat.le_of_lt hm)
  have hstart' := monthStart_eq (k / 12) (m := m + 1) (by omega)
  rw [← hk] at hstart
  rw [← hnext] at hstart'
  dsimp only at hlength
  rw [hmonth]
  omega

/-- The month of a day within its year. -/
theorem monthOf_spec (n : Int) : ∃ m : Nat, m < 12 ∧ monthOf n = 12 * yearOf n + m ∧
    daysBeforeMonth (isLeap (yearOf n)) m < n - daysBeforeYear (yearOf n) ∧
    n - daysBeforeYear (yearOf n) ≤ daysBeforeMonth (isLeap (yearOf n)) (m + 1) := by
  obtain ⟨hlow, hhigh⟩ := tiling_years.covers n
  have hsucc := daysBeforeYear_succ (yearOf n)
  have hlength : yearLength (yearOf n) ≤ 366 ∧
      (isLeap (yearOf n) = false → yearLength (yearOf n) = 365) := by
    unfold yearLength
    cases isLeap (yearOf n) <;> simp
  unfold yearStart at hlow hhigh
  have hday : (n - yearStart (yearOf n)).toNat < 366 := by
    unfold yearStart
    omega
  obtain ⟨hm, hbefore, hafter⟩ := monthIn_spec (isLeap (yearOf n)) ⟨_, hday⟩ fun hleap => by
    have hcommon := hlength.2 hleap
    unfold yearStart
    dsimp only
    omega
  dsimp only at hm hbefore hafter
  have hday' : ((n - yearStart (yearOf n)).toNat : Int) = n - daysBeforeYear (yearOf n) - 1 := by
    unfold yearStart
    omega
  rw [hday'] at hbefore hafter
  exact ⟨_, hm, rfl, by omega, by omega⟩

theorem tiling_months : Tiling monthStart monthOf where
  step := by
    intro k
    have hlength := monthLength_pos (isLeap (k / 12)) ⟨(k % 12).toNat, by omega⟩
    have hsucc := monthStart_succ k
    dsimp only at hlength
    omega
  covers := by
    intro n
    obtain ⟨m, hm, hmonth, hlow, hhigh⟩ := monthOf_spec n
    have hnext : monthOf n + 1 = 12 * yearOf n + (m + 1 : Nat) := by omega
    have hstart := monthStart_eq (yearOf n) (Nat.le_of_lt hm)
    have hstart' := monthStart_eq (yearOf n) (show m + 1 ≤ 12 from hm)
    rw [← hmonth] at hstart
    rw [← hnext] at hstart'
    omega

/-- The year of a month. -/
theorem monthOf_div (n : Int) : monthOf n / 12 = yearOf n := by
  obtain ⟨m, hm, hmonth, -⟩ := monthOf_spec n
  omega

end Yeodam.Lib
