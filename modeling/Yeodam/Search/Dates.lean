/-
The relative dates of a question (`app/search/dates.py`).

The model classifies an expression by a unit and an offset and the code computes its days.
`Names` says which days an expression names, by the numbers of weeks, months and years, and
`resolveRelativeDate_exact` that the code gives the first and the last of them, or nothing where one
is no `date`.
-/

import Yeodam.Lib.Calendar
import Yeodam.Lib.Except

namespace Yeodam.Search

open Yeodam.Lib

/-! ### Dates -/

/-- The ordinal of the last day of year 9999. -/
def maxOrdinal : Int := 3652059

/-- `date`, by its ordinal: a day of the years 1 to 9999. -/
@[ext]
structure Date where
  ordinal : Int
  inRange : 1 ≤ ordinal ∧ ordinal ≤ maxOrdinal
deriving DecidableEq

/-- What date arithmetic raises. -/
inductive DateRaised where
  | overflow
  | value
deriving DecidableEq

def Date.fromOrdinal (n : Int) : Except DateRaised Date :=
  if h : 1 ≤ n ∧ n ≤ maxOrdinal then .ok ⟨n, h⟩ else .error .overflow

/-- `date(year, month, day)`. A year beyond a C integer is an `OverflowError` instead. -/
def Date.civil (year month day : Int) : Except DateRaised Date :=
  if 1 ≤ year ∧ year ≤ 9999 ∧ 1 ≤ month ∧ month ≤ 12 ∧ 1 ≤ day ∧
      day ≤ monthLength (isLeap year) (month - 1).toNat then
    Date.fromOrdinal (daysBeforeYear year + daysBeforeMonth (isLeap year) (month - 1).toNat + day)
  else .error .value

/-- `self + timedelta(days=days)`. -/
def Date.addDays (self : Date) (days : Int) : Except DateRaised Date :=
  if |days| ≤ 999999999 then Date.fromOrdinal (self.ordinal + days) else .error .overflow

def Date.weekday (self : Date) : Int := weekdayOf self.ordinal

def Date.year (self : Date) : Int := yearOf self.ordinal

def Date.month (self : Date) : Int := monthOf self.ordinal % 12 + 1

/-! ### Expressions -/

inductive DateUnit where
  | none
  | day
  | week
  | weekday
  | month
  | year
  | season
deriving DecidableEq

inductive Weekday where
  | mon
  | tue
  | wed
  | thu
  | fri
  | sat
  | sun
deriving DecidableEq

/-- `WEEKDAYS.index` -/
def Weekday.index : Weekday → Int
  | .mon => 0
  | .tue => 1
  | .wed => 2
  | .thu => 3
  | .fri => 4
  | .sat => 5
  | .sun => 6

inductive Season where
  | spring
  | summer
  | fall
  | winter
deriving DecidableEq

/-- `SEASON_START_MONTH` -/
def Season.startMonth : Season → Int
  | .spring => 3
  | .summer => 6
  | .fall => 9
  | .winter => 12

structure RelativeDate where
  unit : DateUnit
  offset : Option Int
  weekday : Option Weekday
  season : Option Season

/-- `_month_range` -/
def monthRange (year month months : Int) : Except DateRaised (Date × Date) := do
  let start := year * 12 + month - 1
  let stop := year * 12 + month - 1 + months - 1
  let endMonth := stop % 12 + 1
  let first ← Date.civil (start / 12) (start % 12 + 1) 1
  let last ← Date.civil (stop / 12) endMonth (monthLength (isLeap (stop / 12)) (endMonth - 1).toNat)
  return (first, last)

/-- The year of a season: without an offset, that of the latest to have begun. -/
def seasonYear (season : Season) (offset : Option Int) (today : Date) : Except DateRaised Int :=
  match offset with
  | some offset => .ok (today.year + offset)
  | none => do
      let start ← Date.civil today.year season.startMonth 1
      return if start.ordinal ≤ today.ordinal then today.year else today.year - 1

/-- `_resolve` -/
def resolve (expr : RelativeDate) (today : Date) : Except DateRaised (Option (Date × Date)) :=
  match expr.unit with
  | .none => .ok none
  | .day =>
      match expr.offset with
      | none => .ok none
      | some offset => do
          let day ← today.addDays offset
          return some (day, day)
  | .week =>
      match expr.offset with
      | none => .ok none
      | some offset => do
          let monday ← (← today.addDays (-today.weekday)).addDays (7 * offset)
          match expr.weekday with
          | none => do
              let sunday ← monday.addDays 6
              return some (monday, sunday)
          | some weekday => do
              let day ← monday.addDays weekday.index
              return some (day, day)
  | .weekday =>
      match expr.weekday with
      | none => .ok none
      | some weekday => do
          let day ← today.addDays (-((today.weekday - weekday.index) % 7))
          return some (day, day)
  | .month =>
      match expr.offset with
      | none => .ok none
      | some offset => do
          let range ← monthRange today.year (today.month + offset) 1
          return some range
  | .year =>
      match expr.offset with
      | none => .ok none
      | some offset => do
          let first ← Date.civil (today.year + offset) 1 1
          let last ← Date.civil (today.year + offset) 12 31
          return some (first, last)
  | .season =>
      match expr.season with
      | none => .ok none
      | some season => do
          let year ← seasonYear season expr.offset today
          let range ← monthRange year season.startMonth 3
          return some range

/-- `resolve_relative_date` -/
def resolveRelativeDate (expr : RelativeDate) (today : Date) : Option (Date × Date) :=
  match resolve expr today with
  | .ok range => range
  | .error .overflow => none
  | .error .value => none

/-! ### What an expression names -/

/-- The fields the unit needs are there. -/
def RelativeDate.Complete (expr : RelativeDate) : Prop :=
  match expr.unit with
  | .none => False
  | .day | .week | .month | .year => expr.offset.isSome
  | .weekday => expr.weekday.isSome
  | .season => expr.season.isSome

/-- The year of a season: the one that was said, or that of the latest to have begun. -/
def SeasonYear (offset : Option Int) (season : Season) (today year : Int) : Prop :=
  match offset with
  | some k => year = yearOf today + k
  | none => IsGreatest {y | monthStart (12 * y + season.startMonth - 1) ≤ today} year

/-- Day `n` is one of those the expression names on day `today`. -/
def RelativeDate.Names (expr : RelativeDate) (today n : Int) : Prop :=
  match expr.unit with
  | .none => False
  | .day => ∃ k ∈ expr.offset, n = today + k
  | .week => ∃ k ∈ expr.offset, weekOf n = weekOf today + k ∧
      ∀ w ∈ expr.weekday, weekdayOf n = w.index
  | .weekday => ∃ w ∈ expr.weekday, IsGreatest {d | weekdayOf d = w.index ∧ d ≤ today} n
  | .month => ∃ k ∈ expr.offset, monthOf n = monthOf today + k
  | .year => ∃ k ∈ expr.offset, yearOf n = yearOf today + k
  | .season => ∃ s ∈ expr.season, ∃ y, SeasonYear expr.offset s today y ∧
      12 * y + s.startMonth - 1 ≤ monthOf n ∧ monthOf n < 12 * y + s.startMonth - 1 + 3

/-- The date of an ordinal, if there is one. -/
def dateAt (n : Int) : Option Date := (Date.fromOrdinal n).toOption

/-- The days from `first` to `last`, if both are dates. -/
def between (first last : Int) : Option (Date × Date) := do
  let a ← dateAt first
  let b ← dateAt last
  return (a, b)

/-- The expression names the days from `first` to `last`, and the code says so. -/
structure Resolves (expr : RelativeDate) (today : Date) (first last : Int) : Prop where
  order : first ≤ last
  days : ∀ n, expr.Names today.ordinal n ↔ first ≤ n ∧ n ≤ last
  code : resolveRelativeDate expr today = between first last

/-! ### Dates by their ordinals -/

variable {n k first last : Int} {d a b today : Date} {expr : RelativeDate}

@[simp] theorem dateAt_eq_some : dateAt n = some d ↔ d.ordinal = n := by
  unfold dateAt Date.fromOrdinal
  split
  · rename_i h
    rw [Except.toOption, Option.some.injEq, Date.ext_iff]
    exact eq_comm
  · rename_i h
    exact ⟨nofun, fun heq => absurd (heq ▸ d.inRange) h⟩

theorem dateAt_eq_none : dateAt n = none ↔ n < 1 ∨ maxOrdinal < n := by
  unfold dateAt Date.fromOrdinal
  split
  · rename_i h
    exact ⟨nofun, fun hout => by omega⟩
  · rename_i h
    exact ⟨fun _ => by omega, fun _ => rfl⟩

theorem exists_date (h : 1 ≤ n ∧ n ≤ maxOrdinal) : ∃ d : Date, d.ordinal = n := ⟨⟨n, h⟩, rfl⟩

theorem between_eq_some :
    between first last = some (a, b) ↔ a.ordinal = first ∧ b.ordinal = last := by
  simp only [between, Option.bind_eq_bind, Option.bind_eq_some_iff, dateAt_eq_some, Option.pure_def,
    Option.some.injEq, Prod.mk.injEq]
  constructor
  · rintro ⟨_, hfirst, _, hlast, rfl, rfl⟩
    exact ⟨hfirst, hlast⟩
  · rintro ⟨hfirst, hlast⟩
    exact ⟨a, hfirst, b, hlast, rfl, rfl⟩

/-- A range that fails where a bound is no date is the one between them. -/
theorem eq_between {r : Option (Date × Date)}
    (h : ∀ a b, r = some (a, b) ↔ a.ordinal = first ∧ b.ordinal = last) :
    r = between first last := by
  apply Option.ext
  intro range
  rw [h, between_eq_some]

theorem toOption_bind {ε α β : Type} (x : Except ε α) (f : α → Except ε β) :
    (x >>= f).toOption = x.toOption.bind fun a => (f a).toOption := by
  cases x <;> rfl

/-- What is raised is caught. -/
theorem resolveRelativeDate_eq (expr : RelativeDate) (today : Date) :
    resolveRelativeDate expr today = (resolve expr today).toOption.join := by
  unfold resolveRelativeDate
  cases resolve expr today with
  | ok range => rfl
  | error e => cases e <;> rfl

theorem toOption_addDays (d : Date) (days : Int) :
    (d.addDays days).toOption = dateAt (d.ordinal + days) := by
  unfold Date.addDays
  split
  · rfl
  · rename_i h
    -- So far away there is no date.
    symm
    rw [Except.toOption, dateAt_eq_none]
    have hrange := d.inRange
    unfold maxOrdinal at hrange ⊢
    rcases le_or_gt 0 days with hdays | hdays
    · rw [abs_of_nonneg hdays] at h
      omega
    · rw [abs_of_neg hdays] at h
      omega

theorem monthStart_range :
    (1 ≤ monthStart k ∧ monthStart k ≤ maxOrdinal ↔ 1 ≤ k / 12 ∧ k / 12 ≤ 9999) ∧
    (1 ≤ monthStart (k + 1) - 1 ∧ monthStart (k + 1) - 1 ≤ maxOrdinal ↔
      1 ≤ k / 12 ∧ k / 12 ≤ 9999) := by
  have hfirst : monthStart 12 = 1 := by decide
  have hlast : monthStart 120000 = maxOrdinal + 1 := by decide
  have hmono := tiling_months.strictMono
  have hlow := hmono.le_iff_le (a := 12) (b := k)
  have hhigh := hmono.lt_iff_lt (a := k) (b := 120000)
  have hlow' := hmono.lt_iff_lt (a := 12) (b := k + 1)
  have hhigh' := hmono.le_iff_le (a := k + 1) (b := 120000)
  rw [hfirst] at hlow hlow'
  rw [hlast] at hhigh hhigh'
  omega

/-- The first day of a month as a date. -/
theorem toOption_civil_first (k : Int) :
    (Date.civil (k / 12) (k % 12 + 1) 1).toOption = dateAt (monthStart k) := by
  have hrange := (monthStart_range (k := k)).1
  have hlength := monthLength_pos (isLeap (k / 12)) ⟨(k % 12).toNat, by omega⟩
  have hmonth : k % 12 + 1 - 1 = k % 12 := by omega
  unfold Date.civil
  rw [hmonth]
  dsimp only at hlength
  split
  · rw [dateAt, monthStart]
  · symm
    rw [Except.toOption, dateAt_eq_none]
    omega

/-- The last day of a month as a date. -/
theorem toOption_civil_last (k : Int) : (Date.civil (k / 12) (k % 12 + 1)
    (monthLength (isLeap (k / 12)) (k % 12 + 1 - 1).toNat)).toOption =
      dateAt (monthStart (k + 1) - 1) := by
  have hrange := (monthStart_range (k := k)).2
  have hlength := monthLength_pos (isLeap (k / 12)) ⟨(k % 12).toNat, by omega⟩
  have hsucc := monthStart_succ k
  have hmonth : k % 12 + 1 - 1 = k % 12 := by omega
  unfold Date.civil
  rw [hmonth]
  dsimp only at hlength
  split
  · rw [dateAt, hsucc, monthStart]
    refine congrArg (fun n => (Date.fromOrdinal n).toOption) ?_
    omega
  · symm
    rw [Except.toOption, dateAt_eq_none]
    omega

/-- **Months in a row.** -/
theorem toOption_monthRange (year month months : Int) :
    (monthRange year month months).toOption =
      between (monthStart (12 * year + month - 1))
        (monthStart (12 * year + month - 1 + months) - 1) := by
  have hstart : year * 12 + month - 1 = 12 * year + month - 1 := by ring
  have hstop : 12 * year + month - 1 + months - 1 + 1 = 12 * year + month - 1 + months := by ring
  unfold monthRange
  simp only [toOption_bind, toOption_civil_first, toOption_civil_last]
  rw [hstart, hstop]
  rfl

/-! ### The units -/

theorem toOption_pure {ε α : Type} (a : α) : (pure a : Except ε α).toOption = some a := rfl

theorem resolves_day (hunit : expr.unit = .day) (hoffset : expr.offset = some k) :
    Resolves expr today (today.ordinal + k) (today.ordinal + k) where
  order := le_refl _
  days := by
    intro n
    simp only [RelativeDate.Names, hunit, hoffset, Option.mem_def, Option.some.injEq,
      exists_eq_left']
    omega
  code := by
    rw [resolveRelativeDate_eq]
    simp only [resolve, hunit, hoffset, toOption_bind, toOption_addDays, toOption_pure]
    apply eq_between
    intro a b
    simp only [Option.join_eq_some_iff, Option.bind_eq_some_iff, dateAt_eq_some, Option.some.injEq,
      Prod.mk.injEq]
    constructor
    · rintro ⟨d, hd, rfl, rfl⟩
      exact ⟨hd, hd⟩
    · rintro ⟨ha, hb⟩
      exact ⟨a, ha, rfl, Date.ext (ha.trans hb.symm)⟩

theorem Weekday.index_bounds (w : Weekday) : 0 ≤ w.index ∧ w.index ≤ 6 := by
  cases w <;> decide

/-- The Monday of this week is a date, the first of all being a Monday. -/
theorem bind_monday {α : Type} (today : Date) (k : Int) (f : Date → Option α) :
    ((dateAt (today.ordinal + -today.weekday)).bind fun monday =>
      (dateAt (monday.ordinal + 7 * k)).bind f) =
        (dateAt (weekStart (weekOf today.ordinal + k))).bind f := by
  have htoday := today.inRange
  obtain ⟨monday, hmonday⟩ := exists_date (n := today.ordinal + -today.weekday) (by
    unfold Date.weekday weekdayOf
    omega)
  have hweek : monday.ordinal + 7 * k = weekStart (weekOf today.ordinal + k) := by
    unfold Date.weekday weekdayOf at hmonday
    unfold weekStart weekOf
    omega
  rw [dateAt_eq_some.mpr hmonday, Option.bind_some, hweek]

theorem resolves_week (hunit : expr.unit = .week) (hoffset : expr.offset = some k)
    (hweekday : expr.weekday = none) :
    Resolves expr today (weekStart (weekOf today.ordinal + k))
      (weekStart (weekOf today.ordinal + k + 1) - 1) where
  order := by
    unfold weekStart
    omega
  days := by
    intro n
    simp only [RelativeDate.Names, hunit, hoffset, hweekday, Option.mem_def, Option.some.injEq,
      exists_eq_left', reduceCtorEq, false_implies, implies_true, and_true,
      tiling_weeks.index_eq_iff]
    omega
  code := by
    have hlast : weekStart (weekOf today.ordinal + k + 1) - 1 =
        weekStart (weekOf today.ordinal + k) + 6 := by
      unfold weekStart
      omega
    rw [resolveRelativeDate_eq]
    simp only [resolve, hunit, hoffset, hweekday, toOption_bind, toOption_addDays, toOption_pure,
      bind_monday]
    rw [hlast]
    apply eq_between
    intro a b
    simp only [Option.join_eq_some_iff, Option.bind_eq_some_iff, dateAt_eq_some, Option.some.injEq,
      Prod.mk.injEq]
    constructor
    · rintro ⟨monday, hmonday, sunday, hsunday, rfl, rfl⟩
      exact ⟨hmonday, by omega⟩
    · rintro ⟨ha, hb⟩
      exact ⟨a, ha, b, by omega, rfl, rfl⟩

theorem resolves_weekdayOfWeek {w : Weekday} (hunit : expr.unit = .week)
    (hoffset : expr.offset = some k) (hweekday : expr.weekday = some w) :
    Resolves expr today (weekStart (weekOf today.ordinal + k) + w.index)
      (weekStart (weekOf today.ordinal + k) + w.index) where
  order := le_refl _
  days := by
    intro n
    have hindex := w.index_bounds
    simp only [RelativeDate.Names, hunit, hoffset, hweekday, Option.mem_def, Option.some.injEq,
      exists_eq_left', forall_eq', tiling_weeks.index_eq_iff]
    unfold weekStart weekdayOf
    omega
  code := by
    have hindex := w.index_bounds
    rw [resolveRelativeDate_eq]
    simp only [resolve, hunit, hoffset, hweekday, toOption_bind, toOption_addDays, toOption_pure,
      bind_monday]
    apply eq_between
    intro a b
    simp only [Option.join_eq_some_iff, Option.bind_eq_some_iff, dateAt_eq_some, Option.some.injEq,
      Prod.mk.injEq]
    constructor
    · rintro ⟨monday, hmonday, day, hday, rfl, rfl⟩
      exact ⟨by omega, by omega⟩
    · rintro ⟨ha, hb⟩
      -- A day is a date only if its Monday is.
      have harange := a.inRange
      obtain ⟨monday, hmonday⟩ := exists_date (n := weekStart (weekOf today.ordinal + k)) (by
        unfold weekStart at ha ⊢
        unfold maxOrdinal at *
        omega)
      exact ⟨monday, hmonday, a, by omega, rfl, Date.ext (ha.trans hb.symm)⟩

theorem resolves_weekday {w : Weekday} (hunit : expr.unit = .weekday)
    (hweekday : expr.weekday = some w) :
    Resolves expr today (today.ordinal - (today.weekday - w.index) % 7)
      (today.ordinal - (today.weekday - w.index) % 7) where
  order := le_refl _
  days := by
    intro n
    have hindex := w.index_bounds
    simp only [RelativeDate.Names, hunit, hweekday, Option.mem_def, Option.some.injEq,
      exists_eq_left', IsGreatest, upperBounds, Set.mem_ofPred_eq]
    have hday : weekdayOf (today.ordinal - (today.weekday - w.index) % 7) = w.index := by
      unfold Date.weekday weekdayOf
      omega
    have hlatest : ∀ d, weekdayOf d = w.index → d ≤ today.ordinal →
        d ≤ today.ordinal - (today.weekday - w.index) % 7 := by
      intro d hd hle
      unfold Date.weekday weekdayOf at *
      omega
    constructor
    · rintro ⟨⟨hn, hle⟩, hgreatest⟩
      have hlow := hgreatest ⟨hday, by omega⟩
      have hhigh := hlatest n hn hle
      omega
    · rintro ⟨hlow, hhigh⟩
      obtain rfl : n = today.ordinal - (today.weekday - w.index) % 7 := by omega
      exact ⟨⟨hday, by omega⟩, fun d hd => hlatest d hd.1 hd.2⟩
  code := by
    rw [resolveRelativeDate_eq]
    simp only [resolve, hunit, hweekday, toOption_bind, toOption_addDays, toOption_pure]
    apply eq_between
    intro a b
    simp only [Option.join_eq_some_iff, Option.bind_eq_some_iff, dateAt_eq_some, Option.some.injEq,
      Prod.mk.injEq]
    constructor
    · rintro ⟨d, hd, rfl, rfl⟩
      omega
    · rintro ⟨ha, hb⟩
      exact ⟨a, by omega, rfl, Date.ext (ha.trans hb.symm)⟩

theorem Date.month_eq (d : Date) : 12 * d.year + d.month - 1 = monthOf d.ordinal := by
  have hyear := monthOf_div d.ordinal
  unfold Date.year Date.month
  omega

theorem join_map_some {α : Type} (r : Option α) : (r.bind fun x => some (some x)).join = r := by
  cases r <;> rfl

theorem resolves_month (hunit : expr.unit = .month) (hoffset : expr.offset = some k) :
    Resolves expr today (monthStart (monthOf today.ordinal + k))
      (monthStart (monthOf today.ordinal + k + 1) - 1) where
  order := by
    have hstep := tiling_months.step (monthOf today.ordinal + k)
    omega
  days := by
    intro n
    simp only [RelativeDate.Names, hunit, hoffset, Option.mem_def, Option.some.injEq,
      exists_eq_left', tiling_months.index_eq_iff]
    omega
  code := by
    have hmonth : 12 * today.year + (today.month + k) - 1 = monthOf today.ordinal + k := by
      have hstart := today.month_eq
      omega
    rw [resolveRelativeDate_eq]
    simp only [resolve, hunit, hoffset, toOption_bind, toOption_monthRange, toOption_pure,
      join_map_some]
    rw [hmonth]

theorem monthStart_year (y : Int) : monthStart (12 * y) = yearStart y := by
  have hstart := monthStart_eq y (Nat.zero_le 12)
  rw [Nat.cast_zero, add_zero] at hstart
  rw [hstart, yearStart]
  simp [daysBeforeMonth]

theorem resolves_year (hunit : expr.unit = .year) (hoffset : expr.offset = some k) :
    Resolves expr today (yearStart (yearOf today.ordinal + k))
      (yearStart (yearOf today.ordinal + k + 1) - 1) where
  order := by
    have hstep := tiling_years.step (yearOf today.ordinal + k)
    omega
  days := by
    intro n
    simp only [RelativeDate.Names, hunit, hoffset, Option.mem_def, Option.some.injEq,
      exists_eq_left', tiling_years.index_eq_iff]
    omega
  code := by
    have hjanuary := toOption_civil_first (12 * (today.year + k))
    have hdecember := toOption_civil_last (12 * (today.year + k) + 11)
    have hfirst : 12 * (today.year + k) / 12 = today.year + k ∧ 12 * (today.year + k) % 12 = 0 := by
      omega
    have hlast : (12 * (today.year + k) + 11) / 12 = today.year + k ∧
        (12 * (today.year + k) + 11) % 12 = 11 := by omega
    have hnext : 12 * (today.year + k) + 11 + 1 = 12 * (today.year + k + 1) := by ring
    have hlength : monthLength (isLeap (today.year + k)) (11 + 1 - 1 : Int).toNat = 31 := by
      cases isLeap (today.year + k) <;> rfl
    rw [hfirst.1, hfirst.2, monthStart_year] at hjanuary
    rw [hlast.1, hlast.2, hlength, hnext, monthStart_year] at hdecember
    rw [resolveRelativeDate_eq]
    simp only [resolve, hunit, hoffset, toOption_bind, toOption_pure]
    rw [show (0 : Int) + 1 = 1 from rfl] at hjanuary
    rw [show (11 : Int) + 1 = 12 from rfl] at hdecember
    rw [hjanuary]
    simp only [hdecember]
    apply eq_between
    intro a b
    simp only [Option.join_eq_some_iff, Option.bind_eq_some_iff, dateAt_eq_some, Option.some.injEq,
      Prod.mk.injEq]
    constructor
    · rintro ⟨first, hfirst, last, hlast, rfl, rfl⟩
      exact ⟨hfirst, hlast⟩
    · rintro ⟨ha, hb⟩
      exact ⟨a, ha, b, hb, rfl, rfl⟩

theorem Season.startMonth_bounds (s : Season) : 1 ≤ s.startMonth ∧ s.startMonth ≤ 12 := by
  cases s <;> decide

/-- The year of the latest season to have begun. -/
theorem seasonYear_latest (s : Season) (today : Date) :
    SeasonYear none s today.ordinal
      (if monthStart (12 * today.year + s.startMonth - 1) ≤ today.ordinal then today.year
        else today.year - 1) := by
  have hbounds := s.startMonth_bounds
  have hmonth := monthOf_div today.ordinal
  unfold SeasonYear Date.year
  simp only [IsGreatest, upperBounds, Set.mem_ofPred_eq, tiling_months.start_le_iff]
  split
  · exact ⟨by omega, fun y hy => by omega⟩
  · exact ⟨by omega, fun y hy => by omega⟩

theorem seasonYear_unique {s : Season} {t y y' : Int} {offset : Option Int}
    (h : SeasonYear offset s t y) (h' : SeasonYear offset s t y') : y = y' := by
  cases offset with
  | some k => exact h.trans h'.symm
  | none => exact IsGreatest.unique h h'

theorem Date.year_bounds (d : Date) : 1 ≤ d.year ∧ d.year ≤ 9999 := by
  have hrange := d.inRange
  have hfirst : monthStart 12 = 1 := by decide
  have hlast : monthStart 120000 = maxOrdinal + 1 := by decide
  have hlow := tiling_months.start_le_iff (k := 12) (n := d.ordinal)
  have hhigh := tiling_months.start_le_iff (k := 120000) (n := d.ordinal)
  have hmonth := monthOf_div d.ordinal
  unfold Date.year
  omega

/-- The year the code takes. -/
theorem seasonYear_ok (s : Season) (offset : Option Int) (today : Date) :
    ∃ y, SeasonYear offset s today.ordinal y ∧ seasonYear s offset today = .ok y := by
  cases offset with
  | some k => exact ⟨today.year + k, rfl, rfl⟩
  | none =>
      have hbounds := s.startMonth_bounds
      have hcivil := toOption_civil_first (12 * today.year + s.startMonth - 1)
      have hyear : (12 * today.year + s.startMonth - 1) / 12 = today.year ∧
          (12 * today.year + s.startMonth - 1) % 12 + 1 = s.startMonth := by omega
      have hrange := (monthStart_range (k := 12 * today.year + s.startMonth - 1)).1
      rw [hyear.1, hyear.2] at hcivil
      rw [hyear.1] at hrange
      obtain ⟨start, hstart⟩ := exists_date (hrange.mpr today.year_bounds)
      rw [dateAt_eq_some.mpr hstart] at hcivil
      have hok : Date.civil today.year s.startMonth 1 = .ok start := by
        cases hcase : Date.civil today.year s.startMonth 1 with
        | ok d =>
            rw [hcase] at hcivil
            cases hcivil
            rfl
        | error e =>
            rw [hcase] at hcivil
            cases hcivil
      refine ⟨_, seasonYear_latest s today, ?_⟩
      simp only [seasonYear, hok, except_ok_bind, hstart]
      rfl

theorem resolves_season {s : Season} (hunit : expr.unit = .season)
    (hseason : expr.season = some s) :
    ∃ first last, Resolves expr today first last := by
  obtain ⟨y, hy, hyear⟩ := seasonYear_ok s expr.offset today
  refine ⟨monthStart (12 * y + s.startMonth - 1), monthStart (12 * y + s.startMonth - 1 + 3) - 1,
    ?_, fun n => ?_, ?_⟩
  · have hmono := tiling_months.strictMono (a := 12 * y + s.startMonth - 1)
      (b := 12 * y + s.startMonth - 1 + 3) (by omega)
    omega
  · simp only [RelativeDate.Names, hunit, hseason, Option.mem_def, Option.some.injEq,
      exists_eq_left']
    constructor
    · rintro ⟨y', hy', hmonths⟩
      obtain rfl := seasonYear_unique hy hy'
      have hdays := tiling_months.index_mem_iff.mp hmonths
      omega
    · intro hdays
      exact ⟨y, hy, tiling_months.index_mem_iff.mpr ⟨hdays.1, by omega⟩⟩
  · rw [resolveRelativeDate_eq]
    simp only [resolve, hunit, hseason, hyear, except_ok_bind, toOption_bind, toOption_monthRange,
      toOption_pure, join_map_some]

/-- **A relative date is resolved exactly.** Without a field its unit needs it names no range;
otherwise the range is that of the days it names, if both ends are dates. -/
theorem resolveRelativeDate_exact (expr : RelativeDate) (today : Date) :
    (¬ expr.Complete → resolveRelativeDate expr today = none) ∧
      (expr.Complete → ∃ first last, Resolves expr today first last) := by
  constructor
  · intro hcomplete
    unfold RelativeDate.Complete at hcomplete
    rw [resolveRelativeDate_eq, resolve]
    cases hunit : expr.unit <;> simp only [hunit, Option.not_isSome_iff_eq_none] at hcomplete ⊢ <;>
      first
        | rfl
        | rw [hcomplete]; rfl
  · intro hcomplete
    unfold RelativeDate.Complete at hcomplete
    cases hunit : expr.unit <;> simp only [hunit, Option.isSome_iff_exists] at hcomplete
    case day =>
      obtain ⟨k, hk⟩ := hcomplete
      exact ⟨_, _, resolves_day hunit hk⟩
    case week =>
      obtain ⟨k, hk⟩ := hcomplete
      cases hweekday : expr.weekday with
      | none => exact ⟨_, _, resolves_week hunit hk hweekday⟩
      | some w => exact ⟨_, _, resolves_weekdayOfWeek hunit hk hweekday⟩
    case weekday =>
      obtain ⟨w, hw⟩ := hcomplete
      exact ⟨_, _, resolves_weekday hunit hw⟩
    case month =>
      obtain ⟨k, hk⟩ := hcomplete
      exact ⟨_, _, resolves_month hunit hk⟩
    case year =>
      obtain ⟨k, hk⟩ := hcomplete
      exact ⟨_, _, resolves_year hunit hk⟩
    case season =>
      obtain ⟨s, hs⟩ := hcomplete
      exact resolves_season hunit hs

/-- The first and the last day are determined by the days named. -/
theorem Resolves.unique {first' last' : Int} (h : Resolves expr today first last)
    (h' : Resolves expr today first' last') : first = first' ∧ last = last' := by
  have horder := h.order
  have horder' := h'.order
  have hfirst := (h'.days first).mp ((h.days first).mpr ⟨by omega, by omega⟩)
  have hlast := (h'.days last).mp ((h.days last).mpr ⟨by omega, by omega⟩)
  have hfirst' := (h.days first').mp ((h'.days first').mpr ⟨by omega, by omega⟩)
  have hlast' := (h.days last').mp ((h'.days last').mpr ⟨by omega, by omega⟩)
  omega

/-- Units that are counted from this one: weeks as a whole, months and years. -/
def RelativeDate.Counted (expr : RelativeDate) : Prop :=
  (expr.unit = .week ∧ expr.weekday = none) ∨ expr.unit = .month ∨ expr.unit = .year

/-- **Consecutive offsets tile the calendar**: each day is in the range of one offset, and a range
begins on the day behind the range before. -/
theorem tiles_of_counted (hcounted : expr.Counted) (today : Date) :
    (∀ n, ∃! k, RelativeDate.Names { expr with offset := some k } today.ordinal n) ∧
      ∀ k first last first' last',
        Resolves { expr with offset := some k } today first last →
        Resolves { expr with offset := some (k + 1) } today first' last' → first' = last + 1 := by
  rcases hcounted with ⟨hunit, hweekday⟩ | hunit | hunit
  · refine ⟨fun n => ⟨weekOf n - weekOf today.ordinal, ?_, fun k hk => ?_⟩,
      fun k first last first' last' h h' => ?_⟩
    · simp [RelativeDate.Names, hunit, hweekday]
    · simp [RelativeDate.Names, hunit, hweekday] at hk
      omega
    · obtain ⟨-, rfl⟩ := h.unique (resolves_week hunit rfl hweekday)
      obtain ⟨rfl, -⟩ := h'.unique (resolves_week hunit rfl hweekday)
      rw [← add_assoc]
      omega
  · refine ⟨fun n => ⟨monthOf n - monthOf today.ordinal, ?_, fun k hk => ?_⟩,
      fun k first last first' last' h h' => ?_⟩
    · simp [RelativeDate.Names, hunit]
    · simp [RelativeDate.Names, hunit] at hk
      omega
    · obtain ⟨-, rfl⟩ := h.unique (resolves_month hunit rfl)
      obtain ⟨rfl, -⟩ := h'.unique (resolves_month hunit rfl)
      rw [← add_assoc]
      omega
  · refine ⟨fun n => ⟨yearOf n - yearOf today.ordinal, ?_, fun k hk => ?_⟩,
      fun k first last first' last' h h' => ?_⟩
    · simp [RelativeDate.Names, hunit]
    · simp [RelativeDate.Names, hunit] at hk
      omega
    · obtain ⟨-, rfl⟩ := h.unique (resolves_year hunit rfl)
      obtain ⟨rfl, -⟩ := h'.unique (resolves_year hunit rfl)
      rw [← add_assoc]
      omega

end Yeodam.Search
