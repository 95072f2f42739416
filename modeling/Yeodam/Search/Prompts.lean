/-
What the model makes of a question (`parse_output` and `_date_range` in `app/search/prompts.py`,
`ParseResponse` in `app/schemas/query.py`).

The dates of the answer are those of its relative date, or else the written ones, cut at the day of
the question (`dateRange_cut`). `parsedDates_exact`: any output is read as a response with dates in
order, or refused; there is no other error.
-/

import Yeodam.Jobs.Messages
import Yeodam.Search.Dates
import Yeodam.Search.Regions

namespace Yeodam.Search

open Yeodam.Lib Yeodam.Schemas Yeodam.Jobs

/-! ### Schemas -/

inductive Intent where
  | search
  | question
deriving DecidableEq

def intents : List (String × Intent) := [("SEARCH", .search), ("QUESTION", .question)]

/-- What `parse_output` reads of a `ParseRequest`. -/
structure ParseRequest where
  query : String
  referenceDate : Date

structure ParseResponse where
  intent : Intent
  dateFrom : Option Date
  dateTo : Option Date
  regionNames : Option (List String)
  visualQuery : Option String
  parsed : Bool

/-- `ordered_dates` -/
def ParseResponse.ordered (r : ParseResponse) : Bool :=
  !r.dateFrom.any fun a => r.dateTo.any fun b => b.ordinal < a.ordinal

structure ParseOutput where
  intent : Intent
  dateFrom : Option String
  dateTo : Option String
  relativeDate : RelativeDate
  regionNames : Option (List String)
  visualQuery : Option String

def dateUnits : List (String × DateUnit) :=
  [("none", .none), ("day", .day), ("week", .week), ("weekday", .weekday), ("month", .month),
    ("year", .year), ("season", .season)]

def weekdays : List (String × Weekday) :=
  [("MON", .mon), ("TUE", .tue), ("WED", .wed), ("THU", .thu), ("FRI", .fri), ("SAT", .sat),
    ("SUN", .sun)]

def seasons : List (String × Season) :=
  [("SPRING", .spring), ("SUMMER", .summer), ("FALL", .fall), ("WINTER", .winter)]

section Validation

variable (lib : Libraries) (digit : Char → Bool)

def RelativeDate.validate : Value → Option RelativeDate :=
  strictModel ["unit", "offset", "weekday", "season"] fun v => do
    let unit ← required (oneOf dateUnits) "unit" v
    let offset ← required (nullable lib.int) "offset" v
    let weekday ← required (nullable (oneOf weekdays)) "weekday" v
    let season ← required (nullable (oneOf seasons)) "season" v
    return ⟨unit, offset, weekday, season⟩

/-- The pattern of a `DateText`, whose `\d` is a decimal digit of any script. -/
def datePattern (s : String) : Bool :=
  match s.toList with
  | [y₁, y₂, y₃, y₄, '-', m₁, m₂, '-', d₁, d₂] => [y₁, y₂, y₃, y₄, m₁, m₂, d₁, d₂].all digit
  | _ => false

def ParseOutput.validate : Value → Option ParseOutput :=
  strictModel ["intent", "date_from", "date_to", "relative_date", "region_names", "visual_query"]
    fun v => do
      let intent ← required (oneOf intents) "intent" v
      let dateFrom ← required (nullable (constrained str (datePattern digit))) "date_from" v
      let dateTo ← required (nullable (constrained str (datePattern digit))) "date_to" v
      let relativeDate ← required (RelativeDate.validate lib) "relative_date" v
      let regionNames ← required (nullable (listOf str)) "region_names" v
      let visualQuery ← required (nullable str) "visual_query" v
      return ⟨intent, dateFrom, dateTo, relativeDate, regionNames, visualQuery⟩

end Validation

/-! ### Dates -/

/-- The number some decimal digits write. -/
def decimal (digits : List Char) : Int :=
  digits.foldl (fun n c => 10 * n + (c.toNat - '0'.toNat : Nat)) 0

/-- `date.fromisoformat` of a text of the pattern: only the digits of ASCII make a date. -/
def fromIsoFormat (s : String) : Except DateRaised Date :=
  match s.toList with
  | [y₁, y₂, y₃, y₄, '-', m₁, m₂, '-', d₁, d₂] =>
      if [y₁, y₂, y₃, y₄, m₁, m₂, d₁, d₂].all Char.isDigit then
        Date.civil (decimal [y₁, y₂, y₃, y₄]) (decimal [m₁, m₂]) (decimal [d₁, d₂])
      else .error .value
  | _ => .error .value

/-- `date.fromisoformat(text) if text else None` -/
def writtenDate (text : Option String) : Except DateRaised (Option Date) :=
  match text with
  | some s => if s = "" then .ok none else return some (← fromIsoFormat s)
  | none => .ok none

/-- A range, its ends where they are known. -/
abbrev DateRange := Option Date × Option Date

/-- The range before it is cut, none where there is none. Only a `ValueError` is caught. -/
def uncutRange (output : ParseOutput) (today : Date) : Except DateRaised (Option DateRange) :=
  if output.relativeDate.unit ≠ .none then
    match resolveRelativeDate output.relativeDate today with
    | none => .ok none
    | some (start, stop) => .ok (some (some start, some stop))
  else
    let written : Except DateRaised DateRange := do
      let start ← writtenDate output.dateFrom
      let stop ← writtenDate output.dateTo
      return (start, stop)
    match written with
    | .ok range => .ok (some range)
    | .error .value => .ok none
    | .error .overflow => .error .overflow

/-- `min(end, today)` -/
def Date.earlier (a b : Date) : Date := if b.ordinal < a.ordinal then b else a

/-- `_date_range` -/
def dateRange (output : ParseOutput) (today : Date) : Except DateRaised DateRange := do
  match ← uncutRange output today with
  | none => return (none, none)
  | some (start, stop) =>
      let stop := stop.map fun e => e.earlier today
      if start.any fun s => (stop.getD today).ordinal < s.ordinal then return (none, none)
      else return (start, stop)

/-! ### `parse_output` -/

inductive ParseRaised where
  /-- `InvalidModelOutput` -/
  | invalidModelOutput
  | date (raised : DateRaised)
  /-- The `ValidationError` of the response. -/
  | validation
deriving DecidableEq

variable {R : Type}

/-- `parse_output`. `parse` is the JSON parser of pydantic, none where it rejects the text. -/
def parseOutput (lib : Libraries) (digit : Char → Bool) (catalog : List String)
    (parse : R → Option Value) (raw : R) (request : ParseRequest) :
    Except ParseRaised ParseResponse :=
  match (parse raw).bind (ParseOutput.validate lib digit) with
  | none => .error .invalidModelOutput
  | some output =>
      match dateRange output request.referenceDate with
      | .error e => .error (.date e)
      | .ok (dateFrom, dateTo) =>
          let names := ((output.regionNames.getD []).map strip).filter fun name => name ≠ ""
          let visualQuery := strip (output.visualQuery.getD "")
          let response : ParseResponse :=
            { intent := output.intent
              dateFrom := dateFrom
              dateTo := dateTo
              regionNames := toCatalogNames catalog names
              visualQuery := if visualQuery = "" then none else some visualQuery
              parsed := true }
          if response.ordered then .ok response else .error .validation

/-! ### What the dates mean -/

/-- The range an output names: that of its relative date, or else the written one. -/
def ParseOutput.range (output : ParseOutput) (today : Date) : Option DateRange :=
  if output.relativeDate.unit ≠ .none then
    (resolveRelativeDate output.relativeDate today).map fun range => (some range.1, some range.2)
  else do
    let start ← (writtenDate output.dateFrom).toOption
    let stop ← (writtenDate output.dateTo).toOption
    return (start, stop)

/-- A date of a range. -/
def DateRange.Has (range : DateRange) (d : Date) : Prop :=
  (∀ s ∈ range.1, s.ordinal ≤ d.ordinal) ∧ ∀ e ∈ range.2, d.ordinal ≤ e.ordinal

/-- The days of a range up to `today`, or no range where there are none. -/
structure CutAt (today : Date) (range : Option DateRange) (result : DateRange) : Prop where
  order : ∀ s ∈ result.1, ∀ e ∈ result.2, s.ordinal ≤ e.ordinal
  start : ∀ s ∈ result.1, s.ordinal ≤ today.ordinal
  stop : ∀ e ∈ result.2, e.ordinal ≤ today.ordinal
  days : ∀ r, range = some r → (∃ d : Date, d.ordinal ≤ today.ordinal ∧ r.Has d) →
    ∀ d : Date, d.ordinal ≤ today.ordinal → (result.Has d ↔ r.Has d)
  none : (∀ r, range = some r → ¬ ∃ d : Date, d.ordinal ≤ today.ordinal ∧ r.Has d) →
    result = (none, none)

variable {today : Date} {output : ParseOutput} {range : DateRange}

/-- Years and days of four and two digits never leave the calendar but by a `ValueError`. -/
theorem civil_ne_overflow (year month day : Int) :
    Date.civil year month day ≠ .error .overflow := by
  unfold Date.civil
  split
  · rename_i h
    obtain ⟨hlow, hhigh, hm, hm', hd, hd'⟩ := h
    obtain ⟨m, rfl⟩ : ∃ m : Nat, month = m + 1 := ⟨(month - 1).toNat, by omega⟩
    have hm : m < 12 := by omega
    have hmonth : ((m : Int) + 1 - 1).toNat = m := by omega
    have hstart := monthStart_eq year (Nat.le_of_lt hm)
    have hlength := daysBeforeMonth_succ (isLeap year) ⟨m, hm⟩
    have hnext := monthStart_eq year (show m + 1 ≤ 12 from hm)
    have hdiv : (12 * year + (m : Int)) / 12 = year := by omega
    have hfirst := (monthStart_range (k := 12 * year + m)).1
    have hlast := (monthStart_range (k := 12 * year + m)).2
    rw [hdiv] at hfirst hlast
    have hnumber : 12 * year + ((m + 1 : Nat) : Int) = 12 * year + m + 1 := by omega
    rw [hnumber] at hnext
    rw [hmonth] at hd' ⊢
    dsimp only at hlength
    unfold Date.fromOrdinal
    rw [dif_pos (by omega)]
    exact nofun
  · exact nofun

theorem writtenDate_ne_overflow (text : Option String) : writtenDate text ≠ .error .overflow := by
  unfold writtenDate
  split
  · rename_i s
    split
    · exact nofun
    · intro h
      rcases except_bind_eq_error.mp h with h | ⟨d, -, h⟩
      · unfold fromIsoFormat at h
        split at h
        · split at h
          · exact civil_ne_overflow _ _ _ h
          · cases h
        · cases h
      · cases h
  · exact nofun

/-- What is raised is caught: the uncut range is the one that is named. -/
theorem uncutRange_eq (output : ParseOutput) (today : Date) :
    uncutRange output today = .ok (output.range today) := by
  unfold uncutRange ParseOutput.range
  split
  · cases resolveRelativeDate output.relativeDate today <;> rfl
  · cases hstart : writtenDate output.dateFrom with
    | error e =>
        cases e with
        | overflow => exact absurd hstart (writtenDate_ne_overflow _)
        | value => rfl
    | ok start =>
        cases hstop : writtenDate output.dateTo with
        | error e =>
            cases e with
            | overflow => exact absurd hstop (writtenDate_ne_overflow _)
            | value => rfl
        | ok stop => rfl

theorem Date.earlier_ordinal (a b : Date) :
    (a.earlier b).ordinal = min a.ordinal b.ordinal := by
  unfold Date.earlier
  split <;> omega

/-- **The dates are the named range, cut at today.** -/
theorem dateRange_cut (output : ParseOutput) (today : Date) :
    ∃ result, dateRange output today = .ok result ∧ CutAt today (output.range today) result := by
  unfold dateRange
  rw [uncutRange_eq, except_ok_bind]
  cases output.range today with
  | none => exact ⟨(none, none), rfl, nofun, nofun, nofun, nofun, fun _ => rfl⟩
  | some range =>
      obtain ⟨start, stop⟩ := range
      dsimp only
      -- The last day that counts.
      have hlast : ((stop.map fun e => e.earlier today).getD today).ordinal =
          (stop.map fun e => min e.ordinal today.ordinal).getD today.ordinal := by
        cases stop with
        | none => rfl
        | some e => exact Date.earlier_ordinal e today
      have hhas : ∀ d : Date, d.ordinal ≤ today.ordinal → ((∀ e ∈ stop, d.ordinal ≤ e.ordinal) ↔
          d.ordinal ≤ ((stop.map fun e => e.earlier today).getD today).ordinal) := by
        intro d hd
        rw [hlast]
        cases stop with
        | none => simpa using hd
        | some e => simp [hd]
      have hle : ((stop.map fun e => e.earlier today).getD today).ordinal ≤ today.ordinal := by
        rw [hlast]
        cases stop with
        | none => exact le_refl _
        | some e => exact min_le_right _ _
      split
      · rename_i hafter
        obtain ⟨s, rfl, hlt⟩ := (Option.any_eq_true _ _).mp hafter
        rw [decide_eq_true_eq] at hlt
        have hempty : ¬ ∃ d : Date, d.ordinal ≤ today.ordinal ∧ DateRange.Has (some s, stop) d := by
          rintro ⟨d, hd, hs, he⟩
          have hsd := hs s rfl
          have hde := (hhas d hd).mp he
          omega
        refine ⟨(none, none), rfl, nofun, nofun, nofun, ?_, fun _ => rfl⟩
        intro r hr hex
        cases hr
        exact absurd hex hempty
      · rename_i hbefore
        have hstart : ∀ s ∈ start,
            s.ordinal ≤ ((stop.map fun e => e.earlier today).getD today).ordinal := by
          intro s hs
          rw [Option.mem_def.mp hs, Option.any_some, decide_eq_true_eq] at hbefore
          omega
        refine ⟨(start, stop.map fun e => e.earlier today), rfl, ?_, fun s hs => ?_, ?_, ?_, ?_⟩
        · intro s hs e he
          have hse := hstart s hs
          have he : stop.map (fun e => e.earlier today) = some e := he
          rw [he] at hse
          exact hse
        · exact (hstart s hs).trans hle
        · intro e he
          have he : stop.map (fun e => e.earlier today) = some e := he
          rw [he] at hle
          exact hle
        · intro r hr _ d hd
          cases hr
          unfold DateRange.Has
          rw [hhas d hd]
          apply and_congr_right
          intro _
          cases stop with
          | none => simpa using hd
          | some e => simp
        · intro hnone
          -- The last day that counts is in the range.
          have hin : DateRange.Has (start, stop)
              ((stop.map fun e => e.earlier today).getD today) :=
                ⟨hstart, (hhas _ hle).mpr (le_refl _)⟩
          exact absurd ⟨_, hle, hin⟩ (hnone _ rfl)

theorem ParseResponse.ordered_of {r : ParseResponse}
    (h : ∀ a ∈ r.dateFrom, ∀ b ∈ r.dateTo, a.ordinal ≤ b.ordinal) : r.ordered = true := by
  unfold ParseResponse.ordered
  cases hfrom : r.dateFrom with
  | none => rfl
  | some a =>
      cases hto : r.dateTo with
      | none => rfl
      | some b =>
          have hab := h a hfrom b hto
          simp only [Option.any_some, Bool.not_eq_true', decide_eq_false_iff_not]
          omega

/-- What `parse_output` makes of a text. -/
structure ParsesDates (lib : Libraries) (digit : Char → Bool) (catalog : List String)
    (parse : R → Option Value) (raw : R) (request : ParseRequest) : Prop where
  refused : (parse raw).bind (ParseOutput.validate lib digit) = none →
    parseOutput lib digit catalog parse raw request = .error .invalidModelOutput
  read : ∀ output, (parse raw).bind (ParseOutput.validate lib digit) = some output →
    ∃ response, parseOutput lib digit catalog parse raw request = .ok response ∧
      CutAt request.referenceDate (output.range request.referenceDate)
        (response.dateFrom, response.dateTo)

theorem parsesDates (lib : Libraries) (digit : Char → Bool) (catalog : List String)
    (parse : R → Option Value) (raw : R) (request : ParseRequest) :
    ParsesDates lib digit catalog parse raw request where
  refused := by
    intro h
    simp only [parseOutput, h]
  read := by
    intro output h
    obtain ⟨⟨dateFrom, dateTo⟩, hrange, hcut⟩ := dateRange_cut output request.referenceDate
    simp only [parseOutput, h, hrange]
    rw [if_pos]
    · exact ⟨_, rfl, hcut⟩
    · exact ParseResponse.ordered_of hcut.order

/-- **Dates of a parsed query denote calendar units and never break the response.** -/
theorem parsedDates_exact (lib : Libraries) (digit : Char → Bool) (catalog : List String)
    (parse : R → Option Value) :
    (∀ (expr : RelativeDate) (today : Date),
      (¬ expr.Complete → resolveRelativeDate expr today = none) ∧
        (expr.Complete → ∃ first last, Resolves expr today first last)) ∧
    (∀ (expr : RelativeDate) (today : Date), expr.Counted →
      (∀ n, ∃! k, RelativeDate.Names { expr with offset := some k } today.ordinal n) ∧
        ∀ k first last first' last',
          Resolves { expr with offset := some k } today first last →
          Resolves { expr with offset := some (k + 1) } today first' last' → first' = last + 1) ∧
    ∀ (raw : R) (request : ParseRequest), ParsesDates lib digit catalog parse raw request :=
  ⟨resolveRelativeDate_exact, fun _ today hcounted => tiles_of_counted hcounted today,
    fun raw request => parsesDates lib digit catalog parse raw request⟩

example : (resolveRelativeDate ⟨.season, none, none, some .winter⟩ ⟨738155, by decide⟩).map
    (fun range => (range.1.ordinal, range.2.ordinal)) = some (738125, 738214) := by
  decide +kernel

end Yeodam.Search
