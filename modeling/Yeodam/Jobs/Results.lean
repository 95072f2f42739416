/-
Results through `check_payload`: which rendered results are rendered the same again.

`JobResultEvent.check_payload` runs whenever an event is built or read, and replaces the
result by its rendering. `renderResult_again` gives the results this leaves alone from
then on: every story, and every `process` result whose times all fall on whole-minute
offsets of Seoul.
-/

import Yeodam.Jobs.Messages
import Yeodam.Schemas.Rendering

namespace Yeodam.Jobs

open Yeodam.Lib Yeodam.Schemas

variable {lib : Libraries}

/-! ### Stories -/

theorem strictModel_cases {α : Type} {keys : List String} {decode : Value → Option α} {v : Value}
    {x : α} (h : strictModel keys decode v = some x) : decode v = some x := by
  unfold strictModel at h
  split at h
  · exact model_cases h
  · cases h

theorem strictModel_record {α : Type} {keys : List String} {decode : Value → Option α}
    {fields : List (String × Value)} (h : (fields.map Prod.fst).all fun k => keys.contains k) :
    strictModel keys decode (.record fields) = decode (.record fields) := by
  have hkeys : onlyKeys keys (.record fields) = true := by
    simpa [onlyKeys, Value.record] using h
  simp [strictModel, hkeys, model]

/-- A constrained value is read back if the value is. -/
theorem constrained_again {α : Type} {decode : Value → Option α} {ok : α → Bool} {x : α}
    {u v : Value} (h : constrained decode ok u = some x) (hread : decode v = some x) :
    constrained decode ok v = some x := by
  simp only [constrained, hread]
  exact Option.filter_some_pos (constrained_cases h).2

theorem strBetween_again {lo hi : Nat} {u : Value} {s : String}
    (h : strBetween lo hi u = some s) : strBetween lo hi (.ofString s) = some s :=
  constrained_again h rfl

theorem StoryBlock.validate_render (hlib : lib.Lawful) {v : Value} {b : StoryBlock}
    (h : StoryBlock.validate lib v = some b) : StoryBlock.validate lib b.render = some b := by
  replace h := strictModel_cases h
  simp only [Option.bind_eq_bind, Option.bind_eq_some_iff, Option.pure_def] at h
  obtain ⟨n, hn, _, -, _, -, label, hlabel, summary, hsummary, memo, hmemo, h⟩ := h
  cases h
  obtain ⟨_, hn⟩ := required_cases hn
  obtain ⟨_, hlabel⟩ := required_cases hlabel
  obtain ⟨_, hsummary⟩ := required_cases hsummary
  obtain ⟨_, hmemo⟩ := required_cases hmemo
  rw [validate, render, strictModel_record (by simp)]
  have hn' : positive lib (.int n) = some n := constrained_again hn (hlib.int n)
  simp [required, get?_record, List.lookup_cons, hn', hlib.int, strBetween_again hlabel,
    strBetween_again hsummary, strBetween_again hmemo]

theorem verification_render (hlib : lib.Lawful) {v : Value} {passed : Bool} {retryCount : Int}
    (h : verification lib v = some (passed, retryCount)) :
    verification lib (.record [("passed", .bool passed), ("retry_count", .int retryCount)]) =
      some (passed, retryCount) := by
  replace h := strictModel_cases h
  simp only [Option.bind_eq_bind, Option.bind_eq_some_iff, Option.pure_def] at h
  obtain ⟨_, -, n, hn, h⟩ := h
  cases h
  obtain ⟨_, hn⟩ := required_cases hn
  rw [verification, strictModel_record (by simp)]
  have hn' := constrained_again hn (hlib.int retryCount)
  simp [required, get?_record, List.lookup_cons, hn', Schemas.bool]

/-- A rendered story is read back as it was. -/
theorem StoryResult.validate_render (hlib : lib.Lawful) {v : Value} {r : StoryResult}
    (h : StoryResult.validate lib v = some r) : StoryResult.validate lib r.render = some r := by
  replace h := strictModel_cases h
  simp only [Option.bind_eq_bind, Option.bind_eq_some_iff, Option.pure_def] at h
  obtain ⟨summary, hsummary, blocks, hblocks, ⟨passed, retryCount⟩, hverification, h⟩ := h
  cases h
  obtain ⟨_, hsummary⟩ := required_cases hsummary
  obtain ⟨_, hblocks⟩ := required_cases hblocks
  obtain ⟨_, hverification⟩ := required_cases hverification
  have hlist : listOf (StoryBlock.validate lib) (renderList StoryBlock.render blocks) =
      some (blocks.map id) := by
    apply listOf_renderList
    intro b hb
    obtain ⟨u, hu⟩ := listOf_mem (constrained_cases hblocks).1 b hb
    exact StoryBlock.validate_render hlib hu
  rw [List.map_id] at hlist
  have hblocks' : listUpTo (StoryBlock.validate lib) 30 (renderList StoryBlock.render blocks) =
      some blocks := constrained_again hblocks hlist
  rw [validate, render, strictModel_record (by simp)]
  simp [required, get?_record, List.lookup_cons, strBetween_again hsummary, hblocks',
    verification_render hlib hverification]

/-! ### Rendering again -/

/-- Every time of a `process` result falls on a whole-minute offset of Seoul. -/
def TimesWhole (lib : Libraries) (type : EventType) (result : Value) : Prop :=
  type = .processResult → ∀ r, ProcessResult.validate lib result = some r →
    ∀ t ∈ r.times, WholeMinutes lib t

/-- A rendered result whose times are whole is rendered the same again. -/
theorem renderResult_again (hlib : lib.Lawful) {type : EventType} {result rendered : Value}
    (hwhole : TimesWhole lib type result) (h : renderResult lib type result = some rendered) :
    renderResult lib type rendered = some rendered := by
  cases type with
  | processResult =>
      obtain ⟨r, hr, hrender⟩ := Option.bind_eq_some_iff.mp h
      have hread := ProcessResult.validate_render hlib hr (hwhole rfl r hr) hrender
      simp [renderResult, hread, hrender]
  | storyResult =>
      obtain ⟨r, hr, rfl⟩ := Option.map_eq_some_iff.mp h
      simp [renderResult, StoryResult.validate_render hlib hr]

end Yeodam.Jobs
