/-
The result of a story (`finalize` in `app/story/pipeline.py`, the drafts in
`app/story/prompts.py`).

The raw text of the model is read as a draft, its photo ids are compared with the selected ones,
and the result is put together in the order the photos were taken. `finalize_exact`: a result
comes out exactly for a draft with every selected photo once, and nothing but the output failure
for any other text. The comparisons are of a count and of two sets (`draftRows_ok`); what follows
them cannot fail, a draft being held to the bounds of the result (`assemble_ok`).
-/

import Yeodam.Jobs.Results
import Yeodam.Jobs.Steps
import Yeodam.Lib.Dict
import Yeodam.Lib.Permuted
import Yeodam.Story.Selection

namespace Yeodam.Story

open Yeodam.Lib Yeodam.Schemas Yeodam.Jobs

/-! ### Drafts -/

structure DraftBlock where
  tripAttachmentId : Int
  detailSummary : String
  memo : String
deriving DecidableEq

structure StoryDraft where
  storySummary : String
  blocks : List DraftBlock

/-- Strict `int`: of JSON, the integers. -/
def strictInt : Value → Option Int
  | .int n => some n
  | _ => none

def DraftBlock.validate : Value → Option DraftBlock :=
  strictModel ["trip_attachment_id", "detail_summary", "memo"] fun v => do
    let tripAttachmentId ← required strictInt "trip_attachment_id" v
    let detailSummary ← required (strBetween 1 40) "detail_summary" v
    let memo ← required (strBetween 1 125) "memo" v
    return ⟨tripAttachmentId, detailSummary, memo⟩

def StoryDraft.validate : Value → Option StoryDraft :=
  strictModel ["story_summary", "blocks"] fun v => do
    let storySummary ← required (strBetween 1 40) "story_summary" v
    let blocks ← required (listUpTo DraftBlock.validate 30) "blocks" v
    return ⟨storySummary, blocks⟩

/-! ### What is raised -/

/-- The rules `invalid_output` logs. Nothing in the last block raises a `ValueError` that is no
`ValidationError`, so there is no `result_value`. -/
inductive OutputRule where
  | draftSchema
  | duplicatePhoto
  | photoSetMismatch
  | placeMissing
  | resultSchema
deriving DecidableEq, Repr

inductive FinalizeRaised where
  /-- `failure(code, message, reason=..)`, with the rule that was logged. -/
  | failure (rule : OutputRule) (code : ErrorCode) (message reason : String)
  | key
  /-- `OverflowError`: no datetime. -/
  | overflow
deriving DecidableEq

def invalidOutput (rule : OutputRule) : FinalizeRaised :=
  .failure rule .internalError "생성된 스토리가 출력 규칙을 만족하지 못했습니다."
    "INVALID_STORY_OUTPUT"

/-! ### `finalize` -/

/-- The photos of a selection, each with the id of its place. -/
abbrev Selected := List (Int × StoryAttachment)

/-- A block of a draft with the photo it is about. -/
abbrev DraftRow := DraftBlock × Int × StoryAttachment

variable {R : Type} (lib : Libraries)

/-- `taken_at.astimezone(ZoneInfo("Asia/Seoul")).date()`, in days from the start of 1970. -/
def seoulDate (t : AwareTime) : Except FinalizeRaised Int :=
  match toKst lib t with
  | some kst => .ok (kst.wall / 86400000000)
  | none => .error .overflow

/-- `s[:n]` -/
def cut (n : Nat) (s : String) : String := String.ofList (s.toList.take n)

def dayLabel (startDate date : Int) (placeName : String) : String :=
  let day := date - startDate + 1
  let label := if day < 1 then lib.renderDate date else toString day ++ "일차"
  cut 40 (label ++ ", " ++ placeName)

/-- `photos[block.trip_attachment_id]` -/
def draftRow (photos : Dict Int (Int × StoryAttachment)) (block : DraftBlock) :
    Except FinalizeRaised DraftRow :=
  match photos.get? block.tripAttachmentId with
  | some item => .ok (block, item)
  | none => .error .key

/-- One round of the loop over the ordered blocks. -/
def storyBlock (startDate : Int) (places : Dict Int String) (e : DraftRow × Nat) :
    Except FinalizeRaised StoryBlock := do
  let date ← seoulDate lib e.1.2.2.takenAt
  let placeName ← match places.get? e.1.2.1 with
    | some name => .ok name
    | none => .error .key
  let block : StoryBlock :=
    { orderNumber := e.2
      tripPlaceId := e.1.2.1
      tripAttachmentId := e.1.1.tripAttachmentId
      dayLabel := dayLabel lib startDate date placeName
      detailSummary := e.1.1.detailSummary
      memo := e.1.1.memo }
  match StoryBlock.validate lib block.render with
  | some block => .ok block
  | none => .error (invalidOutput .resultSchema)

/-- What comes after the checks: the blocks by the time of their photo, and the result. -/
def assemble (request : StoryMessage) (storySummary : String) (rows : List DraftRow) :
    Except FinalizeRaised Value := do
  let places := Dict.collect StoryPlace.tripPlaceId StoryPlace.placeName request.places
  let ordered := sortOn (fun row : DraftRow =>
    toLex (row.2.2.takenAt.instant, row.1.tripAttachmentId)) rows
  let blocks ← (ordered.zipIdx 1).mapM (storyBlock lib request.period.startDate places)
  let result : StoryResult := ⟨storySummary, blocks, true, 0⟩
  match StoryResult.validate lib result.render with
  | some result => .ok result.render
  | none => .error (invalidOutput .resultSchema)

/-- The checks of the photo ids, and the photo of each block. -/
def draftRows (request : StoryMessage) (selected : Selected) (blocks : List DraftBlock) :
    Except FinalizeRaised (List DraftRow) := do
  let photos :=
    Dict.collect (fun item : Int × StoryAttachment => item.2.tripAttachmentId) id selected
  let ids := blocks.map DraftBlock.tripAttachmentId
  if ids.toFinset.card ≠ ids.length then .error (invalidOutput .duplicatePhoto)
  else if ids.toFinset ≠ (photos.entries.map Prod.fst).toFinset then
    .error (invalidOutput .photoSetMismatch)
  else
    let rows ← blocks.mapM (draftRow photos)
    if (rows.map fun row => row.2.1).toFinset ≠
        (request.places.map StoryPlace.tripPlaceId).toFinset then
      .error (invalidOutput .placeMissing)
    else .ok rows

/-- `finalize`. `parse` is the JSON parser of pydantic, none where it rejects the text. -/
def finalize (parse : R → Option Value) (raw : R) (request : StoryMessage) (selected : Selected) :
    Except FinalizeRaised Value :=
  match (parse raw).bind StoryDraft.validate with
  | none => .error (invalidOutput .draftSchema)
  | some draft => do
      let rows ← draftRows request selected draft.blocks
      assemble lib request draft.storySummary rows

/-! ### Selections -/

/-- Photos of the request under the ids of their places, with one of each place. -/
structure Selects (request : StoryMessage) (selected : Selected) : Prop where
  photo : ∀ item ∈ selected, ∃ place ∈ request.places,
    place.tripPlaceId = item.1 ∧ item.2 ∈ place.attachments
  covers : ∀ place ∈ request.places, ∃ item ∈ selected, item.1 = place.tripPlaceId

/-- The times of the selection have a date in Seoul. -/
def Dated (selected : Selected) : Prop :=
  ∀ item ∈ selected, (toKst lib item.2.takenAt).isSome = true

/-- A draft with every selected photo once, and no other. -/
structure StoryDraft.Covers (draft : StoryDraft) (selected : Selected) : Prop where
  once : (draft.blocks.map DraftBlock.tripAttachmentId).Nodup
  ids : ∀ id, id ∈ draft.blocks.map DraftBlock.tripAttachmentId ↔
    ∃ item ∈ selected, item.2.tripAttachmentId = id

variable {lib} {parse : R → Option Value} {raw : R} {request : StoryMessage} {selected : Selected}
  {draft : StoryDraft} {blocks : List DraftBlock} {rows : List DraftRow}

/-- Photo ids being unique, a photo has one place. -/
theorem Checked.same_photo (h : Checked request) {place place' : StoryPlace}
    {a a' : StoryAttachment} (hplace : place ∈ request.places) (hplace' : place' ∈ request.places)
    (ha : a ∈ place.attachments) (ha' : a' ∈ place'.attachments)
    (hid : a.tripAttachmentId = a'.tripAttachmentId) : place = place' ∧ a = a' := by
  obtain ⟨heach, hdisjoint⟩ := List.nodup_flatMap.mp h.ids
  have hsame : place = place' := by
    by_contra hne
    have hsymm : Std.Symm (Function.onFun List.Disjoint fun place : StoryPlace =>
        place.attachments.map StoryAttachment.tripAttachmentId) := ⟨fun _ _ h => h.symm⟩
    have hapart := hdisjoint.forall hplace hplace' hne
    exact hapart (List.mem_map_of_mem ha) (hid ▸ List.mem_map_of_mem ha')
  subst hsame
  exact ⟨rfl, List.inj_on_of_nodup_map (heach _ hplace) ha ha' hid⟩

theorem Selects.unique (h : Selects request selected) (hchecked : Checked request)
    {item item' : Int × StoryAttachment} (hitem : item ∈ selected) (hitem' : item' ∈ selected)
    (hid : item.2.tripAttachmentId = item'.2.tripAttachmentId) : item = item' := by
  obtain ⟨place, hplace, hp, ha⟩ := h.photo item hitem
  obtain ⟨place', hplace', hp', ha'⟩ := h.photo item' hitem'
  obtain ⟨rfl, hphoto⟩ := hchecked.same_photo hplace hplace' ha ha' hid
  exact Prod.ext (hp.symm.trans hp') hphoto

/-! ### The checks -/

/-- A row of the block, with the selected photo of its id. -/
structure RowOf (selected : Selected) (block : DraftBlock) (row : DraftRow) : Prop where
  same : row.1 = block
  photo : row.2 ∈ selected
  id : row.2.2.tripAttachmentId = block.tripAttachmentId

/-- `draftRows` fails by the output failure only. -/
theorem draftRows_error {e : FinalizeRaised} (h : draftRows request selected blocks = .error e) :
    ∃ rule, e = invalidOutput rule := by
  unfold draftRows at h
  dsimp only at h
  split at h
  · cases h
    exact ⟨_, rfl⟩
  split at h
  · cases h
    exact ⟨_, rfl⟩
  rename_i hset
  rw [not_not] at hset
  rcases except_bind_eq_error.mp h with h | ⟨rows, -, h⟩
  · -- Every id of a block is one of a selected photo.
    obtain ⟨block, hblock, hrow⟩ := mapM_eq_error h
    have hkey : block.tripAttachmentId ∈
        ((Dict.collect (fun item : Int × StoryAttachment => item.2.tripAttachmentId) id
          selected).entries.map Prod.fst).toFinset := by
      rw [← hset, List.mem_toFinset]
      exact List.mem_map_of_mem hblock
    rw [List.mem_toFinset, Dict.mem_keys_iff, Option.isSome_iff_exists] at hkey
    obtain ⟨item, hitem⟩ := hkey
    simp only [draftRow, hitem] at hrow
    cases hrow
  · split at h
    · cases h
      exact ⟨_, rfl⟩
    · cases h

/-- Past the first two checks, a draft has every selected photo once. -/
theorem draftRows_cases (request : StoryMessage) (selected : Selected) (draft : StoryDraft) :
    draftRows request selected draft.blocks = .error (invalidOutput .duplicatePhoto) ∨
      draftRows request selected draft.blocks = .error (invalidOutput .photoSetMismatch) ∨
      draft.Covers selected := by
  unfold draftRows
  dsimp only
  split
  · exact .inl rfl
  rename_i hcount
  rw [not_not] at hcount
  split
  · exact .inr (.inl rfl)
  rename_i hset
  rw [not_not] at hset
  refine .inr (.inr ⟨?_, fun id => ?_⟩)
  · rw [List.card_toFinset] at hcount
    exact List.dedup_eq_self.mp ((List.dedup_sublist _).eq_of_length hcount)
  · rw [← List.mem_toFinset, hset, List.mem_toFinset, Dict.mem_keys_collect]

/-- What the checks accept has every selected photo once. -/
theorem covers_of_draftRows (h : draftRows request selected draft.blocks = .ok rows) :
    draft.Covers selected := by
  rcases draftRows_cases request selected draft with herror | herror | hcovers
  · cases h.symm.trans herror
  · cases h.symm.trans herror
  · exact hcovers

/-- **A draft with every selected photo once passes the checks.** -/
theorem draftRows_ok (hchecked : Checked request) (hselects : Selects request selected)
    (hcovers : draft.Covers selected) :
    ∃ rows, draftRows request selected draft.blocks = .ok rows ∧
      List.Forall₂ (RowOf selected) draft.blocks rows := by
  set photos :=
    Dict.collect (fun item : Int × StoryAttachment => item.2.tripAttachmentId) id selected
    with hphotos
  have hget : ∀ item ∈ selected, photos.get? item.2.tripAttachmentId = some item :=
    fun item hitem =>
    Dict.get?_collect (fun other hother hid => hselects.unique hchecked hother hitem hid) hitem
  have hone : ∀ block ∈ draft.blocks, ∃ row, draftRow photos block = .ok row := by
    intro block hblock
    obtain ⟨item, hitem, hid⟩ :=
      (hcovers.ids block.tripAttachmentId).mp (List.mem_map_of_mem hblock)
    refine ⟨(block, item), ?_⟩
    rw [draftRow, ← hid, hget item hitem]
  obtain ⟨rows, hrows⟩ := mapM_succeeds hone
  have hrowOf : List.Forall₂ (RowOf selected) draft.blocks rows := by
    apply (forall₂_mem (mapM_eq_ok.mp hrows)).imp
    rintro block row ⟨hrow, hblock, -⟩
    obtain ⟨item, hitem, hid⟩ :=
      (hcovers.ids block.tripAttachmentId).mp (List.mem_map_of_mem hblock)
    rw [draftRow, ← hid, hget item hitem] at hrow
    cases hrow
    exact ⟨rfl, hitem, hid⟩
  refine ⟨rows, ?_, hrowOf⟩
  have hcount : (draft.blocks.map DraftBlock.tripAttachmentId).toFinset.card =
      (draft.blocks.map DraftBlock.tripAttachmentId).length :=
    List.toFinset_card_of_nodup hcovers.once
  have hset : (draft.blocks.map DraftBlock.tripAttachmentId).toFinset =
      (photos.entries.map Prod.fst).toFinset := by
    ext id
    rw [List.mem_toFinset, List.mem_toFinset, hcovers.ids, Dict.mem_keys_collect]
  have hplaces : (rows.map fun row => row.2.1).toFinset =
      (request.places.map StoryPlace.tripPlaceId).toFinset := by
    ext p
    simp only [List.mem_toFinset, List.mem_map]
    constructor
    · rintro ⟨row, hrow, rfl⟩
      obtain ⟨block, -, hof⟩ := exists_left_of_forall₂ hrowOf hrow
      obtain ⟨place, hplace, hp, -⟩ := hselects.photo row.2 hof.photo
      exact ⟨place, hplace, hp⟩
    · rintro ⟨place, hplace, rfl⟩
      obtain ⟨item, hitem, hp⟩ := hselects.covers place hplace
      obtain ⟨block, hblock, hid⟩ :=
        List.mem_map.mp ((hcovers.ids item.2.tripAttachmentId).mpr ⟨item, hitem, rfl⟩)
      obtain ⟨row, hrow, hof⟩ := exists_right_of_forall₂ hrowOf hblock
      have hsame := hselects.unique hchecked hof.photo hitem (hof.id.trans hid)
      exact ⟨row, hrow, by rw [hsame, hp]⟩
  unfold draftRows
  dsimp only
  rw [← hphotos, if_neg (not_not.mpr hcount), if_neg (not_not.mpr hset), hrows, except_ok_bind,
    if_neg (not_not.mpr hplaces)]

/-! ### The result -/

theorem strBetween_ofString {lo hi : Nat} {s : String} (hlo : lo ≤ s.length) (hhi : s.length ≤ hi) :
    strBetween lo hi (.ofString s) = some s := by
  simp [strBetween, constrained, Schemas.str, Value.ofString, Option.filter, hlo, hhi]

theorem length_cut (n : Nat) (s : String) : (cut n s).length ≤ n := by
  rw [cut, String.length_ofList, List.length_take]
  exact Nat.min_le_left _ _

/-- A block within the bounds of the schema. -/
theorem StoryBlock.validate_of_within {b : StoryBlock} (hint : ∀ n, lib.int (.int n) = some n)
    (horder : 1 ≤ b.orderNumber) (hlabel : b.dayLabel.length ≤ 40)
    (hdetail : b.detailSummary.length ≤ 40) (hmemo : b.memo.length ≤ 125) :
    StoryBlock.validate lib b.render = some b := by
  have hpositive : positive lib (.int b.orderNumber) = some b.orderNumber := by
    simp only [positive, constrained, hint]
    exact Option.filter_some_pos (by simpa using Int.lt_of_add_one_le horder)
  rw [StoryBlock.validate, StoryBlock.render, strictModel_record (by simp)]
  simp [required, get?_record, List.lookup_cons, hpositive, hint,
    strBetween_ofString (Nat.zero_le _) hlabel,
    strBetween_ofString (Nat.zero_le _) hdetail, strBetween_ofString (Nat.zero_le _) hmemo]

theorem StoryResult.validate_of_within {r : StoryResult} (hint : ∀ n, lib.int (.int n) = some n)
    (hsummary : r.storySummary.length ≤ 40) (hblocks : 1 ≤ r.blocks.length ∧ r.blocks.length ≤ 30)
    (heach : ∀ b ∈ r.blocks, StoryBlock.validate lib b.render = some b)
    (hretry : 0 ≤ r.retryCount) :
    StoryResult.validate lib r.render = some r := by
  have hlist : listUpTo (StoryBlock.validate lib) 30 (renderList StoryBlock.render r.blocks) =
      some r.blocks := by
    have hread := listOf_renderList (k := id) heach
    rw [List.map_id] at hread
    simp only [listUpTo, constrained, hread]
    apply Option.filter_some_pos
    rw [Bool.and_eq_true, decide_eq_true_eq, decide_eq_true_eq]
    exact hblocks
  have hverification : verification lib (.record [("passed", .bool r.passed),
      ("retry_count", .int r.retryCount)]) = some (r.passed, r.retryCount) := by
    have hcount : constrained lib.int (fun n => decide (0 ≤ n)) (.int r.retryCount) =
        some r.retryCount := by
      simp only [constrained, hint]
      exact Option.filter_some_pos (by simpa using hretry)
    rw [verification, strictModel_record (by simp)]
    simp [required, get?_record, List.lookup_cons, hcount, Schemas.bool]
  rw [StoryResult.validate, StoryResult.render, strictModel_record (by simp)]
  simp [required, get?_record, List.lookup_cons,
    strBetween_ofString (Nat.zero_le _) hsummary, hlist, hverification]

/-- What the schema promises of a draft. -/
structure StoryDraft.Within (draft : StoryDraft) : Prop where
  summary : draft.storySummary.length ≤ 40
  blocks : 1 ≤ draft.blocks.length ∧ draft.blocks.length ≤ 30
  each : ∀ b ∈ draft.blocks, b.detailSummary.length ≤ 40 ∧ b.memo.length ≤ 125

theorem strBetween_length {lo hi : Nat} {v : Value} {s : String} (h : strBetween lo hi v = some s) :
    s.length ≤ hi := by
  have hok := (constrained_cases h).2
  rw [Bool.and_eq_true, decide_eq_true_eq, decide_eq_true_eq] at hok
  exact hok.2

theorem DraftBlock.within {v : Value} {b : DraftBlock} (h : DraftBlock.validate v = some b) :
    b.detailSummary.length ≤ 40 ∧ b.memo.length ≤ 125 := by
  replace h := strictModel_cases h
  simp only [Option.bind_eq_bind, Option.bind_eq_some_iff, Option.pure_def] at h
  obtain ⟨_, -, detail, hdetail, memo, hmemo, h⟩ := h
  cases h
  obtain ⟨_, hdetail⟩ := required_cases hdetail
  obtain ⟨_, hmemo⟩ := required_cases hmemo
  exact ⟨strBetween_length hdetail, strBetween_length hmemo⟩

theorem StoryDraft.within {v : Value} (h : StoryDraft.validate v = some draft) : draft.Within := by
  replace h := strictModel_cases h
  simp only [Option.bind_eq_bind, Option.bind_eq_some_iff, Option.pure_def] at h
  obtain ⟨summary, hsummary, blocks, hblocks, h⟩ := h
  cases h
  obtain ⟨_, hsummary⟩ := required_cases hsummary
  obtain ⟨_, hblocks⟩ := required_cases hblocks
  obtain ⟨hlist, hlength⟩ := constrained_cases hblocks
  rw [Bool.and_eq_true, decide_eq_true_eq, decide_eq_true_eq] at hlength
  refine ⟨strBetween_length hsummary, hlength, fun b hb => ?_⟩
  obtain ⟨_, hb⟩ := listOf_mem hlist b hb
  exact DraftBlock.within hb

/-- A block of the result, from a row and its number. -/
structure BlockOf (lib : Libraries) (request : StoryMessage) (e : DraftRow × Nat) (b : StoryBlock) :
    Prop where
  order : b.orderNumber = e.2
  place : b.tripPlaceId = e.1.2.1
  photo : b.tripAttachmentId = e.1.1.tripAttachmentId
  label : ∃ place ∈ request.places, place.tripPlaceId = e.1.2.1 ∧
    b.dayLabel = dayLabel lib request.period.startDate
      ((inSeoul lib e.1.2.2.takenAt).wall / 86400000000)
      place.placeName
  detail : b.detailSummary = e.1.1.detailSummary
  memo : b.memo = e.1.1.memo
  valid : StoryBlock.validate lib b.render = some b

theorem storyBlock_ok (hint : ∀ n, lib.int (.int n) = some n) (hchecked : Checked request)
    (hselects : Selects request selected) (hdated : Dated lib selected) {row : DraftRow} {n : Nat}
    (hphoto : row.2 ∈ selected) (hdetail : row.1.detailSummary.length ≤ 40)
    (hmemo : row.1.memo.length ≤ 125) (hn : 1 ≤ n) :
    ∃ b, storyBlock lib request.period.startDate
        (Dict.collect StoryPlace.tripPlaceId StoryPlace.placeName request.places) (row, n) = .ok b ∧
      BlockOf lib request (row, n) b := by
  obtain ⟨place, hplace, hp, -⟩ := hselects.photo row.2 hphoto
  obtain ⟨kst, hkst⟩ := Option.isSome_iff_exists.mp (hdated row.2 hphoto)
  have hdate : seoulDate lib row.2.2.takenAt =
      .ok ((inSeoul lib row.2.2.takenAt).wall / 86400000000) := by
    rw [seoulDate, hkst, toKst_eq_some hkst]
  have hname : (Dict.collect StoryPlace.tripPlaceId StoryPlace.placeName request.places).get?
      row.2.1 = some place.placeName := by
    rw [← hp]
    refine Dict.get?_collect (fun other hother hid => ?_) hplace
    rw [List.inj_on_of_nodup_map hchecked.places hother hplace hid]
  let b : StoryBlock :=
    { orderNumber := n
      tripPlaceId := row.2.1
      tripAttachmentId := row.1.tripAttachmentId
      dayLabel := dayLabel lib request.period.startDate
        ((inSeoul lib row.2.2.takenAt).wall / 86400000000) place.placeName
      detailSummary := row.1.detailSummary
      memo := row.1.memo }
  have hvalid : StoryBlock.validate lib b.render = some b :=
    StoryBlock.validate_of_within hint (Int.ofNat_le.mpr hn) (length_cut _ _) hdetail hmemo
  refine ⟨b, ?_, rfl, rfl, rfl, ⟨place, hplace, hp, rfl⟩, rfl, rfl, hvalid⟩
  simp only [storyBlock, hdate, hname, except_ok_bind]
  rw [hvalid]

/-- What a complete draft becomes. -/
structure Completed (lib : Libraries) (request : StoryMessage) (selected : Selected)
    (draft : StoryDraft) (r : StoryResult) : Prop where
  summary : r.storySummary = draft.storySummary
  verification : r.passed = true ∧ r.retryCount = 0
  /-- The blocks are numbered from 1 on. -/
  numbers : r.blocks.map StoryBlock.orderNumber =
    (List.range' 1 draft.blocks.length).map fun n : Nat => (n : Int)
  /-- They are in the order of `(taken_at, id)` of their photos. -/
  ordered : r.blocks.Pairwise fun b b' => ∀ item ∈ selected, ∀ item' ∈ selected,
    item.2.tripAttachmentId = b.tripAttachmentId → item'.2.tripAttachmentId = b'.tripAttachmentId →
      takenOrder item.2 < takenOrder item'.2
  photos : (r.blocks.map StoryBlock.tripAttachmentId).Perm
    (draft.blocks.map DraftBlock.tripAttachmentId)
  /-- A block keeps the text of the draft for its photo, under the place of the photo. -/
  kept : ∀ b ∈ r.blocks, ∃ d ∈ draft.blocks, ∃ item ∈ selected, ∃ place ∈ request.places,
    b.tripAttachmentId = d.tripAttachmentId ∧ b.detailSummary = d.detailSummary ∧ b.memo = d.memo ∧
      item.2.tripAttachmentId = d.tripAttachmentId ∧ place.tripPlaceId = item.1 ∧
      b.tripPlaceId = item.1 ∧
      b.dayLabel = dayLabel lib request.period.startDate
        ((inSeoul lib item.2.takenAt).wall / 86400000000) place.placeName

/-- The order of the rows is that of their photos. -/
theorem pairwise_rows (hselects : Selects request selected) (hchecked : Checked request)
    (hcovers : draft.Covers selected) (hrows : List.Forall₂ (RowOf selected) draft.blocks rows) :
    (sortOn (fun row : DraftRow => toLex (row.2.2.takenAt.instant, row.1.tripAttachmentId))
      rows).Pairwise fun row row' => ∀ item ∈ selected, ∀ item' ∈ selected,
        item.2.tripAttachmentId = row.1.tripAttachmentId →
        item'.2.tripAttachmentId = row'.1.tripAttachmentId →
          takenOrder item.2 < takenOrder item'.2 := by
  have hids : rows.map (fun row => row.1.tripAttachmentId) =
      draft.blocks.map DraftBlock.tripAttachmentId :=
    map_eq_of_forall₂ hrows fun block row hof => by rw [hof.same]
  have hkeys : (rows.map fun row : DraftRow =>
      toLex (row.2.2.takenAt.instant, row.1.tripAttachmentId)).Nodup := by
    refine List.Nodup.of_map (fun key : Int ×ₗ Int => (ofLex key).2) ?_
    rw [List.map_map]
    exact hids ▸ hcovers.once
  -- The photo of a row is the selected one of its id.
  have hkey : ∀ row ∈ rows, ∀ item ∈ selected, item.2.tripAttachmentId = row.1.tripAttachmentId →
      toLex (row.2.2.takenAt.instant, row.1.tripAttachmentId) = takenOrder item.2 := by
    intro row hrow item hitem hid
    obtain ⟨block, -, hof⟩ := exists_left_of_forall₂ hrows hrow
    have hsame := hselects.unique hchecked hof.photo hitem (hof.id.trans (hof.same ▸ hid.symm))
    rw [hsame, ← hid]
    rfl
  apply (pairwise_lt_sortOn hkeys).imp_of_mem
  intro row row' hrow hrow' hlt item hitem item' hitem' hid hid'
  rw [← hkey row (mem_sortOn.mp hrow) item hitem hid,
    ← hkey row' (mem_sortOn.mp hrow') item' hitem' hid']
  exact hlt

/-- **Nothing fails after the checks**: the bounds of the draft are those of the result. -/
theorem assemble_ok (hint : ∀ n, lib.int (.int n) = some n) (hchecked : Checked request)
    (hselects : Selects request selected) (hdated : Dated lib selected) (hwithin : draft.Within)
    (hcovers : draft.Covers selected) (hrows : List.Forall₂ (RowOf selected) draft.blocks rows) :
    ∃ r, assemble lib request draft.storySummary rows = .ok r.render ∧
      StoryResult.validate lib r.render = some r ∧ Completed lib request selected draft r := by
  have hordered := pairwise_rows hselects hchecked hcovers hrows
  have hperm : (sortOn (fun row : DraftRow =>
      toLex (row.2.2.takenAt.instant, row.1.tripAttachmentId)) rows).Perm rows := sortOn_perm _ _
  unfold assemble
  dsimp only
  generalize sortOn (fun row : DraftRow =>
    toLex (row.2.2.takenAt.instant, row.1.tripAttachmentId)) rows = ordered at hordered hperm
  -- Every row of the order has a block in the draft.
  have hrow : ∀ {row}, row ∈ ordered → ∃ d ∈ draft.blocks, RowOf selected d row := fun hmem =>
    exists_left_of_forall₂ hrows (hperm.mem_iff.mp hmem)
  have hone : ∀ e ∈ ordered.zipIdx 1, ∃ b, storyBlock lib request.period.startDate
      (Dict.collect StoryPlace.tripPlaceId StoryPlace.placeName request.places) e = .ok b ∧
        BlockOf lib request e b := by
    rintro ⟨row, n⟩ he
    obtain ⟨d, hd, hof⟩ := hrow (List.fst_mem_of_mem_zipIdx he)
    obtain ⟨hdetail, hmemo⟩ := hwithin.each d hd
    rw [← hof.same] at hdetail hmemo
    exact storyBlock_ok hint hchecked hselects hdated hof.photo hdetail hmemo
      (List.le_snd_of_mem_zipIdx he)
  obtain ⟨blocks, hblocks⟩ := mapM_succeeds fun e he => (hone e he).imp fun _ h => h.1
  have hof : List.Forall₂ (BlockOf lib request) (ordered.zipIdx 1) blocks := by
    apply (forall₂_mem (mapM_eq_ok.mp hblocks)).imp
    rintro e b ⟨hb, he, -⟩
    obtain ⟨b', hb', hof⟩ := hone e he
    rw [hb] at hb'
    cases hb'
    exact hof
  have hlength : ordered.length = draft.blocks.length := hperm.length_eq.trans hrows.length_eq.symm
  have hcount : blocks.length = draft.blocks.length := by
    rw [← hof.length_eq, List.length_zipIdx, hlength]
  let r : StoryResult := ⟨draft.storySummary, blocks, true, 0⟩
  have hvalid : StoryResult.validate lib r.render = some r := by
    refine StoryResult.validate_of_within hint hwithin.summary ?_ (fun b hb => ?_) le_rfl
    · rw [show r.blocks = blocks from rfl, hcount]
      exact hwithin.blocks
    · obtain ⟨e, -, he⟩ := exists_left_of_forall₂ hof hb
      exact he.valid
  refine ⟨r, ?_, hvalid, ?_⟩
  · rw [hblocks, except_ok_bind]
    simp only [show (⟨draft.storySummary, blocks, true, 0⟩ : StoryResult) = r from rfl, hvalid]
  have hids : blocks.map StoryBlock.tripAttachmentId =
      ordered.map fun row => row.1.tripAttachmentId := by
    have hmap := map_eq_of_forall₂ (f := fun e : DraftRow × Nat => e.1.1.tripAttachmentId) hof
      fun e b he => he.photo
    rw [hmap]
    conv_rhs => rw [← List.zipIdx_map_fst 1 ordered, List.map_map]
    rfl
  constructor
  case summary => rfl
  case verification => exact ⟨rfl, rfl⟩
  case numbers =>
    have hmap := map_eq_of_forall₂ (f := fun e : DraftRow × Nat => (e.2 : Int)) hof
      fun e b he => he.order
    rw [show r.blocks = blocks from rfl, hmap, ← hlength, ← List.zipIdx_map_snd 1 ordered,
      List.map_map]
    rfl
  case ordered =>
    have hpairs : (ordered.map fun row => row.1.tripAttachmentId).Pairwise fun id id' =>
        ∀ item ∈ selected, ∀ item' ∈ selected, item.2.tripAttachmentId = id →
          item'.2.tripAttachmentId = id' → takenOrder item.2 < takenOrder item'.2 :=
      List.pairwise_map.mpr hordered
    rw [← hids, List.pairwise_map] at hpairs
    exact hpairs
  case photos =>
    have hrowIds : rows.map (fun row => row.1.tripAttachmentId) =
        draft.blocks.map DraftBlock.tripAttachmentId :=
      map_eq_of_forall₂ hrows fun block row hof => by rw [hof.same]
    rw [show r.blocks = blocks from rfl, hids, ← hrowIds]
    exact hperm.map _
  case kept =>
    intro b hb
    obtain ⟨e, he, hbof⟩ := exists_left_of_forall₂ hof hb
    obtain ⟨d, hd, hrowOf⟩ := hrow (List.fst_mem_of_mem_zipIdx he)
    obtain ⟨place, hplace, hp, hlabel⟩ := hbof.label
    refine ⟨d, hd, e.1.2, hrowOf.photo, place, hplace, ?_, ?_, ?_, hrowOf.id, hp,
      hbof.place, hlabel⟩
    · rw [hbof.photo, hrowOf.same]
    · rw [hbof.detail, hrowOf.same]
    · rw [hbof.memo, hrowOf.same]

theorem assemble_perm {rows' : List DraftRow} {summary : String} (h : rows.Perm rows')
    (hnodup : (rows.map fun row => row.1.tripAttachmentId).Nodup) :
    assemble lib request summary rows = assemble lib request summary rows' := by
  have hkeys : (rows.map fun row : DraftRow =>
      toLex (row.2.2.takenAt.instant, row.1.tripAttachmentId)).Nodup := by
    refine List.Nodup.of_map (fun key : Int ×ₗ Int => (ofLex key).2) ?_
    rw [List.map_map]
    exact hnodup
  unfold assemble
  rw [sortOn_eq_of_perm hkeys h]

/-! ### Which drafts are accepted -/

/-- What `finalize` makes of a text. -/
structure FinalizeExact (lib : Libraries) (parse : R → Option Value) (raw : R)
    (request : StoryMessage) (selected : Selected) : Prop where
  /-- A draft with every selected photo once becomes a result that its schema accepts. -/
  accepts : ∀ draft, (parse raw).bind StoryDraft.validate = some draft → draft.Covers selected →
    ∃ r, finalize lib parse raw request selected = .ok r.render ∧
      StoryResult.validate lib r.render = some r ∧ Completed lib request selected draft r
  /-- Any other text meets the output failure. -/
  rejects : (∀ draft, (parse raw).bind StoryDraft.validate = some draft → ¬ draft.Covers selected) →
    ∃ rule, finalize lib parse raw request selected = .error (invalidOutput rule)
  /-- The order of the blocks does not matter. -/
  unordered : ∀ draft raw' draft', (parse raw).bind StoryDraft.validate = some draft →
    draft.Covers selected → (parse raw').bind StoryDraft.validate = some draft' →
    draft'.storySummary = draft.storySummary → draft'.blocks.Perm draft.blocks →
    finalize lib parse raw' request selected = finalize lib parse raw request selected

theorem StoryDraft.Covers.of_perm {draft' : StoryDraft} (h : draft.Covers selected)
    (hperm : draft'.blocks.Perm draft.blocks) : draft'.Covers selected where
  once := (hperm.map _).nodup_iff.mpr h.once
  ids id := by
    rw [(hperm.map _).mem_iff]
    exact h.ids id

/-- **Story finalization accepts exactly complete drafts.** -/
theorem finalize_exact (hint : ∀ n, lib.int (.int n) = some n) (hchecked : Checked request)
    (hselects : Selects request selected) (hdated : Dated lib selected) (parse : R → Option Value)
    (raw : R) : FinalizeExact lib parse raw request selected where
  accepts := by
    intro draft hdraft hcovers
    obtain ⟨v, -, hv⟩ := Option.bind_eq_some_iff.mp hdraft
    obtain ⟨rows, hrows, hof⟩ := draftRows_ok hchecked hselects hcovers
    obtain ⟨r, hassemble, hvalid, hcompleted⟩ :=
      assemble_ok hint hchecked hselects hdated (StoryDraft.within hv) hcovers hof
    refine ⟨r, ?_, hvalid, hcompleted⟩
    simp only [finalize, hdraft, hrows, except_ok_bind]
    exact hassemble
  rejects := by
    intro hnone
    cases hdraft : (parse raw).bind StoryDraft.validate with
    | none => exact ⟨.draftSchema, by simp only [finalize, hdraft]⟩
    | some draft =>
        cases hrows : draftRows request selected draft.blocks with
        | ok rows => exact absurd (covers_of_draftRows hrows) (hnone draft hdraft)
        | error e =>
            obtain ⟨rule, rfl⟩ := draftRows_error hrows
            refine ⟨rule, ?_⟩
            simp only [finalize, hdraft, hrows]
            rfl
  unordered := by
    intro draft raw' draft' hdraft hcovers hdraft' hsummary hperm
    obtain ⟨rows, hrows, hof⟩ := draftRows_ok hchecked hselects hcovers
    obtain ⟨rows', hrows', hof'⟩ := draftRows_ok hchecked hselects (hcovers.of_perm hperm)
    -- A block has one row.
    have hunique : Relator.RightUnique (RowOf selected) := fun block row row' h h' =>
      Prod.ext (h.same.trans h'.same.symm)
        (hselects.unique hchecked h.photo h'.photo (h.id.trans h'.id.symm))
    obtain ⟨ws, hws, hwsperm⟩ := List.perm_comp_forall₂ hperm hof
    obtain rfl : ws = rows' := List.right_unique_forall₂' hunique hws hof'
    have hids : ws.map (fun row => row.1.tripAttachmentId) =
        draft'.blocks.map DraftBlock.tripAttachmentId :=
      map_eq_of_forall₂ hof' fun block row hof => by rw [hof.same]
    have hnodup : (ws.map fun row => row.1.tripAttachmentId).Nodup :=
      hids ▸ (hcovers.of_perm hperm).once
    simp only [finalize, hdraft, hdraft', hrows, hrows', except_ok_bind, hsummary]
    exact assemble_perm hwsperm hnodup

/-! ### No place is missing -/

theorem storyBlock_error {startDate : Int} {places : Dict Int String} {e : DraftRow × Nat}
    {raised : FinalizeRaised} (h : storyBlock lib startDate places e = .error raised) :
    raised ≠ invalidOutput .placeMissing := by
  unfold storyBlock at h
  rcases except_bind_eq_error.mp h with h | ⟨date, -, h⟩
  · unfold seoulDate at h
    split at h <;> cases h
    exact nofun
  dsimp only at h
  split at h
  · rw [except_ok_bind] at h
    split at h <;> cases h
    exact nofun
  · cases h
    exact nofun

theorem assemble_error {summary : String} {raised : FinalizeRaised}
    (h : assemble lib request summary rows = .error raised) :
    raised ≠ invalidOutput .placeMissing := by
  unfold assemble at h
  dsimp only at h
  rcases except_bind_eq_error.mp h with h | ⟨blocks, -, h⟩
  · obtain ⟨e, -, he⟩ := mapM_eq_error h
    exact storyBlock_error he
  · split at h <;> cases h
    exact nofun

/-- The third check never fails: the selection has a photo of every place. -/
theorem finalize_ne_placeMissing (hchecked : Checked request)
    (hselects : Selects request selected) :
    finalize lib parse raw request selected ≠ .error (invalidOutput .placeMissing) := by
  intro h
  unfold finalize at h
  split at h
  · cases h
  rename_i draft _
  rcases except_bind_eq_error.mp h with h | ⟨rows, -, h⟩
  · rcases draftRows_cases request selected draft with herror | herror | hcovers
    · cases herror.symm.trans h
    · cases herror.symm.trans h
    · obtain ⟨rows, hrows, -⟩ := draftRows_ok hchecked hselects hcovers
      cases hrows.symm.trans h
  · exact assemble_error h rfl

/-! ### A story of two photos -/

/-- The JSON of a draft, the later photo first. -/
def sampleDraft : Value :=
  .record [("story_summary", .ofString "s"), ("blocks", .arr [
    .record [("trip_attachment_id", .int 2), ("detail_summary", .ofString "d"),
      ("memo", .ofString "m")],
    .record [("trip_attachment_id", .int 1), ("detail_summary", .ofString "d"),
      ("memo", .ofString "m")]])]

def sampleSelected : Selected := samplePlace.attachments.map fun a => (7, a)

theorem finalize_exact_sampleStory :
    FinalizeExact sampleLibraries some sampleDraft sampleStory sampleSelected ∧
      ∃ draft, StoryDraft.validate sampleDraft = some draft ∧
        draft.blocks.map DraftBlock.tripAttachmentId = [2, 1] := by
  have hselects : Selects sampleStory sampleSelected := by
    refine ⟨fun item hitem => ?_, fun place hplace => ?_⟩
    · obtain ⟨a, ha, rfl⟩ := List.mem_map.mp hitem
      exact ⟨samplePlace, List.mem_cons_self, rfl, ha⟩
    · obtain rfl : place = samplePlace := List.mem_singleton.mp hplace
      exact ⟨_, List.mem_cons_self, rfl⟩
  have hdated : Dated sampleLibraries sampleSelected := by
    unfold Dated
    decide +kernel
  exact ⟨finalize_exact (fun _ => rfl) ⟨by decide, by decide⟩ hselects hdated some sampleDraft,
    _, rfl, rfl⟩

end Yeodam.Story
