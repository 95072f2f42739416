/-
The chat messages the generation server is sent (`app/infra/vlm.py`) and how they are put
on the wire (`_wire_messages` in `app/infra/vllm_client.py`).

A caller marks with an image part where an image belongs, and gives the URLs apart, in the
order of the parts. `wireMessages_filled` says when they are put together: every image
part takes the URL of its position, and all else is sent as it is.
-/

import Mathlib.Data.List.Basic
import Yeodam.Lib.Json

namespace Yeodam.Infra

open Yeodam.Lib

/-! ### Messages -/

inductive Role where
  | system
  | user
  | assistant
  | tool
deriving DecidableEq, Repr

/-- `TextPart | ImagePart` -/
inductive Part where
  | text (s : PyStr)
  /-- Where the next URL belongs. -/
  | image
deriving DecidableEq, Repr

/-- `str | list[TextPart | ImagePart]` -/
inductive Content where
  | text (s : PyStr)
  | parts (ps : List Part)
deriving DecidableEq, Repr

structure ToolCall where
  id : PyStr
  name : PyStr
  /-- JSON, as the model wrote it. -/
  arguments : PyStr
deriving DecidableEq, Repr

structure ChatMessage where
  role : Role
  content : Content
  toolCalls : List ToolCall := []
  toolCallId : Option PyStr := none
deriving DecidableEq, Repr

structure ChatTurn where
  content : PyStr
  toolCalls : List ToolCall := []

def Part.isImage : Part → Bool
  | .image => true
  | .text _ => false

/-- The parts of a content that is a list. -/
def Content.parts? : Content → List Part
  | .text _ => []
  | .parts ps => ps

/-- All parts, in the order of the messages. -/
def allParts (messages : List ChatMessage) : List Part := messages.flatMap fun m => m.content.parts?

/-- The images are in user messages. -/
def ImagesFromUser (messages : List ChatMessage) : Prop :=
  ∀ m ∈ messages, .image ∈ m.content.parts? → m.role = .user

/-! ### On the wire -/

inductive WirePart where
  | text (s : PyStr)
  /-- An image part that got no URL. -/
  | image
  | imageUrl (url : String)
deriving DecidableEq, Repr

inductive WireContent where
  | text (s : PyStr)
  | parts (ps : List WirePart)
deriving DecidableEq, Repr

structure WireMessage where
  role : Role
  content : WireContent
  /-- Each as `{"id", "type": "function", "function": {"name", "arguments"}}`. -/
  toolCalls : List ToolCall
  toolCallId : Option PyStr
deriving DecidableEq, Repr

def Part.plain : Part → WirePart
  | .text s => .text s
  | .image => .image

def Content.plain : Content → WireContent
  | .text s => .text s
  | .parts ps => .parts (ps.map Part.plain)

/-- A message with the content given. -/
def ChatMessage.wire (m : ChatMessage) (content : WireContent) : WireMessage :=
  ⟨m.role, content, m.toolCalls, m.toolCallId⟩

/-- Why a request is not sent. -/
inductive WireError where
  /-- `ValueError`: the images are not in user messages, or not as many as the URLs. -/
  | slots
  /-- `ValueError`: there is no user message to attach an image to. -/
  | noUser
  /-- `StopIteration`: no URL is left. -/
  | exhausted
deriving DecidableEq, Repr

/-- Give each image part the next URL; what is left of the URLs comes back. -/
def fillParts : List Part → List String → Except WireError (List WirePart × List String)
  | [], urls => .ok ([], urls)
  | .text s :: ps, urls => do
      let (ws, rest) ← fillParts ps urls
      return (.text s :: ws, rest)
  | .image :: _, [] => .error .exhausted
  | .image :: ps, url :: urls => do
      let (ws, rest) ← fillParts ps urls
      return (.imageUrl url :: ws, rest)

/-- Fill the messages that have an image, in order. -/
def fillMessages : List ChatMessage → List String → Except WireError (List WireMessage)
  | [], _ => .ok []
  | m :: ms, urls => do
      if m.content.parts?.any Part.isImage then
        let (ws, rest) ← fillParts m.content.parts? urls
        return m.wire (.parts ws) :: (← fillMessages ms rest)
      else
        return m.wire m.content.plain :: (← fillMessages ms urls)

/-- Attach the images to the last user message, after its text. -/
def attachToLast (messages : List ChatMessage) (urls : List String) :
    Except WireError (List WireMessage) :=
  match messages.reverse.findIdx? fun m => m.role = .user with
  | none => .error .noUser
  | some fromEnd =>
      let index := messages.length - 1 - fromEnd
      match messages[index]?.map ChatMessage.content with
      | some (.text s) =>
          .ok (messages.mapIdx fun i m =>
            m.wire (if i = index then .parts (.text s :: urls.map .imageUrl) else m.content.plain))
      | _ => .error .slots

/-- `_wire_messages`. -/
def wireMessages (messages : List ChatMessage) (urls : List String) :
    Except WireError (List WireMessage) :=
  let slots := (allParts messages).countP Part.isImage
  if slots ≠ 0 then
    if messages.any (fun m => m.content.parts?.any Part.isImage && m.role ≠ .user) ∨
        slots ≠ urls.length then
      .error .slots
    else fillMessages messages urls
  else if urls ≠ [] then attachToLast messages urls
  else .ok (messages.map fun m => m.wire m.content.plain)

/-! ### What is sent -/

def WirePart.url? : WirePart → Option String
  | .imageUrl url => some url
  | _ => none

/-- The part a wire part was written for. -/
def WirePart.unfilled : WirePart → Part
  | .text s => .text s
  | .image | .imageUrl _ => .image

def WireContent.unfilled : WireContent → Content
  | .text s => .text s
  | .parts ps => .parts (ps.map WirePart.unfilled)

def WireMessage.unfilled (w : WireMessage) : ChatMessage :=
  ⟨w.role, w.content.unfilled, w.toolCalls, w.toolCallId⟩

def WireContent.parts? : WireContent → List WirePart
  | .text _ => []
  | .parts ps => ps

/-- The URLs, in the order of the messages. -/
def sentUrls (wire : List WireMessage) : List String :=
  wire.flatMap fun w => w.content.parts?.filterMap WirePart.url?

@[simp] theorem unfilled_plain (p : Part) : p.plain.unfilled = p := by cases p <;> rfl

@[simp] theorem url?_plain (p : Part) : p.plain.url? = none := by cases p <;> rfl

@[simp] theorem contentUnfilled_plain (c : Content) : c.plain.unfilled = c := by
  cases c with
  | text s => rfl
  | parts ps =>
      simp only [Content.plain, WireContent.unfilled, List.map_map, Content.parts.injEq]
      exact List.map_id'' (fun p => unfilled_plain p) ps

@[simp] theorem messageUnfilled_plain (m : ChatMessage) :
    (m.wire m.content.plain).unfilled = m := by
  simp [ChatMessage.wire, WireMessage.unfilled]

theorem urls_plain (c : Content) : c.plain.parts?.filterMap WirePart.url? = [] := by
  cases c with
  | text s => rfl
  | parts ps =>
      apply List.filterMap_eq_nil_iff.mpr
      intro w hw
      obtain ⟨p, -, rfl⟩ := List.mem_map.mp hw
      exact url?_plain p

/-- As many URLs as image parts are used up, each by the part of its position. -/
theorem fillParts_filled {ps : List Part} {urls rest : List String}
    (hcount : ps.countP Part.isImage = urls.length) :
    ∃ ws, fillParts ps (urls ++ rest) = .ok (ws, rest) ∧ ws.map WirePart.unfilled = ps ∧
      ws.filterMap WirePart.url? = urls := by
  induction ps generalizing urls with
  | nil =>
      rw [List.countP_nil] at hcount
      rw [List.length_eq_zero_iff.mp hcount.symm]
      exact ⟨[], rfl, rfl, rfl⟩
  | cons p ps ih =>
      cases p with
      | text s =>
          rw [List.countP_cons_of_neg (by simp [Part.isImage])] at hcount
          obtain ⟨ws, hok, hparts, hurls⟩ := ih hcount
          refine ⟨.text s :: ws, ?_, ?_, ?_⟩
          · rw [fillParts, hok]
            rfl
          · rw [List.map_cons, hparts]
            rfl
          · rw [List.filterMap_cons_none rfl, hurls]
      | image =>
          rw [List.countP_cons_of_pos rfl] at hcount
          cases urls with
          | nil => simp at hcount
          | cons url urls =>
              rw [List.length_cons, Nat.add_right_cancel_iff] at hcount
              obtain ⟨ws, hok, hparts, hurls⟩ := ih hcount
              refine ⟨.imageUrl url :: ws, ?_, ?_, ?_⟩
              · rw [List.cons_append, fillParts, hok]
                rfl
              · rw [List.map_cons, hparts]
                rfl
              · rw [List.filterMap_cons_some (by rfl), hurls]

theorem fillMessages_filled {messages : List ChatMessage} {urls : List String}
    (hcount : (allParts messages).countP Part.isImage = urls.length) :
    ∃ wire, fillMessages messages urls = .ok wire ∧
      wire.map WireMessage.unfilled = messages ∧ sentUrls wire = urls := by
  induction messages generalizing urls with
  | nil =>
      rw [List.length_eq_zero_iff.mp hcount.symm]
      exact ⟨[], rfl, rfl, rfl⟩
  | cons m ms ih =>
      rw [allParts, List.flatMap_cons, List.countP_append] at hcount
      obtain ⟨here, later, rfl, hhere⟩ : ∃ here later, urls = here ++ later ∧
          m.content.parts?.countP Part.isImage = here.length := by
        refine ⟨urls.take (m.content.parts?.countP Part.isImage),
          urls.drop (m.content.parts?.countP Part.isImage),
          (List.take_append_drop _ _).symm, ?_⟩
        rw [List.length_take]
        omega
      have hlater : (allParts ms).countP Part.isImage = later.length := by
        rw [List.length_append] at hcount
        unfold allParts
        omega
      obtain ⟨wire, hok, hparts, hurls⟩ := ih hlater
      by_cases himage : m.content.parts?.any Part.isImage = true
      · obtain ⟨ws, hws, hunfilled, hsent⟩ := @fillParts_filled _ _ later hhere
        have hcontent : m.content = .parts m.content.parts? := by
          cases hm : m.content with
          | text s => simp [hm, Content.parts?] at himage
          | parts ps => rfl
        refine ⟨m.wire (.parts ws) :: wire, ?_, ?_, ?_⟩
        · rw [fillMessages, if_pos himage, hws]
          simp only [bind, Except.bind, pure, Except.pure]
          rw [hok]
        · rw [List.map_cons, hparts]
          congr 1
          rw [WireMessage.unfilled, ChatMessage.wire, WireContent.unfilled, hunfilled, ← hcontent]
        · rw [sentUrls, List.flatMap_cons]
          exact congrArg₂ (· ++ ·) hsent hurls
      · have hnone : here = [] := by
          rw [← List.length_eq_zero_iff, ← hhere, List.countP_eq_zero]
          intro p hp hpi
          exact himage (List.any_eq_true.mpr ⟨p, hp, hpi⟩)
        subst hnone
        refine ⟨m.wire m.content.plain :: wire, ?_, ?_, ?_⟩
        · rw [fillMessages, if_neg himage, List.nil_append, hok]
          rfl
        · rw [List.map_cons, hparts, messageUnfilled_plain]
        · rw [sentUrls, List.flatMap_cons]
          exact congrArg₂ (· ++ ·) (urls_plain m.content) hurls

/-- **Every image gets its own URL.** Where the images are in user messages and as many as
the URLs, the request is sent with the k-th URL in the k-th image part and all else as it
is. -/
theorem wireMessages_filled {messages : List ChatMessage} {urls : List String}
    (huser : ImagesFromUser messages)
    (hcount : (allParts messages).countP Part.isImage = urls.length) :
    ∃ wire, wireMessages messages urls = .ok wire ∧
      wire.map WireMessage.unfilled = messages ∧ sentUrls wire = urls := by
  have hroles : messages.any
      (fun m => m.content.parts?.any Part.isImage && decide (m.role ≠ .user)) = false := by
    apply List.any_eq_false.mpr
    intro m hm h
    rw [Bool.and_eq_true, List.any_eq_true, decide_eq_true_eq] at h
    obtain ⟨⟨p, hp, himage⟩, hrole⟩ := h
    cases p with
    | text s => simp [Part.isImage] at himage
    | image => exact hrole (huser m hm hp)
  by_cases hslots : (allParts messages).countP Part.isImage = 0
  · have hnil : urls = [] := List.length_eq_zero_iff.mp (hcount ▸ hslots)
    subst hnil
    refine ⟨messages.map fun m => m.wire m.content.plain, ?_, ?_, ?_⟩
    · simp [wireMessages, hslots]
    · rw [List.map_map]
      exact List.map_id'' (fun m => messageUnfilled_plain m) messages
    · rw [sentUrls, List.flatMap_map]
      exact List.flatMap_eq_nil_iff.mpr fun m _ => urls_plain m.content
  · obtain ⟨wire, hok, hrest⟩ := fillMessages_filled hcount
    refine ⟨wire, ?_, hrest⟩
    rw [wireMessages]
    simp only [ne_eq, hslots, not_false_eq_true, if_true]
    rw [if_neg, hok]
    rintro (h | h)
    · rw [hroles] at h
      exact Bool.noConfusion h
    · exact h hcount

end Yeodam.Infra
