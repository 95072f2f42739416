/-
A conversation with the model (`episode` in `app/pipeline/agent/model.py`): the model is
asked, its calls are answered, and it is asked again until it calls the final tool.

Photos are shown as image parts in the messages, while their storage keys are kept in a list
of its own, from which the URLs are made before each request. `Dialogue.Aligned` is what
ties the two together: it holds when a conversation starts and every turn keeps it
(`turn_aligned`), so it holds before each request (`requests_aligned`).

Other conversations of the job go on at the same time. They change what is shared, so the
services and the shared results that a call meets are given for each call.
-/

import Yeodam.Pipeline.Tools

namespace Yeodam.Pipeline

open Yeodam.Lib Yeodam.Infra

variable {V : Type}

/-! ### Turns -/

/-- What ends a conversation, or the wait for it, early. -/
inductive CallError where
  /-- `VLMUnavailable` -/
  | unavailable
  /-- `TimeoutError` -/
  | timeout
  | cancelled
  /-- The time for the agent is used up. -/
  | overdue
  /-- Any exception that is not a `PipelineError`. -/
  | other

/-- What it is raised as: `_raise_from` and `_Waiter.check`. -/
def CallError.raised : CallError → Raised
  | .unavailable => .pipeline (.agentUnavailable "생성 서버를 사용할 수 없습니다.")
  | .timeout => .pipeline (.agentTimeout "생성 서버의 응답 시간이 초과되었습니다.")
  | .cancelled => .pipeline .cancelled
  | .overdue => .pipeline (.agentTimeout "정리 에이전트 단계의 시간 예산을 넘겼습니다.")
  | .other => .other

/-- What one conversation meets from outside. -/
structure World (V : Type) where
  /-- `session.chat` of the n-th request. -/
  chat : Nat → Except CallError ChatTurn
  /-- The services at the i-th call of the n-th reply. -/
  services : Nat → Nat → Services V
  /-- What the conversations share, at the i-th call of the n-th reply. -/
  session : Nat → Nat → Session

/-- How a conversation is set up. -/
structure Setup where
  system : PyStr
  content : List Part
  keys : List String
  finalName : String
  maxCalls : Nat

structure Dialogue where
  messages : List ChatMessage
  keys : List String
  tools : Tools

def userText (text : String) : ChatMessage := { role := .user, content := .text (.text text) }

def Setup.dialogue (setup : Setup) : Dialogue :=
  { messages :=
      [{ role := .system, content := .text setup.system },
        { role := .user, content := .parts setup.content }]
    keys := setup.keys
    tools := { imagesUsed := setup.keys.length } }

def assistantMessage (reply : ChatTurn) : ChatMessage :=
  { role := .assistant, content := .text reply.content, toolCalls := reply.toolCalls }

variable (py : Python) (trip : Trip V) (world : World V) (setup : Setup)

/-- The calls of one reply, while they are answered. -/
structure Calls where
  messages : List ChatMessage
  /-- The messages that show photos, which come after all answers. -/
  extra : List ChatMessage
  keys : List String
  tools : Tools

/-- The loop over `reply.tool_calls`: the arguments of the final tool, with the tools as they
are then, or all calls answered. -/
def answerCalls (n : Nat) : Nat → List ToolCall → Calls → Except Raised ((Value × Tools) ⊕ Calls)
  | _, [], calls => .ok (.inr calls)
  | i, call :: rest, calls => do
      let arguments ← args py call.arguments
      if call.name = .text setup.finalName then
        return .inl (arguments, calls.tools)
      let (reply, tools, _) ←
        calls.tools.run py trip (world.services n i) (world.session n i) call.name arguments
      answerCalls n (i + 1) rest
        { messages := calls.messages ++
            [{ role := .tool, content := .text reply.output, toolCallId := some call.id }]
          extra := calls.extra ++ reply.message.toList
          keys := calls.keys ++ (if reply.message.isSome then reply.keys else [])
          tools := tools }

def nudge : ChatMessage :=
  userText ("도구를 써서 답하세요. 최종 답은 " ++ setup.finalName ++ " 도구로 냅니다.")

def lastChance : ChatMessage :=
  userText ("응답 기회가 한 번 남았습니다. 지금 " ++ setup.finalName ++ " 도구로 최종 답을 내세요.")

/-- One round of the loop of `episode`: the final answer, or the conversation before the next
request. -/
def turn (n : Nat) (d : Dialogue) : Except Raised ((Value × Tools) ⊕ Dialogue) := do
  let reply ← (world.chat n).mapError CallError.raised
  let messages := d.messages ++ [assistantMessage reply]
  if reply.toolCalls = [] then
    return .inr { d with messages := messages ++ [nudge setup] }
  match ← answerCalls py trip world setup n 0 reply.toolCalls ⟨messages, [], d.keys, d.tools⟩ with
  | .inl final => return .inl final
  | .inr calls =>
      let messages := calls.messages ++ calls.extra
      return .inr
        { messages :=
            if n + 2 = setup.maxCalls then messages ++ [lastChance setup] else messages
          keys := calls.keys
          tools := calls.tools }

/-- The rounds that are left, from the n-th: the conversation before each request, and the
outcome, which is the final answer if there was one. -/
def rounds : Nat → Nat → Dialogue → List Dialogue × Except Raised (Option Value × Tools)
  | 0, _, d => ([], .ok (none, d.tools))
  | left + 1, n, d =>
      match turn py trip world setup n d with
      | .error e => ([d], .error e)
      | .ok (.inl (final, tools)) => ([d], .ok (some final, tools))
      | .ok (.inr next) =>
          let (requests, outcome) := rounds left (n + 1) next
          (d :: requests, outcome)

/-- `episode` -/
def episode : List Dialogue × Except Raised (Option Value × Tools) :=
  rounds py trip world setup setup.maxCalls 0 setup.dialogue

/-! ### Images and their keys -/

/-- The text part right before each image part, where there is one. -/
def captionsFrom : Option PyStr → List Part → List (Option PyStr)
  | _, [] => []
  | _, .text s :: ps => captionsFrom (some s) ps
  | before, .image :: ps => before :: captionsFrom none ps

/-- The captions of all image parts, in the order of the messages. -/
def captions (messages : List ChatMessage) : List (Option PyStr) :=
  messages.flatMap fun m => captionsFrom none m.content.parts?

/-- The text names the photo: its id stands in it, with no more digits after it. -/
def Names (text : String) (p : PhotoState V) : Prop :=
  ∃ before after, text = before ++ photoRef p ++ after ∧
    ∀ c, after.toList.head? = some c → c.isDigit = false

/-- The caption is a text that names the photo. -/
def CaptionOf (caption : Option PyStr) (p : PhotoState V) : Prop :=
  ∃ text, caption = some (.text text) ∧ Names text p

/-- The photos shown, all of the trip: each image part follows a text that names its photo,
whose key has the same position in the list of keys. -/
def Showing (trip : Trip V) (messages : List ChatMessage) (keys : List String) : Prop :=
  ∃ photos : List (PhotoState V), (∀ p ∈ photos, p ∈ trip.view) ∧
    keys = photos.map (fun p => p.source.analyzeStorageKey) ∧
    List.Forall₂ CaptionOf (captions messages) photos

/-- Each call of an assistant message is answered by one tool message, in order and at once,
and there are no other tool messages. -/
inductive Answered : List ChatMessage → Prop where
  | nil : Answered []
  | other {m : ChatMessage} {ms : List ChatMessage} :
      m.role = .system ∨ m.role = .user → m.toolCalls = [] → Answered ms → Answered (m :: ms)
  | round {m : ChatMessage} {answers ms : List ChatMessage} :
      m.role = .assistant →
      List.Forall₂ (fun (call : ToolCall) (a : ChatMessage) =>
        a.role = .tool ∧ a.toolCallId = some call.id) m.toolCalls answers →
      Answered ms → Answered (m :: (answers ++ ms))

/-- What holds of a conversation before each request. -/
structure Dialogue.Aligned (trip : Trip V) (d : Dialogue) : Prop where
  showing : Showing trip d.messages d.keys
  users : ImagesFromUser d.messages
  answered : Answered d.messages
  counted : d.tools.imagesUsed = d.keys.length
  budget : d.keys.length ≤ maxImages

/-! ### Captions -/

section Captions

variable {trip : Trip V} {ps : List Part} {messages : List ChatMessage}
  {shown : List (String × PhotoState V)} {p : PhotoState V}

theorem length_captionsFrom (before : Option PyStr) :
    (captionsFrom before ps).length = ps.countP Part.isImage := by
  induction ps generalizing before with
  | nil => rfl
  | cons part ps ih =>
      cases part with
      | text s => rw [captionsFrom, ih, List.countP_cons_of_neg (by simp [Part.isImage])]
      | image => rw [captionsFrom, List.length_cons, ih, List.countP_cons_of_pos rfl]

/-- There is a caption for each image part. -/
theorem length_captions : (captions messages).length = (allParts messages).countP Part.isImage := by
  induction messages with
  | nil => rfl
  | cons m ms ih =>
      rw [captions, List.flatMap_cons, List.length_append, length_captionsFrom]
      rw [allParts, List.flatMap_cons, List.countP_append]
      exact congrArg _ ih

theorem captions_append (ms : List ChatMessage) :
    captions (messages ++ ms) = captions messages ++ captions ms :=
  List.flatMap_append

/-- A message that is a text shows nothing. -/
theorem captions_texts (h : ∀ m ∈ messages, m.content.parts? = []) : captions messages = [] := by
  apply List.flatMap_eq_nil_iff.mpr
  intro m hm
  rw [h m hm]
  rfl

theorem captionsFrom_labelled (before : Option PyStr) (rest : List Part) :
    captionsFrom before (labelled shown ++ rest) =
      shown.map (fun s => some (.text s.1)) ++
        captionsFrom (if shown = [] then before else none) rest := by
  induction shown generalizing before with
  | nil => rfl
  | cons s shown ih =>
      rw [labelled, List.flatMap_cons, List.append_assoc]
      simp only [List.cons_append, List.nil_append, captionsFrom, List.map_cons]
      rw [← labelled, ih]
      simp

theorem Showing.append {ms : List ChatMessage} {keys keys' : List String}
    (h : Showing trip messages keys) (h' : Showing trip ms keys') :
    Showing trip (messages ++ ms) (keys ++ keys') := by
  obtain ⟨photos, hview, rfl, hphotos⟩ := h
  obtain ⟨photos', hview', rfl, hphotos'⟩ := h'
  refine ⟨photos ++ photos', List.forall_mem_append.mpr ⟨hview, hview'⟩, (List.map_append).symm, ?_⟩
  rw [captions_append]
  exact List.rel_append hphotos hphotos'

/-- Texts show nothing. -/
theorem showing_texts (h : ∀ m ∈ messages, m.content.parts? = []) :
    Showing trip messages [] := by
  refine ⟨[], by simp, rfl, ?_⟩
  rw [captions_texts h]
  exact .nil

theorem forall₂_captionOf (h : ∀ s ∈ shown, Names s.1 s.2) :
    List.Forall₂ CaptionOf (shown.map fun s => some (.text s.1)) (shown.map Prod.snd) := by
  induction shown with
  | nil => exact .nil
  | cons s shown ih =>
      obtain ⟨hs, hrest⟩ := List.forall_mem_cons.mp h
      exact .cons ⟨s.1, rfl, hs⟩ (ih hrest)

theorem names_of_split {text : String} (before mark after : String)
    (hmark : mark.toList.head?.map Char.isDigit = some false)
    (h : text = before ++ photoRef p ++ mark ++ after) : Names text p := by
  refine ⟨before, mark ++ after, by rw [h, String.append_assoc], ?_⟩
  intro c hc
  rw [String.toList_append] at hc
  cases hlist : mark.toList with
  | nil => simp [hlist] at hmark
  | cons d ds =>
      simp only [hlist, List.head?_cons, Option.map_some, Option.some.injEq] at hmark
      rw [hlist, List.cons_append, List.head?_cons, Option.some.injEq] at hc
      exact hc ▸ hmark

theorem readLabel_names (py : Python) (trip : Trip V) : Names (readLabel py trip p) p := by
  refine names_of_split "" " (장소 "
    (trip.placeText p ++ ", 촬영 시각 " ++ timeText py p ++ ")") (by decide) ?_
  simp only [readLabel, String.append_assoc, String.empty_append]

end Captions

/-! ### What a call shows -/

/-- The message of a reply shows photos, whose keys it gives and which are counted. -/
structure Reply.Shows (trip : Trip V) (reply : Reply) (tools tools' : Tools) : Prop where
  message : ∀ m ∈ reply.message.toList, m.role = .user ∧ m.toolCalls = []
  showing : Showing trip reply.message.toList (if reply.message.isSome then reply.keys else [])
  counted : tools'.imagesUsed = tools.imagesUsed +
    (if reply.message.isSome then reply.keys else []).length
  budget : tools.imagesUsed ≤ maxImages → tools'.imagesUsed ≤ maxImages

section Calls

variable {py : Python} {trip : Trip V} {world : World V} {setup : Setup} {services : Services V}
  {session session' : Session} {tools tools' : Tools} {reply : Reply} {name : PyStr}
  {arguments : Value} {action : Action V}

/-- A reply without a message. -/
theorem shows_nothing (hmessage : reply.message = none)
    (hused : tools'.imagesUsed = tools.imagesUsed) : reply.Shows trip tools tools' := by
  refine ⟨?_, ?_, ?_, fun h => hused ▸ h⟩
  · simp [hmessage]
  · refine ⟨[], by simp, ?_, ?_⟩
    · simp [hmessage]
    · rw [hmessage]
      exact .nil
  · simp [hmessage, hused]

/-- `_read` shows as many photos as there is room for. -/
theorem read_shows (refs : List PyStr) :
    (tools.read py trip refs).1.Shows trip tools (tools.read py trip refs).2 := by
  unfold Tools.read
  dsimp only
  split
  · exact shows_nothing rfl rfl
  split
  · exact shows_nothing rfl rfl
  · rename_i hroom
    generalize hphotos : (List.take readLimit (refs.eraseDups.filterMap trip.byRef)).take
      (maxImages - tools.imagesUsed) = photos
    have hlength : photos.length ≤ maxImages - tools.imagesUsed := by
      rw [← hphotos]
      exact List.length_take_le _ _
    have hview : ∀ p ∈ photos, p ∈ trip.view := by
      intro p hp
      rw [← hphotos] at hp
      obtain ⟨ref, -, href⟩ :=
        List.mem_filterMap.mp (List.mem_of_mem_take (List.mem_of_mem_take hp))
      exact (byRef_mem href).1
    refine ⟨?_, ⟨photos, hview, ?_, ?_⟩, ?_, ?_⟩
    · simp
    · simp
    · have hcaptions :=
        @captionsFrom_labelled V (photos.map fun p => (readLabel py trip p, p)) none []
      rw [List.append_nil, captionsFrom, List.append_nil] at hcaptions
      simp only [Option.toList_some, captions, List.flatMap_cons, List.flatMap_nil, List.append_nil,
        Content.parts?]
      rw [hcaptions]
      have hnames := @forall₂_captionOf V (photos.map fun p => (readLabel py trip p, p))
        (by simp [readLabel_names])
      simpa using hnames
    · simp
    · intro _
      dsimp only
      omega

theorem perform_shows
    (h : tools.perform py trip services session action = .ok (reply, tools', session')) :
    reply.Shows trip tools tools' := by
  cases action with
  | say text =>
      cases h
      exact shows_nothing rfl rfl
  | readPhotos refs =>
      cases h
      exact read_shows refs
  | readPlace members n =>
      cases h
      exact read_shows _
  | findSimilar photo k =>
      obtain ⟨hits, -, h⟩ := except_bind_eq_ok.mp h
      cases h
      exact shows_nothing rfl rfl
  | searchPublicPlaces query latitude longitude radius =>
      simp only [Tools.perform] at h
      split at h
      · cases h
        exact shows_nothing rfl rfl
      · cases h
        exact shows_nothing rfl rfl
  | searchKeyword query latitude longitude radius =>
      simp only [Tools.perform] at h
      split at h
      · cases h
        exact shows_nothing rfl rfl
      · split at h
        all_goals
          cases h
          exact shows_nothing rfl rfl

theorem run_shows
    (h : tools.run py trip services session name arguments = .ok (reply, tools', session')) :
    reply.Shows trip tools tools' := by
  obtain ⟨action, -, h⟩ := except_bind_eq_ok.mp h
  exact perform_shows h

/-! ### What a turn keeps -/

/-- What answering the calls `done` adds: an answer to each, and the messages that show photos
with the keys of these. -/
structure Calls.Follows (trip : Trip V) (before : Calls) (done : List ToolCall) (calls : Calls) :
    Prop where
  answers : ∃ answers, calls.messages = before.messages ++ answers ∧
    (∀ a ∈ answers, a.content.parts? = []) ∧
    List.Forall₂ (fun (call : ToolCall) (a : ChatMessage) =>
      a.role = .tool ∧ a.toolCallId = some call.id) done answers
  shown : ∃ shown keys, calls.extra = before.extra ++ shown ∧ calls.keys = before.keys ++ keys ∧
    Showing trip shown keys ∧ (∀ m ∈ shown, m.role = .user ∧ m.toolCalls = []) ∧
    calls.tools.imagesUsed = before.tools.imagesUsed + keys.length
  budget : before.tools.imagesUsed ≤ maxImages → calls.tools.imagesUsed ≤ maxImages

theorem Calls.Follows.refl (calls : Calls) : calls.Follows trip [] calls :=
  { answers := ⟨[], (List.append_nil _).symm, by simp, .nil⟩
    shown := ⟨[], [], (List.append_nil _).symm, (List.append_nil _).symm, showing_texts (by simp),
      by simp, rfl⟩
    budget := id }

theorem Calls.Follows.trans {before middle after : Calls} {done rest : List ToolCall}
    (h : before.Follows trip done middle) (h' : middle.Follows trip rest after) :
    before.Follows trip (done ++ rest) after := by
  obtain ⟨answers, hmessages, htexts, hdone⟩ := h.answers
  obtain ⟨answers', hmessages', htexts', hrest⟩ := h'.answers
  obtain ⟨shown, keys, hextra, hkeys, hshowing, husers, hcount⟩ := h.shown
  obtain ⟨shown', keys', hextra', hkeys', hshowing', husers', hcount'⟩ := h'.shown
  refine ⟨⟨answers ++ answers', ?_, ?_, List.rel_append hdone hrest⟩,
    ⟨shown ++ shown', keys ++ keys', ?_, ?_, hshowing.append hshowing', ?_, ?_⟩, ?_⟩
  · rw [hmessages', hmessages, List.append_assoc]
  · exact List.forall_mem_append.mpr ⟨htexts, htexts'⟩
  · rw [hextra', hextra, List.append_assoc]
  · rw [hkeys', hkeys, List.append_assoc]
  · exact List.forall_mem_append.mpr ⟨husers, husers'⟩
  · rw [hcount', hcount, List.length_append, Nat.add_assoc]
  · exact fun hbefore => h'.budget (h.budget hbefore)

theorem answerCalls_follows {n i : Nat} {rest : List ToolCall} {calls calls' : Calls}
    (h : answerCalls py trip world setup n i rest calls = .ok (.inr calls')) :
    calls.Follows trip rest calls' := by
  induction rest generalizing i calls with
  | nil =>
      cases h
      exact .refl _
  | cons call rest ih =>
      rw [answerCalls] at h
      obtain ⟨arguments, -, h⟩ := except_bind_eq_ok.mp h
      split at h
      · cases h
      obtain ⟨⟨reply, tools, session⟩, hrun, h⟩ := except_bind_eq_ok.mp h
      have hshows := run_shows hrun
      change calls.Follows trip ([call] ++ rest) calls'
      refine .trans ?_ (ih h)
      exact
        { answers := ⟨_, rfl, by simp [Content.parts?], .cons ⟨rfl, rfl⟩ .nil⟩
          shown := ⟨_, _, rfl, rfl, hshows.showing, hshows.message, hshows.counted⟩
          budget := hshows.budget }

/-! ### What every request meets -/

theorem Answered.append {ms ms' : List ChatMessage} (h : Answered ms) (h' : Answered ms') :
    Answered (ms ++ ms') := by
  induction h with
  | nil => exact h'
  | other hrole hcalls _ ih => exact .other hrole hcalls ih
  | round hrole hanswers _ ih =>
      rw [List.cons_append, List.append_assoc]
      exact .round hrole hanswers ih

/-- Messages of the user. -/
theorem answered_users {ms : List ChatMessage}
    (h : ∀ m ∈ ms, m.role = .user ∧ m.toolCalls = []) : Answered ms := by
  induction ms with
  | nil => exact .nil
  | cons m ms ih =>
      obtain ⟨⟨hrole, hcalls⟩, hrest⟩ := List.forall_mem_cons.mp h
      exact .other (.inr hrole) hcalls (ih hrest)

theorem imagesFromUser_append {ms ms' : List ChatMessage} :
    ImagesFromUser (ms ++ ms') ↔ ImagesFromUser ms ∧ ImagesFromUser ms' := by
  simp only [ImagesFromUser, List.forall_mem_append]

theorem imagesFromUser_texts {ms : List ChatMessage} (h : ∀ m ∈ ms, m.content.parts? = []) :
    ImagesFromUser ms := by
  intro m hm himage
  rw [h m hm] at himage
  cases himage

theorem imagesFromUser_users {ms : List ChatMessage}
    (h : ∀ m ∈ ms, m.role = .user ∧ m.toolCalls = []) : ImagesFromUser ms :=
  fun m hm _ => (h m hm).1

/-- One more text of the user changes nothing that was aligned. -/
theorem Dialogue.Aligned.userText {d : Dialogue} (h : d.Aligned trip) (text : String) :
    Dialogue.Aligned trip { d with messages := d.messages ++ [userText text] } := by
  have huser : ∀ m ∈ [Pipeline.userText text], m.role = .user ∧ m.toolCalls = [] := by
    simp [Pipeline.userText]
  have htext : ∀ m ∈ [Pipeline.userText text], m.content.parts? = [] := by
    simp [Pipeline.userText, Content.parts?]
  refine ⟨?_, ?_, h.answered.append (answered_users huser), h.counted, h.budget⟩
  · have happend := h.showing.append (showing_texts htext)
    rwa [List.append_nil] at happend
  · exact imagesFromUser_append.mpr ⟨h.users, imagesFromUser_users huser⟩

/-- A reply and the answers to its calls. -/
theorem aligned_answered {d : Dialogue} (h : d.Aligned trip) (reply : ChatTurn) {calls : Calls}
    (hcalls : Calls.Follows trip
      ⟨d.messages ++ [assistantMessage reply], [], d.keys, d.tools⟩ reply.toolCalls calls) :
    Dialogue.Aligned trip ⟨calls.messages ++ calls.extra, calls.keys, calls.tools⟩ := by
  obtain ⟨answers, hmessages, htexts, hanswers⟩ := hcalls.answers
  obtain ⟨shown, keys, hextra, hkeys, hshowing, husers, hcount⟩ := hcalls.shown
  have hparts : ∀ m ∈ assistantMessage reply :: answers, m.content.parts? = [] :=
    List.forall_mem_cons.mpr ⟨rfl, htexts⟩
  have hround : Answered (assistantMessage reply :: answers) := by
    have hend := Answered.round (m := assistantMessage reply) rfl hanswers .nil
    rwa [List.append_nil] at hend
  have hall : calls.messages ++ calls.extra =
      (d.messages ++ (assistantMessage reply :: answers)) ++ shown := by
    rw [hmessages, hextra, List.nil_append]
    simp
  have hlength : calls.tools.imagesUsed = calls.keys.length := by
    rw [hcount, hkeys, List.length_append, ← h.counted]
  refine ⟨?_, ?_, ?_, hlength, ?_⟩
  · have hbefore := h.showing.append (showing_texts hparts)
    rw [List.append_nil] at hbefore
    dsimp only
    rw [hall, hkeys]
    exact hbefore.append hshowing
  · dsimp only
    rw [hall, imagesFromUser_append, imagesFromUser_append]
    exact ⟨⟨h.users, imagesFromUser_texts hparts⟩, imagesFromUser_users husers⟩
  · dsimp only
    rw [hall]
    exact (h.answered.append hround).append (answered_users husers)
  · have hbudget := hcalls.budget (h.counted ▸ h.budget)
    exact hlength ▸ hbudget

/-- **A turn keeps the images aligned**, whatever the model replies. -/
theorem turn_aligned {n : Nat} {d next : Dialogue} (hd : d.Aligned trip)
    (h : turn py trip world setup n d = .ok (.inr next)) : next.Aligned trip := by
  obtain ⟨reply, -, h⟩ := except_bind_eq_ok.mp h
  dsimp only at h
  split at h
  · rename_i hnone
    cases h
    have hreply := aligned_answered hd reply (hnone ▸ Calls.Follows.refl _)
    rw [List.append_nil] at hreply
    exact hreply.userText _
  · obtain ⟨outcome, hcalls, h⟩ := except_bind_eq_ok.mp h
    cases outcome with
    | inl final => cases h
    | inr calls =>
        have hreply := aligned_answered hd reply (answerCalls_follows hcalls)
        cases h
        split
        · exact hreply.userText _
        · exact hreply

/-- **Before each request the images are aligned**, if they are when the conversation
starts. -/
theorem rounds_aligned {left n : Nat} {d : Dialogue} (hd : d.Aligned trip) :
    ∀ request ∈ (rounds py trip world setup left n d).1, request.Aligned trip := by
  induction left generalizing n d with
  | zero => simp [rounds]
  | succ left ih =>
      rw [rounds]
      split
      · simpa using hd
      · simpa using hd
      · rename_i next hnext
        exact List.forall_mem_cons.mpr ⟨hd, ih (turn_aligned hd hnext)⟩

end Calls

end Yeodam.Pipeline
