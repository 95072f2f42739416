/-
The three conversations of the agent (`estimate`, `aggregate` and `merge` in
`app/pipeline/agent/model.py`): how each is set up, and what its final answer is read as.

An answer of the model counts only after it is checked: an estimate becomes a `Proposal`,
whose confidence stays high only for a folder the trip has or a candidate that was found in
the regions of the request (`readDecision`). Every conversation starts with images that are the
photos their captions name (`requests_aligned`).
-/

import Mathlib.Data.String.Basic
import Yeodam.Pipeline.Episode

namespace Yeodam.Pipeline

open Yeodam.Lib Yeodam.Infra Yeodam.Schemas
open scoped IntKeys

variable {V : Type} (N : Numerics V) (py : Python) (trip : Trip V)

/-! ### What is shown with an estimate -/

/-- The texts of the messages. What they tell of the trip and the proposals has no effect but
on the model. -/
structure Prompts (V : Type) where
  estimateSystem : PyStr
  aggregateSystem : PyStr
  mergeSystem : PyStr
  /-- The trip and its folders. -/
  tripText : Trip V → PyStr
  /-- The folders, the proposals and where these conflict. -/
  proposalsText : Trip V → List String → PyStr
  /-- The folders and how they lie to each other. -/
  foldersText : Trip V → PyStr

/-- `neighbors`: the photos taken right before and right after. `StopIteration` where the photo
is not of the trip. -/
def Trip.neighbors (photo : PhotoState V) :
    Except Raised (Option (PhotoState V) × Option (PhotoState V)) :=
  if photo.takenAt.isNone then .ok (none, none)
  else
    let track := sortOn (fun p => toLex ((p.takenAt.map AwareTime.instant).getD 0, p.id))
      (trip.view.filter fun p => p.takenAt.isSome)
    match track.findIdx? fun p => p.id = photo.id with
    | none => .error .other
    | some index =>
        .ok (if 0 < index then track[index - 1]? else none, track[index + 1]?)

/-- `_place_order` -/
def placeOrder (place : String) : Lex (String × Nat) :=
  toLex (String.ofList (place.toList.take 1), Trip.placeNumber place)

/-- `best_per_place`: of each folder the photo most like this one, the most alike first. -/
def Trip.bestPerPlace (photo : PhotoState V) : List (String × ℚ × PhotoState V) :=
  sortOn (fun best => toLex (-best.2.1, placeOrder best.1))
    (trip.places.filterMap fun place =>
      ((place.2.filter fun other => other.id ≠ photo.id).argmax fun other =>
          toLex (similarity N other photo, -other.id)).map
        fun best => (place.1, similarity N best photo, best))

/-- `round(abs((a - b).total_seconds()) / 60)`, of times that are there; a tie goes to the even
number. -/
def gapMinutes (a b : PhotoState V) : Int :=
  match a.takenAt, b.takenAt with
  | some a, some b =>
      let micros := |a.instant - b.instant|
      let (minutes, rest) := (micros / 60000000, micros % 60000000)
      if rest < 30000000 ∨ (rest = 30000000 ∧ minutes % 2 = 0) then minutes else minutes + 1
  | _, _ => 0

def targetLabel (p : PhotoState V) : String :=
  "\n대상 사진 " ++ photoRef p ++ ", 촬영 시각: " ++ timeText py p

/-- `side` is `바로 앞` or `바로 뒤`. -/
def neighborLabel (photo : PhotoState V) (side : String) (p : PhotoState V) : String :=
  "\n촬영 시각이 " ++ side ++ "인 사진 " ++ photoRef p ++ ": 장소 " ++ trip.placeText p ++
    ", 촬영 시각 " ++ timeText py p ++ "(" ++ toString (gapMinutes p photo) ++ "분 차이)"

def bestLabel (place : String) (score : ℚ) (p : PhotoState V) : String :=
  "\n장소 " ++ place ++ "의 사진 " ++ photoRef p ++ "(유사도 " ++ py.fixed score ++
    ", 촬영 시각 " ++ timeText py p ++ ")"

/-- The photos shown first: the target and its neighbours. -/
def shownFirst (photo : PhotoState V) (before after : Option (PhotoState V)) :
    List (String × PhotoState V) :=
  (targetLabel py photo, photo) ::
    ((before.map fun p => (neighborLabel py trip photo "바로 앞" p, p)).toList ++
      (after.map fun p => (neighborLabel py trip photo "바로 뒤" p, p)).toList)

/-- The set up of `estimate`. -/
def estimateSetup (prompts : Prompts V) (photo : PhotoState V) : Except Raised Setup := do
  let (before, after) ← trip.neighbors photo
  let first := shownFirst py trip photo before after
  let best := ((trip.bestPerPlace N photo).take (maxImages - first.length)).map fun best =>
    (bestLabel py best.1 best.2.1 best.2.2, best.2.2)
  return {
    system := prompts.estimateSystem
    content := .text (prompts.tripText trip) :: labelled first ++
      .text (.text "\n장소별로 대상 사진과 임베딩 유사도가 가장 높은 사진:") :: labelled best
    keys := (first ++ best).map fun s => s.2.source.analyzeStorageKey
    finalName := "decide"
    maxCalls := 12 }

/-! ### Proposals -/

inductive Confidence where
  | high
  | medium
  | low
deriving DecidableEq

def confidenceOf : Option Value → Confidence
  | some (.str (.text "high")) => .high
  | some (.str (.text "medium")) => .medium
  | _ => .low

inductive Decision where
  /-- `"existing"`, with the folder named; none where the trip has no such folder. -/
  | existing (place : Option String)
  /-- `"new"`, with the candidate named and the name for the place; none where the candidate
  was not found. -/
  | new (candidate : Option (Candidate × PyStr))

structure Proposal where
  photoId : String
  decision : Option Decision
  confidence : Confidence

/-- `region_key` -/
def regionKey (region : String × String) : String × String :=
  (strip region.1, (splitSpace region.2).headD "")

/-- What the session keeps of the regions. -/
structure Regions where
  /-- `region_keys`, of the request. -/
  keys : List (String × String)
  /-- `_regions`: what `kakao.region` said of a candidate that was asked for. -/
  found : Candidate → Option (String × String)

/-- `in_region` -/
def Regions.contains (regions : Regions) (c : Candidate) : Bool :=
  (regions.found c).any fun region => regionKey region ∈ regions.keys

/-- `place in trip.places()` -/
def Trip.knownPlace : PyStr → Option String
  | .text place => if trip.hasPlace place then some place else none
  | .surrogate _ => none

/-- The candidate of an id the model gave. -/
def Tools.candidate (tools : Tools) : PyStr → Option Candidate
  | .text id => tools.candidates.get? id
  | .surrogate _ => none

/-- What `estimate` reads in the final answer. -/
def readDecision (regions : Regions) (tools : Tools) (photoId : String) (final : Value) :
    Except Raised Proposal := do
  let confidence := confidenceOf (final.get? "confidence")
  let _ ← strOrEmpty py (final.get? "reason")
  match final.get? "decision" with
  | some (.str (.text "existing")) =>
      let place := trip.knownPlace (trip.canonText (← argText py (final.get? "place_id")))
      return ⟨photoId, some (.existing place), if place.isSome then confidence else .low⟩
  | some (.str (.text "new")) =>
      match tools.candidate (← argText py (final.get? "candidate_id")) with
      | none => return ⟨photoId, some (.new none), .low⟩
      | some c =>
          let name ← match (final.get? "new_place_name").filter truthy with
            | some v => strOf py v
            | none => .ok (.text c.name)
          return ⟨photoId, some (.new (some (c, name))),
            if confidence = .high ∧ !regions.contains c then .low else confidence⟩
  | _ => return ⟨photoId, none, .low⟩

/-- What comes of an estimate. -/
structure Estimate where
  proposal : Proposal
  /-- The places the searches of its conversation returned, for statements about them. -/
  returned : List Candidate

/-- `estimate`: the requests, and what comes of them. -/
def estimate (prompts : Prompts V) (world : World V) (regions : Regions) (photo : PhotoState V) :
    Except Raised (List Dialogue × Except Raised Estimate) := do
  let setup ← estimateSetup N py trip prompts photo
  let (requests, outcome) := episode py trip world setup
  return (requests, do
    match ← outcome with
    | (none, tools) => return ⟨⟨photoRef photo, none, .low⟩, tools.returned⟩
    | (some final, tools) =>
        return ⟨← readDecision py trip regions tools (photoRef photo) final, tools.returned⟩)

/-! ### Accepting proposals and merging folders -/

/-- The set up of `aggregate`; `high` are the photos of the proposals shown. -/
def aggregateSetup (prompts : Prompts V) (high : List String) : Setup :=
  { system := prompts.aggregateSystem
    content := [.text (prompts.proposalsText trip high)]
    keys := []
    finalName := "finalize"
    maxCalls := 12 }

/-- A proposal that counts: high, with a decision. -/
def Proposal.isHigh (p : Proposal) : Bool := p.confidence = .high && p.decision.isSome

/-- The photos the final answer accepts. -/
def acceptedRefs (final : Option Value) : Except Raised (List PyStr) :=
  match final.bind fun v => v.get? "accept" with
  | some (.arr refs) => refs.mapM fun r => ref py (some r)
  | _ => .ok []

/-- `aggregate`: the requests, and the proposals accepted. -/
def aggregate (prompts : Prompts V) (world : World V) (proposals : List Proposal) :
    List Dialogue × Except Raised (List Proposal) :=
  let high := proposals.filter Proposal.isHigh
  if high = [] then ([], .ok [])
  else
    let (requests, outcome) :=
      episode py trip world (aggregateSetup trip prompts (high.map Proposal.photoId))
    (requests, do
      let (final, _) ← outcome
      let accepted ← acceptedRefs py final
      return high.filter fun p => .text p.photoId ∈ accepted)

/-- The set up of `merge`. -/
def mergeSetup (prompts : Prompts V) : Setup :=
  { system := prompts.mergeSystem
    content := [.text (prompts.foldersText trip)]
    keys := []
    finalName := "merge"
    maxCalls := 24 }

/-- The folders of a group of the final answer that the trip has, if the group counts. -/
def mergeFolders (group : Value) : Except Raised (List String) :=
  match group.get? "confidence", group.get? "place_ids" with
  | some (.str (.text "high")), some (.arr ids) => do
      let places ← ids.mapM fun x => do return trip.canonText (← strOf py x).strip
      return places.eraseDups.filterMap trip.knownPlace
  | _, _ => .ok []

/-- `merge`: the requests, and the groups of folders to merge. -/
def merge (prompts : Prompts V) (world : World V) :
    List Dialogue × Except Raised (List (List String)) :=
  let (requests, outcome) := episode py trip world (mergeSetup trip prompts)
  (requests, do
    let (final, _) ← outcome
    match final.bind fun v => v.get? "groups" with
    | some (.arr groups) =>
        return (← groups.mapM (mergeFolders py trip)).filter fun group => 2 ≤ group.length
    | _ => return [])

/-! ### Every conversation starts aligned -/

/-- The set ups a conversation can have: the agent estimates its targets only. -/
inductive Started (prompts : Prompts V) : Setup → Prop where
  | estimate {photo : PhotoState V} {setup : Setup} : photo ∈ trip.targets →
      estimateSetup N py trip prompts photo = .ok setup → Started prompts setup
  | aggregate (high : List String) : Started prompts (aggregateSetup trip prompts high)
  | merge : Started prompts (mergeSetup trip prompts)

section Starts

variable {N py trip} {prompts : Prompts V} {setup : Setup} {photo p : PhotoState V}

theorem targetLabel_names : Names (targetLabel py p) p := by
  apply names_of_split "\n대상 사진 " ", 촬영 시각: " (timeText py p) (by decide)
  simp only [targetLabel, String.append_assoc]

theorem neighborLabel_names (side : String) : Names (neighborLabel py trip photo side p) p := by
  unfold neighborLabel
  generalize toString (gapMinutes p photo) = gap
  refine names_of_split ("\n촬영 시각이 " ++ side ++ "인 사진 ") ": 장소 "
    (trip.placeText p ++ ", 촬영 시각 " ++ timeText py p ++ "(" ++ gap ++ "분 차이)") (by decide) ?_
  simp only [String.append_assoc]

theorem bestLabel_names (place : String) (score : ℚ) : Names (bestLabel py place score p) p := by
  refine names_of_split ("\n장소 " ++ place ++ "의 사진 ") "(유사도 "
    (py.fixed score ++ ", 촬영 시각 " ++ timeText py p ++ ")") (by decide) ?_
  simp only [bestLabel, String.append_assoc]

theorem shownFirst_names {before after : Option (PhotoState V)} :
    ∀ s ∈ shownFirst py trip photo before after, Names s.1 s.2 := by
  intro s hs
  rcases List.mem_cons.mp hs with rfl | hs
  · exact targetLabel_names
  · rw [List.mem_append, Option.mem_toList, Option.mem_toList, Option.map_eq_some_iff,
      Option.map_eq_some_iff] at hs
    rcases hs with ⟨p, -, rfl⟩ | ⟨p, -, rfl⟩
    · exact neighborLabel_names "바로 앞"
    · exact neighborLabel_names "바로 뒤"

theorem shownFirst_mem {before after : Option (PhotoState V)} (hphoto : photo ∈ trip.view)
    (h : (∀ p ∈ before, p ∈ trip.view) ∧ ∀ p ∈ after, p ∈ trip.view) :
    ∀ s ∈ shownFirst py trip photo before after, s.2 ∈ trip.view := by
  intro s hs
  rcases List.mem_cons.mp hs with rfl | hs
  · exact hphoto
  · rw [List.mem_append, Option.mem_toList, Option.mem_toList, Option.map_eq_some_iff,
      Option.map_eq_some_iff] at hs
    rcases hs with ⟨p, hp, rfl⟩ | ⟨p, hp, rfl⟩
    · exact h.1 p hp
    · exact h.2 p hp

theorem length_shownFirst {before after : Option (PhotoState V)} :
    (shownFirst py trip photo before after).length ≤ 3 := by
  cases before <;> cases after <;> simp [shownFirst]

/-- A conversation whose first message shows photos by name starts aligned. -/
theorem dialogue_aligned (hshowing : ∃ photos : List (PhotoState V), (∀ p ∈ photos, p ∈ trip.view) ∧
      setup.keys = photos.map (fun p => p.source.analyzeStorageKey) ∧
      List.Forall₂ CaptionOf (captionsFrom none setup.content) photos)
    (hbudget : setup.keys.length ≤ maxImages) : setup.dialogue.Aligned trip := by
  obtain ⟨photos, hview, hkeys, hcaptions⟩ := hshowing
  refine ⟨⟨photos, hview, hkeys, ?_⟩, ?_, ?_, rfl, hbudget⟩
  · simpa [Setup.dialogue, captions, Content.parts?, captionsFrom] using hcaptions
  · simp [ImagesFromUser, Setup.dialogue, Content.parts?]
  · exact .other (.inl rfl) rfl (.other (.inr rfl) rfl .nil)

/-- The neighbours of a photo are of the trip. -/
theorem neighbors_mem {before after : Option (PhotoState V)}
    (h : trip.neighbors photo = .ok (before, after)) :
    (∀ p ∈ before, p ∈ trip.view) ∧ ∀ p ∈ after, p ∈ trip.view := by
  unfold Trip.neighbors at h
  split at h
  · cases h
    simp
  · dsimp only at h
    generalize htrack : sortOn (fun p => toLex ((p.takenAt.map AwareTime.instant).getD 0, p.id))
      (trip.view.filter fun p => p.takenAt.isSome) = track at h
    have hview : ∀ p ∈ track, p ∈ trip.view := by
      intro p hp
      rw [← htrack, mem_sortOn] at hp
      exact (List.mem_filter.mp hp).1
    split at h
    · cases h
    · cases h
      refine ⟨fun p hp => ?_, fun p hp => hview p (List.mem_of_getElem? hp)⟩
      split at hp
      · exact hview p (List.mem_of_getElem? hp)
      · cases hp

/-- So are the photos most like it. -/
theorem bestPerPlace_mem : ∀ best ∈ trip.bestPerPlace N photo, best.2.2 ∈ trip.view := by
  intro best hbest
  rw [Trip.bestPerPlace, mem_sortOn, List.mem_filterMap] at hbest
  obtain ⟨entry, hentry, hbest⟩ := hbest
  obtain ⟨p, hp, rfl⟩ := Option.map_eq_some_iff.mp hbest
  exact ((Trip.mem_places hentry).mp (List.mem_filter.mp (List.argmax_mem hp)).1).1

theorem estimateSetup_aligned (hphoto : photo ∈ trip.targets)
    (h : estimateSetup N py trip prompts photo = .ok setup) : setup.dialogue.Aligned trip := by
  obtain ⟨⟨before, after⟩, hneighbors, h⟩ := except_bind_eq_ok.mp h
  dsimp only at h
  generalize hfirst : shownFirst py trip photo before after = first at h
  generalize hbest : ((trip.bestPerPlace N photo).take (maxImages - first.length)).map
    (fun best => (bestLabel py best.1 best.2.1 best.2.2, best.2.2)) = best at h
  have hfirstView : ∀ s ∈ first, s.2 ∈ trip.view := by
    rw [← hfirst]
    exact shownFirst_mem (Trip.mem_targets.mp hphoto).1 (neighbors_mem hneighbors)
  have hbestView : ∀ s ∈ best, s.2 ∈ trip.view := by
    intro s hs
    rw [← hbest] at hs
    obtain ⟨b, hb, rfl⟩ := List.mem_map.mp hs
    exact bestPerPlace_mem b (List.mem_of_mem_take hb)
  have hfirstNames : ∀ s ∈ first, Names s.1 s.2 := hfirst ▸ shownFirst_names
  have hbestNames : ∀ s ∈ best, Names s.1 s.2 := by
    intro s hs
    rw [← hbest] at hs
    obtain ⟨b, -, rfl⟩ := List.mem_map.mp hs
    exact bestLabel_names b.1 b.2.1
  have hfirstLength : first.length ≤ 3 := hfirst ▸ length_shownFirst
  have hbestLength : best.length ≤ maxImages - first.length := by
    rw [← hbest, List.length_map]
    exact List.length_take_le _ _
  cases h
  refine dialogue_aligned ⟨(first ++ best).map Prod.snd, ?_, ?_, ?_⟩ ?_
  · exact List.forall_mem_map.mpr (List.forall_mem_append.mpr ⟨hfirstView, hbestView⟩)
  · rw [List.map_map]
    rfl
  · have hlast : captionsFrom
        (some (PyStr.text "\n장소별로 대상 사진과 임베딩 유사도가 가장 높은 사진:"))
        (labelled best) = best.map fun s => some (.text s.1) := by
      have hcaptions := @captionsFrom_labelled V best
        (some (.text "\n장소별로 대상 사진과 임베딩 유사도가 가장 높은 사진:")) []
      rwa [List.append_nil, captionsFrom, List.append_nil] at hcaptions
    rw [List.cons_append, captionsFrom, captionsFrom_labelled, captionsFrom, hlast,
      ← List.map_append]
    exact forall₂_captionOf (List.forall_mem_append.mpr ⟨hfirstNames, hbestNames⟩)
  · rw [List.length_map, List.length_append]
    have hmax : maxImages = 30 := rfl
    omega

theorem started_aligned (h : Started N py trip prompts setup) : setup.dialogue.Aligned trip := by
  cases h with
  | estimate hphoto hsetup => exact estimateSetup_aligned hphoto hsetup
  | aggregate high => exact dialogue_aligned ⟨[], by simp, rfl, .nil⟩ (Nat.zero_le _)
  | merge => exact dialogue_aligned ⟨[], by simp, rfl, .nil⟩ (Nat.zero_le _)

/-- **Every image is the photo its caption names.** Before each request of a conversation the
images are as many as the keys, each after a text that names the photo of the key at its
position, and the calls of all replies are answered. So the request is sent, with each URL in
the image part of its position and all else as it is. -/
theorem requests_aligned {world : World V} (h : Started N py trip prompts setup) :
    ∀ d ∈ (episode py trip world setup).1,
      d.Aligned trip ∧ (allParts d.messages).countP Part.isImage = d.keys.length ∧
      ∀ urls : List String, urls.length = d.keys.length →
        ∃ wire, wireMessages d.messages urls = .ok wire ∧
          wire.map WireMessage.unfilled = d.messages ∧ sentUrls wire = urls := by
  intro d hd
  have haligned := rounds_aligned (started_aligned h) d hd
  obtain ⟨photos, -, hkeys, hcaptions⟩ := haligned.showing
  have hcount : (allParts d.messages).countP Part.isImage = d.keys.length := by
    rw [← length_captions, hcaptions.length_eq, hkeys, List.length_map]
  refine ⟨haligned, hcount, fun urls hurls => ?_⟩
  exact wireMessages_filled haligned.users (hcount.trans hurls.symm)

end Starts

/-! ### A conversation that reads a photo -/

def samplePrompts : Prompts Unit :=
  { estimateSystem := .text "", aggregateSystem := .text "", mergeSystem := .text "",
    tripText := fun _ => .text "", proposalsText := fun _ _ => .text "",
    foldersText := fun _ => .text "" }

/-- The model asks for a photo and then is not reached any more. -/
def sampleWorld : World Unit :=
  { chat := fun n =>
      if n = 0 then
        .ok
          { content := .text "",
            toolCalls := [⟨.text "call-1", .text "read_photo",
              .text "\x7b\"photo_ids\": [\"S1\"]\x7d"⟩] }
      else .error .unavailable
    services := fun _ _ => sampleServices
    session := fun _ _ => {} }

theorem requests_aligned_sampleWorld :
    (episode samplePython sampleTrip sampleWorld
      (aggregateSetup sampleTrip samplePrompts ["S1"])).1.map Dialogue.keys = [[], ["a.jpg"]] ∧
    ∀ d ∈ (episode samplePython sampleTrip sampleWorld
        (aggregateSetup sampleTrip samplePrompts ["S1"])).1,
      d.Aligned sampleTrip ∧ (allParts d.messages).countP Part.isImage = d.keys.length ∧
      ∀ urls : List String, urls.length = d.keys.length →
        ∃ wire, wireMessages d.messages urls = .ok wire ∧
          wire.map WireMessage.unfilled = d.messages ∧ sentUrls wire = urls :=
  ⟨by decide +kernel, requests_aligned (Started.aggregate (N := sampleNumerics) ["S1"])⟩

end Yeodam.Pipeline
