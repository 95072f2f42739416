/-
The agent step (`run_agent` in `app/pipeline/agent/graph.py`): photos without a place are
estimated one by one and put into folders in up to five rounds, folders are merged, and what
is left is estimated once more.

The photos change between conversations only. What the model says gets into them through
`applyProposal` and `Trip.mergeGroup`, and `agent_keeps` is what can come of it whatever the
model says: only targets are put into folders, at the point of a GPS photo of the folder or
of a candidate that was found in the regions of the request.
-/

import Yeodam.Lib.Text
import Yeodam.Pipeline.Grounded
import Yeodam.Pipeline.Proposals

namespace Yeodam.Pipeline

open Yeodam.Lib Yeodam.Schemas

variable {V : Type} (N : Numerics V) (py : Python)

/-! ### The graph -/

inductive Node where
  | select
  | estimate
  | aggregate
  | merge
deriving DecidableEq

/-- What the step meets from outside. -/
structure AgentWorld (V : Type) where
  /-- What interrupts the wait in a node of a round: the cancel check, the report or the time
  that is left. -/
  wait : Nat → Node → Option CallError
  /-- `kakao.region` at a region of the request. -/
  regionOf : Region → Option (String × String)
  /-- The conversation about a photo in a round. -/
  estimating : Nat → Int → World V
  /-- What the session holds of a candidate's region in that conversation: the answer of
  `kakao.region` at the point of the candidate, which is kept by id. -/
  found : Nat → Int → Candidate → Option (String × String)
  aggregating : Nat → World V
  merging : Nat → World V

/-- `_State`, with the trip. -/
structure GraphState (V : Type) where
  trip : Trip V
  round : Nat := 0
  /-- `stage` is `"final"`. -/
  final : Bool := false
  proposals : List Proposal := []
  changed : Nat := 0
  /-- The places searches have returned so far, for statements about them. -/
  returned : List Candidate := []

def maxRounds : Nat := 5

/-- The proposals put into the trip so far. -/
structure Applied (V : Type) where
  trip : Trip V
  /-- `new_ids` -/
  newIds : Dict String String := ∅
  changed : Nat := 0

/-- The folder of a candidate: the one this round has for it, or one that is added. -/
def Applied.folderFor (state : Applied V) (c : Candidate) (name : PyStr) : String × Applied V :=
  let key := if c.candidateId ≠ "" then c.candidateId else py.normalize name
  match state.newIds.get? key with
  | some place => (place, state)
  | none =>
      let (place, trip) := state.trip.addNewPlace name c.latitude c.longitude key
      (place, { state with trip := trip, newIds := state.newIds.set key place })

def Applied.assign (state : Applied V) (photo : PhotoState V) (place : String) :
    Except Raised (Applied V) := do
  let trip ← state.trip.assign N photo place
  return { state with trip := trip, changed := state.changed + 1 }

/-- One round of the loop over the accepted proposals. -/
def applyProposal (state : Applied V) (p : Proposal) : Except Raised (Applied V) :=
  match state.trip.byRef (.text p.photoId) with
  | none => .error .other
  | some photo =>
      if photo.placeId.isSome then .ok state
      else
        match p.decision with
        | some (.existing (some place)) => state.assign N photo place
        | some (.new (some (c, name))) =>
            let (place, state) := state.folderFor py c name
            state.assign N photo place
        | _ => .error .other

section Nodes

variable (prompts : Prompts V) (world : AgentWorld V) (keys : List (String × String))

/-- A wait for conversations. -/
def pause (s : GraphState V) (node : Node) : Except Raised Unit :=
  match world.wait s.round node with
  | some e => .error e.raised
  | none => .ok ()

def estimateTarget (s : GraphState V) (photo : PhotoState V) : Except Raised Estimate := do
  let (_, outcome) ← estimate N py s.trip prompts (world.estimating s.round photo.id)
    ⟨keys, world.found s.round photo.id⟩ photo
  outcome

/-- The proposals the trip takes. -/
def acceptedProposals (s : GraphState V) : Except Raised (List Proposal) :=
  if s.proposals.any fun p => p.confidence = .high then do
    pause world s .aggregate
    (aggregate py s.trip prompts (world.aggregating s.round) s.proposals).2
  else .ok []

def mergeGroups (s : GraphState V) : Except Raised (List (List String)) :=
  if 2 ≤ s.trip.places.length then do
    pause world s .merge
    (merge py s.trip prompts (world.merging s.round)).2
  else .ok []

/-- One node, and the node after it. -/
def nodeStep (s : GraphState V) : Node → Except Raised (GraphState V × Option Node)
  | .select =>
      .ok ({ s with round := s.round + 1, proposals := [], changed := 0 },
        if !s.trip.targets.isEmpty then some .estimate else if s.final then none else some .merge)
  | .estimate => do
      pause world s .estimate
      let estimates ← s.trip.targets.mapM (estimateTarget N py prompts world keys s)
      return ({ s with
          proposals := estimates.map Estimate.proposal
          returned := s.returned ++ estimates.flatMap Estimate.returned }, some .aggregate)
  | .aggregate => do
      let accepted ← acceptedProposals py prompts world s
      let applied ← accepted.foldlM (applyProposal N py) { trip := s.trip }
      return ({ s with trip := applied.trip, changed := applied.changed },
        if s.final then none
        else if applied.changed ≠ 0 ∧ s.round < maxRounds then some .select else some .merge)
  | .merge => do
      let groups ← mergeGroups py prompts world s
      return ({ s with trip := groups.foldl Trip.mergeGroup s.trip, final := true }, some .select)

/-- `graph.compile().invoke(...)`, with the steps that are left to the recursion limit. -/
def graphRun : Nat → Node → GraphState V → Except Raised (GraphState V)
  | 0, _, _ => .error .other
  | fuel + 1, node, s => do
      match ← nodeStep N py prompts world keys s node with
      | (s, none) => return s
      | (s, some next) => graphRun fuel next s

end Nodes

structure AgentResult (V : Type) where
  photos : List (PhotoState V)
  returned : List Candidate := []

/-- The region keys of the request: `load_regions`. -/
def requestKeys (world : AgentWorld V) (request : ProcessRequest) : List (String × String) :=
  (request.regions.filterMap world.regionOf).map regionKey

/-- `run_agent`. The threshold for conflicts has to be there. -/
def runAgent (prompts : Prompts V) (world : AgentWorld V) (hasThreshold : Bool)
    (photos : List (PhotoState V)) (request : ProcessRequest) : Except Raised (AgentResult V) := do
  raiseIf (!hasThreshold) "파이프라인 임계값이 누락됨: ['agent_same_photo_min_sim']"
  let trip ← Trip.make N photos request
  if trip.targets.isEmpty && trip.places.length < 2 then return { photos := photos }
  pause world { trip := trip } .select
  let s ← graphRun N py prompts world (requestKeys world request) 64 .select { trip := trip }
  return ⟨s.trip.finish.photos, s.returned⟩

/-- The place was returned by a search, and its region was found to be one of the request. -/
def AgentWorld.Checked (world : AgentWorld V) (keys : List (String × String))
    (returned : List Candidate) (c : Candidate) : Prop :=
  c ∈ returned ∧ ∃ round photo, Regions.contains ⟨keys, world.found round photo⟩ c = true

section Keeping

variable {N py} {prompts : Prompts V} {world : AgentWorld V} {keys : List (String × String)}
  {period : Period} {checked : Candidate → Prop} {before : List (PhotoState V)} {trip : Trip V}
  {photo p q : PhotoState V} {place : String} {s s' : GraphState V}

/-! ### The trip at the start -/

theorem tripKeeps_make {request : ProcessRequest} (hfolders : Folders N request.period before)
    (h : Trip.make N before request = .ok trip) :
    TripKeeps N request.period checked before trip ∧ trip.photos = before ∧ trip.merged = ∅ := by
  obtain ⟨inside, hinside, h⟩ := except_bind_eq_ok.mp h
  have hmembers : ∀ p ∈ before, p.id ∈ inside.map PhotoState.id ↔
      inPeriod N request.period p = .ok true := by
    intro p hp
    constructor
    · intro hid
      obtain ⟨q, hq, hqid⟩ := List.mem_map.mp hid
      obtain ⟨hqmem, hin⟩ := (mem_filterOk hinside).mp hq
      exact eq_of_id hfolders.nodup hqmem hp hqid ▸ hin
    · exact fun hin => List.mem_map_of_mem ((mem_filterOk hinside).mpr ⟨hp, hin⟩)
  have htrip : trip.photos = before ∧ trip.members = inside.map PhotoState.id ∧ trip.merged = ∅ ∧
      trip.newPlaces = ∅ := by
    split at h
    · cases h
    · cases h
      exact ⟨rfl, rfl, rfl, rfl⟩
  obtain ⟨hphotos, htripMembers, hmerged, hnew⟩ := htrip
  -- A photo is in the folder it names, and so are the GPS photos of this folder.
  have hplaceOf : ∀ p : PhotoState V, trip.placeOf p = p.folder? := by
    intro p
    have hcanon : trip.canon = id := funext fun place =>
      Trip.canon_of_none (by rw [hmerged, Dict.get?_empty])
    rw [Trip.placeOf, hcanon, Option.map_id, id, PhotoState.folder?, Option.filter_filter]
    simp
  have hview : ∀ p ∈ before, ∀ place, p.folder? = some place → p ∈ trip.view := by
    intro p hp place hplace
    rw [Trip.mem_view, hphotos, htripMembers]
    exact ⟨hp, (hmembers p hp).mpr (hfolders.inside p hp place hplace)⟩
  have hanchor : ∀ p ∈ trip.view, ∀ place, trip.placeOf p = some place →
      ∃ a ∈ trip.view, a.regionOrigin = .exif ∧ trip.placeOf a = some place ∧
        a.latitude = p.latitude ∧ a.longitude = p.longitude := by
    intro p hp place hplace
    rw [hplaceOf] at hplace
    have hp' : p ∈ before := hphotos ▸ (Trip.mem_view.mp hp).1
    obtain ⟨a, ha, haplace, horigin, hlatitude, hlongitude⟩ := hfolders.origin p hp' place hplace
    exact ⟨a, hview a ha place haplace, horigin, (hplaceOf a).trans haplace, hlatitude.symm,
      hlongitude.symm⟩
  refine ⟨⟨hfolders, ?_, ?_, Trip.merges_empty hmerged, ?_, ?_, ?_, ?_, ?_⟩, hphotos, hmerged⟩
  · rw [hphotos]
    exact List.forall₂_same.mpr fun p _ => .same
  · intro p hp
    rw [htripMembers]
    exact hmembers p hp
  · intro p hp place hplace
    obtain ⟨a, ha, horigin, haplace, -⟩ := hanchor p hp place hplace
    exact ⟨(Trip.placeOf_eq_some.mp hplace).2, .inl ⟨a, ha, horigin, haplace⟩⟩
  · intro place hplace
    rw [hmerged, Dict.get?_empty] at hplace
    cases hplace
  · intro place hplace
    rw [hnew, Dict.get?_empty] at hplace
    cases hplace
  · intro place new hplace
    rw [hnew, Dict.get?_empty] at hplace
    cases hplace
  · intro p hp place hplace
    exact .inl (hanchor p hp place hplace)

/-! ### A round of proposals -/

/-- A proposal for a target of the trip, as its conversation left it. -/
structure Proposal.Fits (world : AgentWorld V) (keys : List (String × String))
    (trip : Trip V) (returned : List Candidate) (p : Proposal) : Prop where
  target : ∃ t ∈ trip.targets, p.photoId = photoRef t
  checked : ∃ round photo, p.Checked trip ⟨keys, world.found round photo⟩ returned

/-- What holds while the proposals of a round are put into `trip`, one after the other: folders
that could give coordinates still can, and so can those that were opened. -/
structure AppliedKeeps (N : Numerics V) (period : Period) (checked : Candidate → Prop)
    (before : List (PhotoState V)) (trip : Trip V) (state : Applied V) : Prop where
  keeps : TripKeeps N period checked before state.trip
  merged : state.trip.merged = trip.merged
  grounded : ∀ place, trip.Grounded place → state.trip.Grounded place
  newIds : ∀ key place, state.newIds.get? key = some place →
    state.trip.Grounded (state.trip.canon place)

section Applying

variable {state : Applied V} {c : Candidate} {name : PyStr}

theorem photoRef_injective (h : photoRef p = photoRef q) : p.id = q.id := by
  have hlist := congrArg String.toList h
  rw [photoRef, photoRef, String.toList_append, String.toList_append] at hlist
  exact toString_int_injective (String.toList_inj.mp (List.append_cancel_left hlist))

/-- What `add_new_place` leaves. -/
theorem addNewPlace_same (trip : Trip V) (name : PyStr) (latitude longitude : PyFloat)
    (key : String) :
    (trip.addNewPlace name latitude longitude key).2.merged = trip.merged ∧
      (trip.addNewPlace name latitude longitude key).2.targets = trip.targets := by
  unfold Trip.addNewPlace
  split <;> exact ⟨rfl, rfl⟩

/-- A target stays one until it is put into a folder. -/
theorem target_stays {trip' : Trip V} (h : TripKeeps N period checked before trip)
    (h' : TripKeeps N period checked before trip') (hphoto : photo ∈ trip.targets)
    (hq : q ∈ trip'.view) (hid : q.id = photo.id) (hplace : q.placeId = none) :
    q ∈ trip'.targets := by
  obtain ⟨hmem, htarget⟩ := h.isTarget hphoto
  obtain ⟨b, hb, hmoved⟩ := exists_left_of_forall₂ h'.moved (Trip.mem_view.mp hq).1
  obtain rfl := hmoved.eq_of_noPlace hplace
  obtain rfl := eq_of_id h.folders.nodup hb hmem hid
  exact Trip.mem_targets.mpr ⟨hq, hplace, htarget.unclear, htarget.noGps⟩

theorem AppliedKeeps.assign (h : AppliedKeeps N period checked before trip state)
    (hphoto : photo ∈ state.trip.targets) (hplace : state.trip.Grounded (state.trip.canon place)) :
    ∃ state', state.assign N photo place = .ok state' ∧
      AppliedKeeps N period checked before trip state' := by
  obtain ⟨point, hassign, hkeeps⟩ := h.keeps.assign hphoto hplace
  obtain ⟨hview, hno, -⟩ := Trip.mem_targets.mp hphoto
  have hgrounded : ∀ other, state.trip.Grounded other →
      (state.trip.put photo (state.trip.canon place) point).Grounded other :=
    fun other => h.keeps.grounded_put hview hno
  refine ⟨{ state with
    trip := state.trip.put photo (state.trip.canon place) point, changed := state.changed + 1 },
    ?_, hkeeps, h.merged, ?_, ?_⟩
  · rw [Applied.assign, hassign]
    rfl
  · exact fun other hother => hgrounded other (h.grounded other hother)
  · exact fun key other hother => hgrounded _ (h.newIds key other hother)

theorem AppliedKeeps.folderFor (py : Python) (name : PyStr)
    (h : AppliedKeeps N period checked before trip state) (hc : checked c) :
    AppliedKeeps N period checked before trip (state.folderFor py c name).2 ∧
      (state.folderFor py c name).2.trip.targets = state.trip.targets ∧
      (state.folderFor py c name).2.trip.Grounded
        ((state.folderFor py c name).2.trip.canon (state.folderFor py c name).1) := by
  unfold Applied.folderFor
  dsimp only
  generalize (if c.candidateId ≠ "" then c.candidateId else py.normalize name) = key
  split
  · rename_i place hplace
    exact ⟨h, rfl, h.newIds key place hplace⟩
  · obtain ⟨hkeeps, hgrounded, hthis⟩ := h.keeps.addNewPlace name key hc
    obtain ⟨hmerged, htargets⟩ := addNewPlace_same state.trip name c.latitude c.longitude key
    generalize state.trip.addNewPlace name c.latitude c.longitude key = added at *
    have hcanon : added.2.canon = state.trip.canon := by
      funext place
      rw [Trip.canon, hmerged]
      rfl
    refine ⟨⟨hkeeps, hmerged.trans h.merged, ?_, ?_⟩, htargets, ?_⟩
    · exact fun place hplace => hgrounded place (h.grounded place hplace)
    · intro key' place hplace
      change added.2.Grounded (added.2.canon place)
      rw [hcanon]
      change (state.newIds.set key added.1).get? key' = some place at hplace
      rw [Dict.get?_set] at hplace
      split at hplace
      · cases hplace
        exact hthis
      · exact hgrounded _ (h.newIds key' place hplace)
    · change added.2.Grounded (added.2.canon added.1)
      rw [hcanon]
      exact hthis

/-- **A proposal that fits is put into the trip**, or the photo has a folder by then: no other
exception than those of a photo that is not there or a proposal that decides nothing. -/
theorem applyProposal_cases {returned : List Candidate} {proposal : Proposal}
    (htrip : TripKeeps N period (world.Checked keys returned) before trip)
    (h : AppliedKeeps N period (world.Checked keys returned) before trip state)
    (hfits : proposal.Fits world keys trip returned) (hhigh : proposal.confidence = .high) :
    (∃ state', applyProposal N py state proposal = .ok state' ∧
      AppliedKeeps N period (world.Checked keys returned) before trip state') ∨
    applyProposal N py state proposal = .error .other ∧
      (state.trip.byRef (.text proposal.photoId) = none ∨ proposal.decision = none) := by
  unfold applyProposal
  split
  · rename_i hphoto
    exact .inr ⟨rfl, .inl hphoto⟩
  · rename_i photo hphoto
    obtain ⟨hview, href⟩ := byRef_mem hphoto
    split
    · exact .inl ⟨state, rfl, h⟩
    · rename_i hno
      obtain ⟨t, ht, htref⟩ := hfits.target
      obtain ⟨round, conversation, hchecked⟩ := hfits.checked
      rw [htref, PyStr.text.injEq] at href
      have htarget : photo ∈ state.trip.targets :=
        target_stays htrip h.keeps ht hview (photoRef_injective href) (by simpa using hno)
      split
      · rename_i place hdecision
        obtain ⟨folder, heq, hused⟩ := hchecked.existing _ hdecision hhigh
        cases heq
        refine .inl (h.assign htarget ?_)
        have hcanon : state.trip.canon place = place := by
          rw [Trip.canon, h.merged]
          exact htrip.canon_of_used hused
        rw [hcanon]
        exact h.grounded place (htrip.grounded_of_used hused)
      · rename_i c name hdecision
        obtain ⟨c', name', heq, hreturned, hregion⟩ := hchecked.new _ hdecision hhigh
        cases heq
        obtain ⟨hkeeps, htargets, hplace⟩ := h.folderFor py name
          (show world.Checked keys returned c from ⟨hreturned, round, conversation, hregion⟩)
        exact .inl (hkeeps.assign (htargets ▸ htarget) hplace)
      · rename_i hexisting hnew
        refine .inr ⟨rfl, .inr ?_⟩
        cases hdecision : proposal.decision with
        | none => rfl
        | some decision =>
            cases decision with
            | existing place =>
                obtain ⟨folder, rfl, -⟩ := hchecked.existing _ hdecision hhigh
                exact absurd hdecision (hexisting folder)
            | new named =>
                obtain ⟨c, name, rfl, -⟩ := hchecked.new _ hdecision hhigh
                exact absurd hdecision (hnew c name)

theorem applyProposal_keeps {returned : List Candidate} {proposal : Proposal}
    (htrip : TripKeeps N period (world.Checked keys returned) before trip)
    (h : AppliedKeeps N period (world.Checked keys returned) before trip state)
    (hfits : proposal.Fits world keys trip returned) (hhigh : proposal.confidence = .high) :
    Unfailing (applyProposal N py state proposal) ∧ ∀ state',
      applyProposal N py state proposal = .ok state' →
        AppliedKeeps N period (world.Checked keys returned) before trip state' := by
  rcases applyProposal_cases htrip h hfits hhigh with ⟨state', heq, hkeeps⟩ | ⟨heq, -⟩
  · rw [heq]
    refine ⟨unfailing_ok _, fun state'' hstate => ?_⟩
    cases hstate
    exact hkeeps
  · rw [heq]
    exact ⟨unfailing_other, nofun⟩

end Applying

/-! ### The nodes -/

/-- What holds of the state before a node: the proposals are those of the node before. -/
structure GraphKeeps (N : Numerics V) (world : AgentWorld V)
    (keys : List (String × String)) (period : Period) (before : List (PhotoState V))
    (node : Option Node) (s : GraphState V) : Prop where
  keeps : TripKeeps N period (world.Checked keys s.returned) before s.trip
  proposals : node = some .aggregate → ∀ p ∈ s.proposals, p.Fits world keys s.trip s.returned

theorem unfailing_pause {node : Node} : Unfailing (pause world s node) := by
  unfold pause
  split
  · exact unfailing_raised _
  · exact unfailing_ok _

theorem estimateTarget_fits {t : PhotoState V} {e : Estimate} (ht : t ∈ s.trip.targets)
    (h : estimateTarget N py prompts world keys s t = .ok e) :
    e.proposal.Fits world keys s.trip e.returned := by
  obtain ⟨⟨requests, outcome⟩, hestimate, houtcome⟩ := except_bind_eq_ok.mp h
  obtain ⟨href, hchecked⟩ := estimate_checked hestimate houtcome
  exact ⟨⟨t, ht, href⟩, s.round, t.id, hchecked⟩

theorem unfailing_estimateTarget {t : PhotoState V} :
    Unfailing (estimateTarget N py prompts world keys s t) :=
  unfailing_estimate.bind fun _ h => unfailing_estimate_outcome h

theorem Proposal.Fits.mono {proposal : Proposal} {returned returned' : List Candidate}
    (h : proposal.Fits world keys trip returned) (hmore : ∀ c ∈ returned, c ∈ returned') :
    proposal.Fits world keys trip returned' := by
  obtain ⟨round, photo, hchecked⟩ := h.checked
  refine ⟨h.target, round, photo, hchecked.existing, fun named hdecision hhigh => ?_⟩
  obtain ⟨c, name, heq, hreturned, hregion⟩ := hchecked.new named hdecision hhigh
  exact ⟨c, name, heq, hmore c hreturned, hregion⟩

theorem acceptedProposals_eq {accepted : List Proposal}
    (h : acceptedProposals py prompts world s = .ok accepted) :
    ∀ p ∈ accepted, p ∈ s.proposals ∧ p.confidence = .high := by
  unfold acceptedProposals at h
  split at h
  · obtain ⟨_, -, h⟩ := except_bind_eq_ok.mp h
    intro p hp
    obtain ⟨hmem, hhigh, -⟩ := aggregate_accepts h p hp
    exact ⟨hmem, hhigh⟩
  · cases h
    nofun

theorem unfailing_acceptedProposals : Unfailing (acceptedProposals py prompts world s) := by
  unfold acceptedProposals
  split
  · exact unfailing_pause.bind fun _ _ => unfailing_aggregate
  · exact unfailing_ok _

theorem mergeGroups_used {groups : List (List String)}
    (h : mergeGroups py prompts world s = .ok groups) :
    ∀ group ∈ groups, ∀ place ∈ group, s.trip.hasPlace place = true := by
  unfold mergeGroups at h
  split at h
  · obtain ⟨_, -, h⟩ := except_bind_eq_ok.mp h
    exact merge_used h
  · cases h
    nofun

theorem unfailing_mergeGroups : Unfailing (mergeGroups py prompts world s) := by
  unfold mergeGroups
  split
  · exact unfailing_pause.bind fun _ _ => unfailing_merge
  · exact unfailing_ok _

theorem appliedKeeps_start (h : TripKeeps N period checked before s.trip) :
    AppliedKeeps N period checked before s.trip { trip := s.trip } := by
  refine ⟨h, rfl, fun _ hplace => hplace, fun key place hplace => ?_⟩
  rw [Dict.get?_empty] at hplace
  cases hplace

/-- **What a node keeps**, whatever the model says in it. -/
theorem nodeStep_keeps {node : Node} {next : Option Node}
    (h : GraphKeeps N world keys period before (some node) s)
    (hstep : nodeStep N py prompts world keys s node = .ok (s', next)) :
    GraphKeeps N world keys period before next s' := by
  cases node with
  | select =>
      cases hstep
      exact ⟨h.keeps, fun _ => nofun⟩
  | estimate =>
      obtain ⟨_, -, hstep⟩ := except_bind_eq_ok.mp hstep
      obtain ⟨estimates, hestimates, hstep⟩ := except_bind_eq_ok.mp hstep
      cases hstep
      refine ⟨h.keeps.mono fun c hc => ⟨List.mem_append_left _ hc.1, hc.2⟩, fun _ p hp => ?_⟩
      obtain ⟨e, he, rfl⟩ := List.mem_map.mp hp
      obtain ⟨t, ht, hestimate⟩ := exists_left_of_forall₂ (mapM_eq_ok.mp hestimates) he
      refine (estimateTarget_fits ht hestimate).mono fun c hc => ?_
      exact List.mem_append_right _ (List.mem_flatMap.mpr ⟨e, he, hc⟩)
  | aggregate =>
      obtain ⟨accepted, haccepted, hstep⟩ := except_bind_eq_ok.mp hstep
      obtain ⟨applied, happlied, hstep⟩ := except_bind_eq_ok.mp hstep
      cases hstep
      have hend := foldlM_preserves
        (P := AppliedKeeps N period (world.Checked keys s.returned) before s.trip)
        (fun state hstate p hp state' hstate' => by
          obtain ⟨hmem, hhigh⟩ := acceptedProposals_eq haccepted p hp
          exact (applyProposal_keeps h.keeps hstate (h.proposals rfl p hmem) hhigh).2
            state' hstate')
        (appliedKeeps_start h.keeps) happlied
      refine ⟨hend.keeps, fun hnext => ?_⟩
      split at hnext
      · cases hnext
      · split at hnext <;> cases hnext
  | merge =>
      obtain ⟨groups, hgroups, hstep⟩ := except_bind_eq_ok.mp hstep
      cases hstep
      refine ⟨h.keeps.mergeGroups fun group hgroup place hplace => ?_, nofun⟩
      have hused := mergeGroups_used hgroups group hgroup place hplace
      rwa [h.keeps.canon_of_used hused]

theorem unfailing_nodeStep {node : Node}
    (h : GraphKeeps N world keys period before (some node) s) :
    Unfailing (nodeStep N py prompts world keys s node) := by
  cases node with
  | select => exact unfailing_ok _
  | estimate =>
      apply unfailing_pause.bind
      intro _ _
      exact (unfailing_mapM fun t _ => unfailing_estimateTarget).bind fun _ _ => unfailing_ok _
  | aggregate =>
      apply unfailing_acceptedProposals.bind
      intro accepted haccepted
      refine .bind ?_ fun _ _ => unfailing_ok _
      refine unfailing_foldlM
        (P := AppliedKeeps N period (world.Checked keys s.returned) before s.trip)
        (fun state hstate p hp => ?_) (appliedKeeps_start h.keeps)
      obtain ⟨hmem, hhigh⟩ := acceptedProposals_eq haccepted p hp
      exact applyProposal_keeps h.keeps hstate (h.proposals rfl p hmem) hhigh
  | merge => exact unfailing_mergeGroups.bind fun _ _ => unfailing_ok _

/-- **What a run of the graph keeps**, in any order of nodes its edges allow. -/
theorem graphRun_keeps {fuel : Nat} {node : Node}
    (h : GraphKeeps N world keys period before (some node) s) :
    Unfailing (graphRun N py prompts world keys fuel node s) ∧ ∀ s',
      graphRun N py prompts world keys fuel node s = .ok s' →
        TripKeeps N period (world.Checked keys s'.returned) before s'.trip := by
  induction fuel generalizing node s with
  | zero => exact ⟨unfailing_other, nofun⟩
  | succ fuel ih =>
      rw [graphRun]
      constructor
      · refine (unfailing_nodeStep h).bind fun outcome houtcome => ?_
        obtain ⟨s', next⟩ := outcome
        have hkeeps := nodeStep_keeps h houtcome
        cases next with
        | none => exact unfailing_ok _
        | some next => exact (ih hkeeps).1
      · intro s'' hrun
        obtain ⟨⟨s', next⟩, houtcome, hrun⟩ := except_bind_eq_ok.mp hrun
        have hkeeps := nodeStep_keeps h houtcome
        cases next with
        | none =>
            cases hrun
            exact hkeeps.keeps
        | some next => exact (ih hkeeps).2 s'' hrun

/-! ### The step -/

/-- What `run_agent` keeps of photos whose folders are as the rules leave them. -/
theorem runAgent_keeps (py : Python) (prompts : Prompts V) (world : AgentWorld V)
    (hasThreshold : Bool) {request : ProcessRequest} (hfolders : Folders N request.period before) :
    (∀ result, runAgent N py prompts world hasThreshold before request = .ok result →
      AgentKeeps N request.period (world.Checked (requestKeys world request) result.returned)
        before result.photos) ∧
    ∀ message, message.toList.head? = some '폴' →
      runAgent N py prompts world hasThreshold before request ≠ fail message := by
  have hstart : ∀ trip, Trip.make N before request = .ok trip → ∀ checked,
      TripKeeps N request.period checked before trip ∧ trip.photos = before ∧ trip.merged = ∅ :=
    fun trip htrip checked => tripKeeps_make hfolders htrip
  constructor
  · intro result h
    obtain ⟨_, -, h⟩ := except_bind_eq_ok.mp h
    obtain ⟨trip, htrip, h⟩ := except_bind_eq_ok.mp h
    split at h
    · cases h
      obtain ⟨hkeeps, hphotos, hmerged⟩ :=
        hstart trip htrip (world.Checked (requestKeys world request) [])
      have hsame := hkeeps.agentKeeps (f := id) (fun _ hplace => hplace) fun place place' heq => by
        rwa [Trip.canon_of_none (by rw [hmerged, Dict.get?_empty]),
          Trip.canon_of_none (by rw [hmerged, Dict.get?_empty])] at heq
      rwa [hkeeps.mapFolders_photos, List.map_congr_left fun p _ => Trip.renamed_id, List.map_id',
        hphotos] at hsame
    · obtain ⟨_, -, h⟩ := except_bind_eq_ok.mp h
      obtain ⟨s, hgraph, h⟩ := except_bind_eq_ok.mp h
      cases h
      have hkeeps : GraphKeeps N world (requestKeys world request) request.period before
          (some .select) { trip := trip } := ⟨(hstart trip htrip _).1, nofun⟩
      exact ((graphRun_keeps hkeeps).2 s hgraph).finish
  · intro message hhead h
    rcases except_bind_eq_error.mp h with h | ⟨_, -, h⟩
    · cases hasThreshold <;> cases h
      exact absurd hhead (by decide)
    refine Unfailing.bind ?_ (fun trip htrip => ?_) message h
    · refine .bind ?_ fun inside _ => ?_
      · intro message herror
        obtain ⟨p, -, herror⟩ := filterOk_error herror
        cases inPeriod_error herror
      · split
        · exact unfailing_other
        · exact unfailing_ok _
    · split
      · exact unfailing_ok _
      · have hkeeps : GraphKeeps N world (requestKeys world request) request.period before
            (some .select) { trip := trip } := ⟨(hstart trip htrip _).1, nofun⟩
        apply unfailing_pause.bind
        intro _ _
        exact (graphRun_keeps hkeeps).1.bind fun _ _ => unfailing_ok _

end Keeping

/-- **The agent cannot corrupt the trip** the rules left, whatever the model and the searches
say: `AgentKeeps` holds of the photos it returns, and `assign` does not raise that a folder has
no photo to take coordinates from. -/
theorem agent_keeps {N} {py} {prompts : Prompts V} {world : AgentWorld V} {hasThreshold : Bool}
    {request : ProcessRequest} {thresholds : RuleThresholds} {photos : List (PhotoState V)}
    {assigned : Assigned V} {offsets : List ClockOffset} (hsame : N.SameLabels)
    (hrequest : OfRequest request photos) (hnodup : (photos.map PhotoState.id).Nodup)
    (hrules : ruleSteps N request thresholds photos = .ok (assigned, offsets)) :
    (∀ result, runAgent N py prompts world hasThreshold assigned.photos request = .ok result →
      AgentKeeps N request.period (world.Checked (requestKeys world request) result.returned)
        assigned.photos result.photos) ∧
    ∀ place, runAgent N py prompts world hasThreshold assigned.photos request ≠
      fail ("폴더 " ++ place ++ "에 좌표를 줄 사진이 없음") := by
  obtain ⟨hkeeps, hraises⟩ :=
    runAgent_keeps py prompts world hasThreshold
      (ruleSteps_folders hsame hrequest hnodup hrules)
  refine ⟨hkeeps, fun place => hraises _ ?_⟩
  rw [String.append_assoc, String.toList_append]
  rfl

/-! ### A photo put into a folder -/

/-- No photo resembles another one. -/
def apartNumerics : Numerics Unit := { sampleNumerics with dot := fun _ _ => 0 }

def sampleThresholds : RuleThresholds := ⟨.int 0, .int 1, .int 60, .int 1, .int 1, .int 1, .int 30⟩

/-- The photo without GPS is left to the agent. -/
def sampleRuled : Assigned Unit × List ClockOffset :=
  (ruleSteps apartNumerics sampleRequest sampleThresholds samplePhotos).toOption.getD (⟨[], 0⟩, [])

theorem sampleRuled_eq : ruleSteps apartNumerics sampleRequest sampleThresholds samplePhotos =
    .ok (sampleRuled.1, sampleRuled.2) := by
  have hok : (ruleSteps apartNumerics sampleRequest sampleThresholds
      samplePhotos).toOption.isSome = true := by decide +kernel
  exact eq_ok_getD hok _

def decideText : PyStr :=
  .text "\x7b\"decision\": \"existing\", \"place_id\": \"p1\", \"confidence\": \"high\"\x7d"

def finalizeText : PyStr := .text "\x7b\"accept\": [\"S2\"]\x7d"

def agentPython : Python :=
  { samplePython with
    loads := fun raw =>
      if raw = decideText then
        .value (.record [("decision", .ofString "existing"), ("place_id", .ofString "p1"),
          ("confidence", .ofString "high")])
      else if raw = finalizeText then .value (.record [("accept", .arr [.ofString "S2"])])
      else .decodeError }

/-- A conversation in which the model calls one tool. -/
def calling (name : String) (arguments : PyStr) : World Unit :=
  { chat := fun _ =>
    .ok { content := .text "", toolCalls := [⟨.text "call-1", .text name, arguments⟩] }
    services := fun _ _ => sampleServices
    session := fun _ _ => {} }

def sampleAgentWorld : AgentWorld Unit :=
  { wait := fun _ _ => none
    regionOf := fun _ => some ("서울특별시", "중구")
    estimating := fun _ _ => calling "decide" decideText
    found := fun _ _ _ => none
    aggregating := fun _ => calling "finalize" finalizeText
    merging := fun _ => calling "merge" (.text "") }

theorem agent_keeps_sampleRuled :
    (∀ result, runAgent apartNumerics agentPython samplePrompts sampleAgentWorld true
        sampleRuled.1.photos sampleRequest = .ok result →
      AgentKeeps apartNumerics sampleRequest.period
        (sampleAgentWorld.Checked (requestKeys sampleAgentWorld sampleRequest)
          result.returned) sampleRuled.1.photos result.photos) ∧
    ∀ place, runAgent apartNumerics agentPython samplePrompts sampleAgentWorld true
      sampleRuled.1.photos sampleRequest ≠ fail ("폴더 " ++ place ++ "에 좌표를 줄 사진이 없음") :=
  agent_keeps (fun _ _ _ _ _ _ _ => rfl) (rfl : OfRequest sampleRequest samplePhotos) (by decide)
    sampleRuled_eq

/-- The photo is accepted into the folder the model names, at the point of its GPS photo. -/
example : (runAgent apartNumerics agentPython samplePrompts sampleAgentWorld true
    sampleRuled.1.photos sampleRequest).toOption.map (fun result =>
      result.photos.map fun p => (p.placeId, p.latitude, p.regionOrigin)) =
    some [(some "p1", some (.finite "37.5"), .exif),
      (some "p1", some (.finite "37.5"), .inferred)] := by
  decide +kernel

end Yeodam.Pipeline

