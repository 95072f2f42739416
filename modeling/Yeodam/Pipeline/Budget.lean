/-
The budget of the agent graph (`select`, `estimate`, `aggregate` and `merge` in
`app/pipeline/agent/graph.py`): a run visits nodes along the edges (`Walk`) and is over before
the recursion limit, whatever the model proposes, accepts or merges.

What a visit does to the counters and where it goes on is said once (`Goes`). The bounds count
down from it (`Node.left`), and the photos put into folders are read off the visits
(`Visit.placed`): each of them had no folder before (`Trip.Placing`), so that none comes twice.
-/

import Mathlib.Data.List.Count
import Yeodam.Pipeline.Merging

namespace Yeodam.Pipeline

open Yeodam.Lib Yeodam.Schemas

variable {V : Type} (N : Numerics V) (py : Python) (prompts : Prompts V) (world : AgentWorld V)
  (keys : List (String × String))

/-! ### Visits -/

/-- A visit of a node, at the state it starts from. -/
structure Visit (V : Type) where
  node : Node
  state : GraphState V

/-- The visits of one run along the edges, and what comes of it: it is over at `END`, or in a
node that raises. -/
inductive Walk : Node → GraphState V → List (Visit V) → Except Raised (GraphState V) → Prop where
  | ended {node : Node} {s s' : GraphState V} :
      nodeStep N py prompts world keys s node = .ok (s', none) → Walk node s [⟨node, s⟩] (.ok s')
  | raised {node : Node} {s : GraphState V} {e : Raised} :
      nodeStep N py prompts world keys s node = .error e → Walk node s [⟨node, s⟩] (.error e)
  | next {node next : Node} {s s' : GraphState V} {visits : List (Visit V)}
      {outcome : Except Raised (GraphState V)} :
      nodeStep N py prompts world keys s node = .ok (s', some next) →
      Walk next s' visits outcome → Walk node s (⟨node, s⟩ :: visits) outcome

/-- The photo a proposal puts into a folder: one that has a folder by then is passed over. -/
def placedBy (state : Applied V) (p : Proposal) : List Int :=
  ((state.trip.byRef (.text p.photoId)).filter fun photo => photo.placeId.isNone).toList.map
    PhotoState.id

/-- The photos `assign` puts into folders while the loop goes over proposals, in this order. -/
def placements (state : Applied V) : List Proposal → List Int
  | [] => []
  | p :: rest =>
      match applyProposal N py state p with
      | .ok state' => placedBy state p ++ placements state' rest
      | .error _ => []

/-- The photos a visit puts into folders. -/
def Visit.placed (v : Visit V) : List Int :=
  match v.node, acceptedProposals py prompts world v.state with
  | .aggregate, .ok accepted => placements N py { trip := v.state.trip } accepted
  | _, _ => []

/-- `estimate` in the rounds before `merge`. -/
def Visit.loopEstimate (v : Visit V) : Prop := v.node = .estimate ∧ v.state.final = false

/-- What the node waits for comes: no wait is interrupted and no conversation raises. -/
def Visit.Answered (v : Visit V) : Prop :=
  match v.node with
  | .select => True
  | .estimate => (∃ u, pause world v.state .estimate = .ok u) ∧
      ∀ t ∈ v.state.trip.targets, ∃ e, estimateTarget N py prompts world keys v.state t = .ok e
  | .aggregate => ∃ accepted, acceptedProposals py prompts world v.state = .ok accepted
  | .merge => ∃ groups, mergeGroups py prompts world v.state = .ok groups

section Edges

variable {N py prompts world keys} {s s' : GraphState V} {node : Node} {after : Option Node}

variable (N py prompts world) in
/-- **What a visit does**, and where it goes on. -/
inductive Goes (s : GraphState V) : Node → GraphState V → Option Node → Prop where
  | targets : s.trip.targets ≠ [] →
      Goes s .select { s with round := s.round + 1, proposals := [], changed := 0 } (some .estimate)
  | settled : s.trip.targets = [] → s.final = true →
      Goes s .select { s with round := s.round + 1, proposals := [], changed := 0 } none
  | exhausted : s.trip.targets = [] → s.final = false →
      Goes s .select { s with round := s.round + 1, proposals := [], changed := 0 } (some .merge)
  | estimated (proposals : List Proposal) (returned : List Candidate) :
      Goes s .estimate { s with proposals := proposals, returned := returned } (some .aggregate)
  | aggregated {accepted : List Proposal} {applied : Applied V} :
      acceptedProposals py prompts world s = .ok accepted →
      accepted.foldlM (applyProposal N py) { trip := s.trip } = .ok applied →
      Goes s .aggregate { s with trip := applied.trip, changed := applied.changed }
        (if s.final then none
          else if applied.changed ≠ 0 ∧ s.round < maxRounds then some .select else some .merge)
  | merged (groups : List (List String)) :
      Goes s .merge { s with trip := groups.foldl Trip.mergeGroup s.trip, final := true }
        (some .select)

theorem nodeStep_goes (h : nodeStep N py prompts world keys s node = .ok (s', after)) :
    Goes N py prompts world s node s' after := by
  cases node with
  | select =>
      cases h
      by_cases htargets : s.trip.targets = []
      · cases hfinal : s.final with
        | false => simpa [htargets, hfinal] using Goes.exhausted htargets hfinal
        | true => simpa [htargets, hfinal] using Goes.settled htargets hfinal
      · simpa [htargets] using Goes.targets htargets
  | estimate =>
      obtain ⟨_, -, h⟩ := except_bind_eq_ok.mp h
      obtain ⟨estimates, -, h⟩ := except_bind_eq_ok.mp h
      cases h
      exact .estimated _ _
  | aggregate =>
      obtain ⟨accepted, haccepted, h⟩ := except_bind_eq_ok.mp h
      obtain ⟨applied, happlied, h⟩ := except_bind_eq_ok.mp h
      cases h
      exact .aggregated haccepted happlied
  | merge =>
      obtain ⟨groups, -, h⟩ := except_bind_eq_ok.mp h
      cases h
      exact .merged groups

/-! ### Counting down -/

/-- The visits before `END` when the rounds are over: `merge` and one more round. -/
def lastVisits : Nat := 4

/-- The rounds that can still begin before `merge`. -/
def GraphState.roundsLeft (s : GraphState V) : Nat := if s.final then 0 else maxRounds - s.round

/-- The visits of `merge` still to come, behind `select`, `estimate` or `aggregate`. -/
def GraphState.mergesLeft (s : GraphState V) : Nat := if s.final then 0 else 1

/-- The nodes a run visits at most from a node on. -/
def Node.left (s : GraphState V) : Node → Nat
  | .select => 3 * s.roundsLeft + if s.final then 3 else lastVisits
  | .estimate => 2 + 3 * s.roundsLeft + if s.final then 0 else lastVisits
  | .aggregate => 1 + 3 * s.roundsLeft + if s.final then 0 else lastVisits
  | .merge => lastVisits

/-- Those of them that are `estimate`. -/
def Node.estimatesLeft (s : GraphState V) : Node → Nat
  | .select => s.roundsLeft + 1
  | .estimate => 1 + s.roundsLeft + s.mergesLeft
  | .aggregate => s.roundsLeft + s.mergesLeft
  | .merge => 1

/-- A round begins only below the limit, and folders are merged once. -/
def OnTrack (s : GraphState V) : Node → Prop
  | .select => s.final = false → s.round < maxRounds
  | .merge => s.final = false
  | _ => True

theorem onTrack_start (trip : Trip V) : OnTrack ({ trip := trip } : GraphState V) .select :=
  fun _ => Nat.zero_lt_succ _

/-- **A visit counts down.** -/
theorem Goes.counts {next : Node} (h : Goes N py prompts world s node s' (some next))
    (htrack : OnTrack s node) :
    OnTrack s' next ∧ next.left s' < node.left s ∧
      next.estimatesLeft s' + (if node = .estimate then 1 else 0) ≤ node.estimatesLeft s ∧
      s'.mergesLeft + (if node = .merge then 1 else 0) = s.mergesLeft := by
  have hmax : maxRounds = 5 := rfl
  have hlast : lastVisits = 4 := rfl
  generalize hafter : some next = after at h
  cases h with
  | targets =>
      cases hafter
      refine ⟨trivial, ?_, ?_, rfl⟩
      · cases hfinal : s.final <;>
          simp [Node.left, GraphState.roundsLeft, hfinal] at htrack ⊢
        have := htrack hfinal
        omega
      · cases hfinal : s.final <;>
          simp [Node.estimatesLeft, GraphState.roundsLeft, GraphState.mergesLeft, hfinal]
        have := htrack hfinal
        omega
  | settled => cases hafter
  | exhausted _ hfinal =>
      cases hafter
      refine ⟨hfinal, ?_, ?_, rfl⟩
      · have := htrack hfinal
        simp [Node.left, GraphState.roundsLeft, hfinal, this]
      · simp [Node.estimatesLeft]
  | estimated =>
      cases hafter
      refine ⟨trivial, ?_, ?_, rfl⟩
      · simp [Node.left, GraphState.roundsLeft]
      · simp [Node.estimatesLeft, GraphState.roundsLeft, GraphState.mergesLeft]
  | aggregated =>
      cases hfinal : s.final with
      | true => simp [hfinal] at hafter
      | false =>
          rw [hfinal] at hafter
          split at hafter
          · contradiction
          · split at hafter
            · rename_i hagain
              cases hafter
              refine ⟨fun _ => hagain.2, ?_, ?_, ?_⟩
              · simp [Node.left, GraphState.roundsLeft, hfinal]
              · simp [Node.estimatesLeft, GraphState.roundsLeft, GraphState.mergesLeft, hfinal]
              · simp [GraphState.mergesLeft, hfinal]
            · cases hafter
              refine ⟨rfl, ?_, ?_, ?_⟩
              · simp [Node.left, GraphState.roundsLeft, hfinal]
              · simp [Node.estimatesLeft, GraphState.roundsLeft, GraphState.mergesLeft, hfinal]
              · simp [GraphState.mergesLeft, hfinal]
  | merged =>
      cases hafter
      have hfinal : s.final = false := htrack
      refine ⟨nofun, ?_, ?_, ?_⟩
      · simp [Node.left, GraphState.roundsLeft, hlast]
      · simp [Node.estimatesLeft, GraphState.roundsLeft]
      · simp [GraphState.mergesLeft, hfinal]

/-- A run comes to `END` in the rounds after `merge` only. -/
theorem Goes.ended (h : Goes N py prompts world s node s' none) :
    s.final = true ∧ node ≠ .merge := by
  generalize hafter : none = after at h
  cases h with
  | targets => cases hafter
  | settled _ hfinal => exact ⟨hfinal, nofun⟩
  | exhausted => cases hafter
  | estimated => cases hafter
  | aggregated =>
      refine ⟨?_, nofun⟩
      split at hafter
      · assumption
      · split at hafter <;> cases hafter
  | merged => cases hafter

theorem Goes.final (h : Goes N py prompts world s node s' after) (hfinal : s.final = true) :
    s'.final = true := by
  cases h
  all_goals first | exact hfinal | rfl

/-! ### Photos put into folders -/

namespace Trip

variable {trip trip' trip'' : Trip V} {i : Int} {ids ids' : List Int} {photo : PhotoState V}

/-- The photo has no folder yet. -/
def Unplaced (trip : Trip V) (i : Int) : Prop := ∃ p ∈ trip.view, p.id = i ∧ p.placeId = none

/-- From one trip to a later one these photos were put into folders: each once, and all others
without a folder are as they were. -/
structure Placing (trip : Trip V) (ids : List Int) (trip' : Trip V) : Prop where
  nodup : ids.Nodup
  unplaced : ∀ i ∈ ids, trip.Unplaced i
  placed : ∀ i ∈ ids, ¬ trip'.Unplaced i
  rest : ∀ p ∈ trip'.view, p.placeId = none → p ∈ trip.view

theorem Placing.of_view (h : trip'.view = trip.view) : Placing trip [] trip' :=
  ⟨.nil, nofun, nofun, fun _ hp _ => h ▸ hp⟩

theorem Placing.unplaced_of (h : Placing trip ids trip') (hi : trip'.Unplaced i) :
    trip.Unplaced i := by
  obtain ⟨p, hp, hid, hplace⟩ := hi
  exact ⟨p, h.rest p hp hplace, hid, hplace⟩

/-- A photo of the second stretch had no folder after the first, so it is not of the first. -/
theorem Placing.append (h : Placing trip ids trip') (h' : Placing trip' ids' trip'') :
    Placing trip (ids ++ ids') trip'' := by
  refine ⟨?_, ?_, ?_, ?_⟩
  · refine List.nodup_append'.mpr ⟨h.nodup, h'.nodup, fun i hi hi' => ?_⟩
    exact h.placed i hi (h'.unplaced i hi')
  · intro i hi
    rcases List.mem_append.mp hi with hi | hi
    · exact h.unplaced i hi
    · exact h.unplaced_of (h'.unplaced i hi)
  · intro i hi hunplaced
    rcases List.mem_append.mp hi with hi | hi
    · exact h.placed i hi (h'.unplaced_of hunplaced)
    · exact h'.placed i hi hunplaced
  · intro p hp hplace
    exact h.rest p (h'.rest p hp hplace) hplace

/-- What is a target later was one before. -/
theorem Placing.targets (h : Placing trip ids trip') : ∀ p ∈ trip'.targets, p ∈ trip.targets := by
  intro p hp
  obtain ⟨hview, hplace, hissue, hgps⟩ := Trip.mem_targets.mp hp
  exact Trip.mem_targets.mpr ⟨h.rest p hview hplace, hplace, hissue, hgps⟩

theorem placing_put {place : String} {point : Option PyFloat × Option PyFloat}
    (hview : photo ∈ trip.view) (hplace : photo.placeId = none) :
    Placing trip [photo.id] (trip.put photo place point) := by
  -- A photo of the later trip is one of the earlier, or it was put into the folder.
  have hphoto : ∀ q ∈ (trip.put photo place point).view,
      (q.id ≠ photo.id ∧ q ∈ trip.view) ∨ (q.id = photo.id ∧ q.placeId = some place) := by
    intro q hq
    obtain ⟨hmem, hmember⟩ := Trip.mem_view.mp hq
    obtain ⟨p, hp, rfl⟩ := mem_updatePhoto.mp hmem
    by_cases hid : p.id = photo.id
    · rw [if_pos hid]
      exact .inr ⟨hid, rfl⟩
    · rw [if_neg hid] at hmember ⊢
      exact .inl ⟨hid, Trip.mem_view.mpr ⟨hp, hmember⟩⟩
  refine ⟨List.nodup_singleton _, ?_, ?_, ?_⟩
  · intro i hi
    exact ⟨photo, hview, (List.mem_singleton.mp hi).symm, hplace⟩
  · rintro i hi ⟨q, hq, hid, hnone⟩
    rw [List.mem_singleton.mp hi] at hid
    rcases hphoto q hq with ⟨hne, -⟩ | ⟨-, hsome⟩
    · exact hne hid
    · rw [hnone] at hsome
      cases hsome
  · intro q hq hnone
    rcases hphoto q hq with ⟨-, hmem⟩ | ⟨-, hsome⟩
    · exact hmem
    · rw [hnone] at hsome
      cases hsome

theorem view_mergeGroup {group : List String} : (trip.mergeGroup group).view = trip.view := by
  unfold mergeGroup
  split
  · rfl
  · rename_i first others _
    refine List.foldlRecOn (motive := fun merged : Trip V => merged.view = trip.view)
      others _ rfl ?_
    intro merged hmerged other _
    split
    · exact hmerged
    · exact hmerged

theorem view_mergeGroups (groups : List (List String)) :
    (groups.foldl mergeGroup trip).view = trip.view := by
  induction groups generalizing trip with
  | nil => rfl
  | cons group groups ih => exact ih.trans view_mergeGroup

end Trip

section Placing

variable {state state' : Applied V} {p : Proposal} {photo : PhotoState V} {place : String}

theorem Applied.assign_placing (hview : photo ∈ state.trip.view) (hplace : photo.placeId = none)
    (h : state.assign N photo place = .ok state') :
    Trip.Placing state.trip [photo.id] state'.trip ∧ state'.changed = state.changed + 1 := by
  obtain ⟨trip, hassign, h⟩ := except_bind_eq_ok.mp h
  obtain ⟨point, -, hassign⟩ := except_bind_eq_ok.mp hassign
  cases hassign
  cases h
  exact ⟨Trip.placing_put hview hplace, rfl⟩

/-- One proposal puts the photo it is about into a folder, or none. -/
theorem applyProposal_placing (h : applyProposal N py state p = .ok state') :
    Trip.Placing state.trip (placedBy state p) state'.trip ∧
      state'.changed = state.changed + (placedBy state p).length := by
  unfold applyProposal at h
  split at h
  · cases h
  · rename_i photo hphoto
    split at h
    · rename_i hsome
      cases h
      have hnone : placedBy state p = [] := by
        simp [placedBy, hphoto, Option.isSome_iff_ne_none.mp hsome]
      rw [hnone]
      exact ⟨.of_view rfl, rfl⟩
    · rename_i hno
      have hview := (byRef_mem hphoto).1
      have hplace : photo.placeId = none := by simpa using hno
      have hone : placedBy state p = [photo.id] := by simp [placedBy, hphoto, hplace]
      rw [hone]
      split at h
      · exact Applied.assign_placing hview hplace h
      · rename_i c name _
        have hfolder : (state.folderFor py c name).2.trip.view = state.trip.view ∧
            (state.folderFor py c name).2.changed = state.changed := by
          unfold Applied.folderFor
          dsimp only
          split
          · exact ⟨rfl, rfl⟩
          · exact ⟨addNewPlace_view .., rfl⟩
        obtain ⟨hplacing, hchanged⟩ := Applied.assign_placing (hfolder.1 ▸ hview) hplace h
        exact ⟨(Trip.Placing.of_view hfolder.1).append hplacing,
          hchanged.trans (congrArg (· + 1) hfolder.2)⟩
      · cases h

variable (N py) in
/-- **The proposals of a round** put each photo into a folder once, and `changed` counts them. -/
theorem placements_placing (proposals : List Proposal) (state : Applied V) :
    ∃ trip, Trip.Placing state.trip (placements N py state proposals) trip ∧
      ∀ state', proposals.foldlM (applyProposal N py) state = .ok state' →
        state'.trip = trip ∧
          state'.changed = state.changed + (placements N py state proposals).length := by
  induction proposals generalizing state with
  | nil =>
      refine ⟨state.trip, .of_view rfl, fun state' h => ?_⟩
      cases h
      exact ⟨rfl, rfl⟩
  | cons p rest ih =>
      rw [placements]
      split
      · rename_i next hnext
        obtain ⟨hplacing, hchanged⟩ := applyProposal_placing hnext
        obtain ⟨trip, hrest, hend⟩ := ih next
        refine ⟨trip, hplacing.append hrest, fun state' h => ?_⟩
        rw [List.foldlM_cons, hnext, except_ok_bind] at h
        obtain ⟨htrip, hcount⟩ := hend state' h
        refine ⟨htrip, ?_⟩
        rw [hcount, hchanged, List.length_append]
        omega
      · rename_i e herror
        refine ⟨state.trip, .of_view rfl, fun state' h => ?_⟩
        rw [List.foldlM_cons, herror] at h
        cases h

end Placing

/-- From one visit to the next, the photos the visit puts into folders are what changes. -/
theorem Goes.placing (h : Goes N py prompts world s node s' after) :
    Trip.Placing s.trip (Visit.placed N py prompts world ⟨node, s⟩) s'.trip := by
  cases h with
  | targets => exact .of_view rfl
  | settled => exact .of_view rfl
  | exhausted => exact .of_view rfl
  | estimated => exact .of_view rfl
  | aggregated haccepted happlied =>
      obtain ⟨trip, hplacing, hend⟩ := placements_placing N py _ { trip := s.trip }
      obtain ⟨htrip, -⟩ := hend _ happlied
      rw [Visit.placed, haccepted]
      exact htrip ▸ hplacing
  | merged groups => exact .of_view (Trip.view_mergeGroups groups)

variable (N py prompts world) in
/-- A visit that raises may have put photos into folders before. -/
theorem placed_placing (v : Visit V) :
    ∃ trip, Trip.Placing v.state.trip (v.placed N py prompts world) trip := by
  unfold Visit.placed
  split
  · obtain ⟨trip, hplacing, -⟩ := placements_placing N py _ { trip := v.state.trip }
    exact ⟨trip, hplacing⟩
  · exact ⟨v.state.trip, .of_view rfl⟩

end Edges

/-! ### Walks -/

section Walks

variable {N py prompts world keys} {s s' : GraphState V} {node : Node} {visits : List (Visit V)}
  {outcome : Except Raised (GraphState V)}

theorem Node.left_pos (node : Node) (s : GraphState V) : 1 ≤ node.left s := by
  cases node with
  | select =>
      cases hfinal : s.final <;> simp [Node.left, lastVisits, hfinal]
  | estimate =>
      simp only [Node.left]
      omega
  | aggregate =>
      simp only [Node.left]
      omega
  | merge =>
      change 1 ≤ lastVisits
      decide

/-- **With steps enough left the limit is not met**: the run is a walk to its end. -/
theorem graphRun_walk {limit : Nat} (htrack : OnTrack s node) (hlimit : node.left s ≤ limit) :
    ∃ visits, Walk N py prompts world keys node s visits
      (graphRun N py prompts world keys limit node s) := by
  induction limit generalizing node s with
  | zero =>
      have := node.left_pos s
      omega
  | succ limit ih =>
      rw [graphRun]
      cases hstep : nodeStep N py prompts world keys s node with
      | error e => exact ⟨_, .raised hstep⟩
      | ok step =>
          obtain ⟨s', after⟩ := step
          cases after with
          | none => exact ⟨_, .ended hstep⟩
          | some next =>
              obtain ⟨htrack', hleft, -⟩ := (nodeStep_goes hstep).counts htrack
              obtain ⟨visits, hwalk⟩ := ih htrack' (by omega)
              exact ⟨_, .next hstep hwalk⟩

theorem Walk.length_le (h : Walk N py prompts world keys node s visits outcome)
    (htrack : OnTrack s node) : visits.length ≤ node.left s := by
  induction h with
  | ended => exact Node.left_pos _ _
  | raised => exact Node.left_pos _ _
  | next hstep _ ih =>
      obtain ⟨htrack', hleft, -⟩ := (nodeStep_goes hstep).counts htrack
      have := ih htrack'
      rw [List.length_cons]
      omega

theorem count_singleton (node other : Node) (s : GraphState V) :
    ([⟨node, s⟩] : List (Visit V)).countP (fun v => v.node = other) =
      if node = other then 1 else 0 := by
  rw [List.countP_singleton]
  simp

theorem count_cons (node other : Node) (s : GraphState V) (visits : List (Visit V)) :
    ((⟨node, s⟩ : Visit V) :: visits).countP (fun v => v.node = other) =
      visits.countP (fun v => v.node = other) + if node = other then 1 else 0 := by
  rw [List.countP_cons]
  simp

theorem Walk.estimates_le (h : Walk N py prompts world keys node s visits outcome)
    (htrack : OnTrack s node) :
    visits.countP (fun v => v.node = .estimate) ≤ node.estimatesLeft s := by
  have hone : ∀ (node : Node) (s : GraphState V),
      (if node = .estimate then 1 else 0) ≤ node.estimatesLeft s := by
    intro node s
    cases node <;> simp [Node.estimatesLeft]
    omega
  induction h with
  | ended => exact (count_singleton ..).trans_le (hone _ _)
  | raised => exact (count_singleton ..).trans_le (hone _ _)
  | next hstep _ ih =>
      obtain ⟨htrack', -, hestimates, -⟩ := (nodeStep_goes hstep).counts htrack
      have := ih htrack'
      rw [count_cons]
      omega

/-- A run that comes to `END` has merged folders once, one that raises at most once. -/
theorem Walk.merges (h : Walk N py prompts world keys node s visits outcome)
    (htrack : OnTrack s node) :
    visits.countP (fun v => v.node = .merge) ≤ s.mergesLeft ∧
      ∀ s', outcome = .ok s' → visits.countP (fun v => v.node = .merge) = s.mergesLeft := by
  induction h with
  | @ended node s _ hstep =>
      obtain ⟨hfinal, hnode⟩ := (nodeStep_goes hstep).ended
      rw [count_singleton, if_neg hnode, GraphState.mergesLeft, if_pos hfinal]
      exact ⟨le_rfl, fun _ _ => rfl⟩
  | @raised node s =>
      refine ⟨?_, nofun⟩
      rw [count_singleton]
      split
      · rename_i hnode
        subst hnode
        have hfinal : s.final = false := htrack
        simp [GraphState.mergesLeft, hfinal]
      · exact Nat.zero_le _
  | next hstep _ ih =>
      obtain ⟨htrack', -, -, hmerges⟩ := (nodeStep_goes hstep).counts htrack
      obtain ⟨hle, heq⟩ := ih htrack'
      rw [count_cons]
      refine ⟨by omega, fun s' hs' => ?_⟩
      have := heq s' hs'
      omega

/-- **No photo is put into a folder twice**, in whatever order the visits come. -/
theorem Walk.placing (h : Walk N py prompts world keys node s visits outcome) :
    ∃ trip, Trip.Placing s.trip (visits.flatMap (Visit.placed N py prompts world)) trip ∧
      ∀ s', outcome = .ok s' → s'.trip = trip := by
  induction h with
  | ended hstep =>
      rw [List.flatMap_singleton]
      refine ⟨_, (nodeStep_goes hstep).placing, fun s' hs' => ?_⟩
      cases hs'
      rfl
  | @raised node s =>
      rw [List.flatMap_singleton]
      obtain ⟨trip, hplacing⟩ := placed_placing N py prompts world ⟨node, s⟩
      exact ⟨trip, hplacing, nofun⟩
  | next hstep _ ih =>
      rw [List.flatMap_cons]
      obtain ⟨trip, hplacing, hend⟩ := ih
      exact ⟨trip, (nodeStep_goes hstep).placing.append hplacing, hend⟩

/-- The targets of every later state were targets before. -/
theorem Walk.targets (h : Walk N py prompts world keys node s visits outcome) :
    (∀ v ∈ visits, ∀ p ∈ v.state.trip.targets, p ∈ s.trip.targets) ∧
      ∀ s', outcome = .ok s' → ∀ p ∈ s'.trip.targets, p ∈ s.trip.targets := by
  induction h with
  | ended hstep =>
      refine ⟨fun v hv => ?_, fun s' hs' => ?_⟩
      · obtain rfl := List.mem_singleton.mp hv
        exact fun p hp => hp
      · cases hs'
        exact (nodeStep_goes hstep).placing.targets
  | raised =>
      refine ⟨fun v hv => ?_, nofun⟩
      obtain rfl := List.mem_singleton.mp hv
      exact fun p hp => hp
  | next hstep _ ih =>
      have hfirst := (nodeStep_goes hstep).placing.targets
      refine ⟨fun v hv => ?_, fun s' hs' p hp => hfirst p (ih.2 s' hs' p hp)⟩
      rcases List.mem_cons.mp hv with rfl | hv
      · exact fun p hp => hp
      · exact fun p hp => hfirst p (ih.1 v hv p hp)

/-- After `merge` no round of the loop begins. -/
theorem Walk.final (h : Walk N py prompts world keys node s visits outcome)
    (hfinal : s.final = true) : ∀ v ∈ visits, v.state.final = true := by
  induction h with
  | ended =>
      intro v hv
      rwa [List.mem_singleton.mp hv]
  | raised =>
      intro v hv
      rwa [List.mem_singleton.mp hv]
  | next hstep _ ih =>
      intro v hv
      rcases List.mem_cons.mp hv with rfl | hv
      · exact hfinal
      · exact ih ((nodeStep_goes hstep).final hfinal) v hv

/-- After an `aggregate` that puts no photo into a folder no round of the loop begins. -/
theorem Walk.placed_of_loopEstimate
    (h : Walk N py prompts world keys .aggregate s visits outcome) {w : Visit V} (hmem : w ∈ visits)
    (hw : w.loopEstimate) :
    ∃ u rest, visits = u :: rest ∧ u.node = .aggregate ∧ u.placed N py prompts world ≠ [] := by
  have hfirst : ∀ {node : Node} {s : GraphState V}, node ≠ .estimate → w ≠ ⟨node, s⟩ := by
    rintro node s hne rfl
    exact hne hw.1
  cases h with
  | ended => exact absurd (List.mem_singleton.mp hmem) (hfirst nofun)
  | raised => exact absurd (List.mem_singleton.mp hmem) (hfirst nofun)
  | @next _ next _ s' visits _ hstep hwalk =>
      refine ⟨_, _, rfl, rfl, fun hplaced => ?_⟩
      have hrest : w ∈ visits := (List.mem_cons.mp hmem).resolve_left (hfirst nofun)
      have hloop : ∀ {node : Node} {s : GraphState V} {visits : List (Visit V)},
          Walk N py prompts world keys node s visits outcome → w ∈ visits → s.final = false := by
        intro node s visits hwalk hmem
        by_contra hfinal
        have hfinal' := hwalk.final (by simpa using hfinal) w hmem
        rw [hw.2] at hfinal'
        cases hfinal'
      -- Nothing was placed, so the next node is `merge`, and the stage is final behind it.
      have hmerge : next = .merge := by
        generalize hafter : some next = after at hstep
        cases nodeStep_goes hstep with
        | @aggregated accepted applied haccepted happlied =>
            obtain ⟨trip, -, hend⟩ := placements_placing N py accepted { trip := s.trip }
            have hnone : placements N py { trip := s.trip } accepted = [] := by
              rw [Visit.placed, haccepted] at hplaced
              exact hplaced
            have hchanged : applied.changed = 0 := by
              rw [(hend applied happlied).2, hnone]
              rfl
            split at hafter
            · cases hafter
            · rw [if_neg fun hagain => hagain.1 hchanged] at hafter
              exact Option.some.inj hafter
      subst hmerge
      cases hwalk with
      | ended => exact absurd (List.mem_singleton.mp hrest) (hfirst nofun)
      | raised => exact absurd (List.mem_singleton.mp hrest) (hfirst nofun)
      | next hstep' hwalk' =>
          have hlast := (List.mem_cons.mp hrest).resolve_left (hfirst nofun)
          have hloop' := hloop hwalk' hlast
          generalize hafter : some _ = after at hstep'
          cases nodeStep_goes hstep' with
          | merged => cases hloop'

/-- **A round that puts no photo into a folder is the last** before `merge`. -/
theorem Walk.productive (h : Walk N py prompts world keys node s visits outcome)
    {earlier later : List (Visit V)} {v w : Visit V} (hvisits : visits = earlier ++ v :: later)
    (hv : v.loopEstimate) (hmem : w ∈ later) (hw : w.loopEstimate) :
    ∃ u rest, later = u :: rest ∧ u.node = .aggregate ∧ u.placed N py prompts world ≠ [] := by
  have hsingle : ∀ (x : Visit V) (earlier : List (Visit V)), [x] ≠ earlier ++ v :: later := by
    intro x earlier hx
    have hlength : 1 = (earlier ++ v :: later).length := congrArg List.length hx
    have hlater := List.length_pos_of_mem hmem
    rw [List.length_append, List.length_cons] at hlength
    omega
  induction h generalizing earlier with
  | ended => exact absurd hvisits (hsingle _ _)
  | raised => exact absurd hvisits (hsingle _ _)
  | next hstep hwalk ih =>
      cases earlier with
      | cons x earlier => exact ih (List.cons.inj hvisits).2
      | nil =>
          obtain ⟨rfl, rfl⟩ := List.cons.inj hvisits
          obtain ⟨rfl, -⟩ : _ = Node.estimate ∧ _ := hv
          generalize hafter : some _ = after at hstep
          cases nodeStep_goes hstep with
          | estimated =>
              cases hafter
              exact hwalk.placed_of_loopEstimate hmem hw

end Walks

/-! ### Runs that come to the end -/

section Completes

variable {N py prompts world keys} {s s' : GraphState V} {node : Node} {visits : List (Visit V)}
  {outcome : Except Raised (GraphState V)} {period : Period} {before : List (PhotoState V)}

/-- A target of the trip is found by its name while proposals are put into folders. -/
theorem byRef_of_target {checked : Candidate → Prop} {trip trip' : Trip V} {t : PhotoState V}
    (h : TripKeeps N period checked before trip) (h' : TripKeeps N period checked before trip')
    (ht : t ∈ trip.targets) : trip'.byRef (.text (photoRef t)) ≠ none := by
  obtain ⟨hmem, hmember⟩ := Trip.mem_view.mp (Trip.mem_targets.mp ht).1
  obtain ⟨b, hb, hbid⟩ : ∃ b ∈ before, b.id = t.id :=
    List.mem_map.mp (h.ids ▸ List.mem_map_of_mem hmem)
  obtain ⟨q, hq, hqid⟩ : ∃ q ∈ trip'.photos, q.id = b.id :=
    List.mem_map.mp (h'.ids ▸ List.mem_map_of_mem hb)
  have hview : q ∈ trip'.view := by
    refine Trip.mem_view.mpr ⟨hq, ?_⟩
    rw [hqid]
    exact (h'.members b hb).mpr ((h.members b hb).mp (hbid ▸ hmember))
  have href : photoRef q = photoRef t := by rw [photoRef, photoRef, hqid, hbid]
  rw [Trip.byRef, Ne, List.find?_eq_none]
  intro hnone
  exact hnone q (List.mem_reverse.mpr hview) (by simp [href])

theorem acceptedProposals_decided {accepted : List Proposal}
    (h : acceptedProposals py prompts world s = .ok accepted) :
    ∀ p ∈ accepted, p.decision ≠ none := by
  unfold acceptedProposals at h
  split at h
  · obtain ⟨_, -, h⟩ := except_bind_eq_ok.mp h
    intro p hp
    exact (aggregate_accepts h p hp).2.2
  · cases h
    nofun

/-- **A visit does not raise** but for what it waits for. -/
theorem nodeStep_succeeds (h : GraphKeeps N world keys period before (some node) s)
    (hanswered : Visit.Answered N py prompts world keys ⟨node, s⟩) :
    ∃ step, nodeStep N py prompts world keys s node = .ok step := by
  cases node with
  | select => exact ⟨_, rfl⟩
  | estimate =>
      obtain ⟨⟨u, hpause⟩, hestimates⟩ := hanswered
      obtain ⟨estimates, hestimates⟩ := mapM_succeeds hestimates
      exact bind_succeeds hpause (bind_succeeds hestimates ⟨_, rfl⟩)
  | aggregate =>
      obtain ⟨accepted, haccepted⟩ := hanswered
      have happlied : ∃ applied,
          accepted.foldlM (applyProposal N py) { trip := s.trip } = .ok applied ∧
          AppliedKeeps N period (world.Checked keys s.returned) before s.trip applied := by
        refine foldlM_succeeds (fun state hstate p hp => ?_) (appliedKeeps_start h.keeps)
        obtain ⟨hmem, hhigh⟩ := acceptedProposals_eq haccepted p hp
        have hfits := h.proposals rfl p hmem
        obtain ⟨t, ht, href⟩ := hfits.target
        rcases applyProposal_cases h.keeps hstate hfits hhigh with hok | ⟨-, hnone | hnone⟩
        · exact hok
        · exact absurd (href ▸ hnone) (byRef_of_target h.keeps hstate.keeps ht)
        · exact absurd hnone (acceptedProposals_decided haccepted p hp)
      obtain ⟨applied, happlied, -⟩ := happlied
      exact bind_succeeds haccepted (bind_succeeds happlied ⟨_, rfl⟩)
  | merge =>
      obtain ⟨groups, hgroups⟩ := hanswered
      exact bind_succeeds hgroups ⟨_, rfl⟩

theorem Walk.completes (h : Walk N py prompts world keys node s visits outcome)
    (hkeeps : GraphKeeps N world keys period before (some node) s)
    (hanswered : ∀ v ∈ visits, v.Answered N py prompts world keys) : ∃ s', outcome = .ok s' := by
  induction h with
  | ended => exact ⟨_, rfl⟩
  | raised hstep =>
      obtain ⟨step, hok⟩ := nodeStep_succeeds hkeeps (hanswered _ List.mem_cons_self)
      rw [hstep] at hok
      cases hok
  | next hstep _ ih =>
      exact ih (nodeStep_keeps hkeeps hstep) fun v hv => hanswered v (List.mem_cons_of_mem _ hv)

/-- A visit that does not raise got what it waits for. -/
theorem answered_of_nodeStep {step : GraphState V × Option Node}
    (h : nodeStep N py prompts world keys s node = .ok step) :
    Visit.Answered N py prompts world keys ⟨node, s⟩ := by
  cases node with
  | select => trivial
  | estimate =>
      obtain ⟨u, hpause, h⟩ := except_bind_eq_ok.mp h
      obtain ⟨estimates, hestimates, -⟩ := except_bind_eq_ok.mp h
      refine ⟨⟨u, hpause⟩, fun t ht => ?_⟩
      obtain ⟨e, -, he⟩ := exists_right_of_forall₂ (mapM_eq_ok.mp hestimates) ht
      exact ⟨e, he⟩
  | aggregate =>
      obtain ⟨accepted, haccepted, -⟩ := except_bind_eq_ok.mp h
      exact ⟨accepted, haccepted⟩
  | merge =>
      obtain ⟨groups, hgroups, -⟩ := except_bind_eq_ok.mp h
      exact ⟨groups, hgroups⟩

theorem Walk.answered {outcome : Except Raised (GraphState V)}
    (h : Walk N py prompts world keys node s visits outcome)
    (hok : outcome.toOption.isSome = true) :
    ∀ v ∈ visits, v.Answered N py prompts world keys := by
  induction h with
  | ended hstep =>
      intro v hv
      obtain rfl := List.mem_singleton.mp hv
      exact answered_of_nodeStep hstep
  | raised => cases hok
  | next hstep _ ih =>
      intro v hv
      rcases List.mem_cons.mp hv with rfl | hv
      · exact answered_of_nodeStep hstep
      · exact ih hok v hv

end Completes

/-! ### The budget -/

/-- What holds of the visits of a run that starts from a trip, whatever the model says. -/
structure WithinBudget (trip : Trip V) (visits : List (Visit V))
    (outcome : Except Raised (GraphState V)) : Prop where
  /-- Far below the limit of 64 nodes. -/
  length : visits.length ≤ 3 * maxRounds + lastVisits
  estimates : visits.countP (fun v => v.node = .estimate) ≤ maxRounds + 1
  /-- Folders are merged once, and not more often where a node raises. -/
  merges : visits.countP (fun v => v.node = .merge) ≤ 1 ∧
    ∀ s, outcome = .ok s → visits.countP (fun v => v.node = .merge) = 1
  /-- Before a later round of the loop, the `aggregate` of a round puts a photo into a folder. -/
  productive : ∀ earlier v later w, visits = earlier ++ v :: later → v.loopEstimate → w ∈ later →
    w.loopEstimate →
    ∃ u rest, later = u :: rest ∧ u.node = .aggregate ∧ u.placed N py prompts world ≠ []
  /-- The targets never grow. -/
  targets : visits.Pairwise (fun v w => ∀ p ∈ w.state.trip.targets, p ∈ v.state.trip.targets) ∧
    ∀ s, outcome = .ok s → ∀ v ∈ visits, ∀ p ∈ s.trip.targets, p ∈ v.state.trip.targets
  /-- No photo is put into a folder twice, and none that has one. -/
  once : (visits.flatMap (Visit.placed N py prompts world)).Nodup ∧
    ∀ v ∈ visits, ∀ i ∈ v.placed N py prompts world, v.state.trip.Unplaced i
  /-- Behind the photos of the request, as the rules leave them, a run whose waits and
  conversations return comes to `END`. -/
  completes : ∀ request, Folders N request.period trip.photos →
    Trip.make N trip.photos request = .ok trip →
    (∀ v ∈ visits, v.Answered N py prompts world keys) → ∃ s, outcome = .ok s

section Budget

variable {N py prompts world keys} {s : GraphState V} {node : Node} {visits : List (Visit V)}
  {outcome : Except Raised (GraphState V)}

theorem Walk.pairwise (h : Walk N py prompts world keys node s visits outcome) :
    visits.Pairwise (fun v w => ∀ p ∈ w.state.trip.targets, p ∈ v.state.trip.targets) ∧
      ∀ s, outcome = .ok s → ∀ v ∈ visits, ∀ p ∈ s.trip.targets, p ∈ v.state.trip.targets := by
  induction h with
  | ended hstep =>
      refine ⟨List.pairwise_singleton _ _, fun s hs v hv => ?_⟩
      obtain rfl := List.mem_singleton.mp hv
      exact (Walk.ended hstep).targets.2 s hs
  | raised => exact ⟨List.pairwise_singleton _ _, nofun⟩
  | next hstep hwalk ih =>
      have hall := (Walk.next hstep hwalk).targets
      obtain ⟨hpairwise, hend⟩ := ih
      refine ⟨List.pairwise_cons.mpr ⟨?_, hpairwise⟩, fun s hs v hv => ?_⟩
      · exact fun w hw => hall.1 w (List.mem_cons_of_mem _ hw)
      · rcases List.mem_cons.mp hv with rfl | hv
        · exact hall.2 s hs
        · exact hend s hs v hv

theorem Walk.withinBudget {trip : Trip V}
    (h : Walk N py prompts world keys .select { trip := trip } visits outcome) :
    WithinBudget N py prompts world keys trip visits outcome := by
  have htrack : OnTrack ({ trip := trip } : GraphState V) .select := onTrack_start trip
  obtain ⟨after, hplacing, -⟩ := h.placing
  refine ⟨h.length_le htrack, h.estimates_le htrack, h.merges htrack, ?_, h.pairwise,
    ⟨hplacing.nodup, fun v _ => ?_⟩, ?_⟩
  · exact fun earlier v later w hvisits hv hmem hw => h.productive hvisits hv hmem hw
  · obtain ⟨_, hplaced⟩ := placed_placing N py prompts world v
    exact hplaced.unplaced
  · intro request hfolders hmake hanswered
    have hkeeps : GraphKeeps N world keys request.period trip.photos (some .select)
        { trip := trip } := ⟨(tripKeeps_make hfolders hmake).1, nofun⟩
    exact h.completes hkeeps hanswered

end Budget

/-- **The agent graph ends within its budget.** Whatever the model proposes, accepts or merges,
from any trip, a run with the recursion limit of the source ends at `END` or in a node that
raises and not at the limit, and its visits are within the budget. -/
theorem graph_ends (trip : Trip V) :
    ∃ visits,
      Walk N py prompts world keys .select { trip := trip } visits
        (graphRun N py prompts world keys 64 .select { trip := trip }) ∧
      WithinBudget N py prompts world keys trip visits
        (graphRun N py prompts world keys 64 .select { trip := trip }) := by
  have hlimit : Node.select.left ({ trip := trip } : GraphState V) ≤ 64 := by
    simp [Node.left, GraphState.roundsLeft, maxRounds, lastVisits]
  obtain ⟨visits, hwalk⟩ := graphRun_walk (onTrack_start trip) hlimit
  exact ⟨visits, hwalk, hwalk.withinBudget⟩

/-- The trip of the photos as the rules leave them. -/
def ruledTrip : Trip Unit :=
  (Trip.make apartNumerics sampleRuled.1.photos sampleRequest).toOption.getD sampleTrip

theorem ruledTrip_eq :
    Trip.make apartNumerics sampleRuled.1.photos sampleRequest = .ok ruledTrip := by
  have hok :
      (Trip.make apartNumerics sampleRuled.1.photos sampleRequest).toOption.isSome = true := by
    decide +kernel
  exact eq_ok_getD hok _

/-- A run of it whose conversations all return comes to its end. -/
theorem graph_ends_ruledTrip :
    ∃ visits : List (Visit Unit),
      (∀ v ∈ visits, v.Answered apartNumerics agentPython samplePrompts sampleAgentWorld
        (requestKeys sampleAgentWorld sampleRequest)) ∧
      ∃ s, graphRun apartNumerics agentPython samplePrompts sampleAgentWorld
        (requestKeys sampleAgentWorld sampleRequest) 64 .select { trip := ruledTrip } = .ok s := by
  obtain ⟨visits, hwalk, hbudget⟩ := graph_ends apartNumerics agentPython samplePrompts
    sampleAgentWorld (requestKeys sampleAgentWorld sampleRequest) ruledTrip
  have hanswered := hwalk.answered (by decide +kernel)
  have hfolders : Folders apartNumerics sampleRequest.period sampleRuled.1.photos :=
    ruleSteps_folders (fun _ _ _ _ _ _ _ => rfl) (rfl : OfRequest sampleRequest samplePhotos)
      (by decide) sampleRuled_eq
  have hphotos : ruledTrip.photos = sampleRuled.1.photos :=
    (tripKeeps_make hfolders ruledTrip_eq : TripKeeps _ _ (fun _ => True) _ _ ∧ _).2.1
  exact ⟨visits, hanswered, hbudget.completes sampleRequest (hphotos ▸ hfolders)
    (hphotos ▸ ruledTrip_eq) hanswered⟩

end Yeodam.Pipeline
