/-
What comes of a conversation, whatever the model says in it.

A proposal that counts names a folder the trip has, or a place that a search returned in the
same conversation and whose region is one of the request (`Proposal.Checked`): the id the model
gives is looked up in the table of the conversation, which holds nothing but what its searches
returned (`Tools.Tracked`). The groups of folders to merge hold folders of the trip only.

And no conversation ends in a plain `PipelineError`: what the model says can make a conversion
raise, which is some other exception (`Unfailing`).
-/

import Yeodam.Pipeline.Conversations

namespace Yeodam.Pipeline

open Yeodam.Lib Yeodam.Infra Yeodam.Schemas

variable {V : Type} {N : Numerics V} {py : Python} {trip : Trip V} {world : World V} {setup : Setup}
  {prompts : Prompts V} {regions : Regions}

/-! ### Candidates -/

/-- The table holds places that searches returned. -/
def Tools.Tracked (tools : Tools) : Prop :=
  ∀ id c, tools.candidates.get? id = some c → c ∈ tools.returned

section Tracking

variable {tools tools' : Tools} {services : Services V} {session session' : Session} {reply : Reply}
  {name : PyStr} {arguments : Value} {action : Action V}

theorem read_tracked {refs : List PyStr} (h : tools.Tracked) :
    (tools.read py trip refs).2.Tracked := by
  unfold Tools.read
  dsimp only
  split
  · exact h
  split
  · exact h
  · exact h

theorem found_tracked {latitude longitude : PyFloat} {places : List Candidate} (h : tools.Tracked) :
    (tools.found py latitude longitude places).2.Tracked := by
  have htable : ∀ (rows : List Candidate) (table : Dict String Candidate),
      (∀ id c, table.get? id = some c → c ∈ tools.returned ++ places) →
      (∀ c ∈ rows, c ∈ tools.returned ++ places) → ∀ id c,
        (rows.foldl (fun table c => table.set c.candidateId c) table).get? id = some c →
          c ∈ tools.returned ++ places := by
    intro rows
    induction rows with
    | nil =>
        intro table htable _
        exact htable
    | cons row rows ih =>
        intro table htable hrows
        obtain ⟨hrow, hrows⟩ := List.forall_mem_cons.mp hrows
        refine ih _ (fun id c hc => ?_) hrows
        rw [Dict.get?_set] at hc
        split at hc
        · cases hc
          exact hrow
        · exact htable id c hc
  intro id c hc
  refine htable places tools.candidates (fun id c hc => ?_) (fun c hc => ?_) id c hc
  · exact List.mem_append_left _ (h id c hc)
  · exact List.mem_append_right _ hc

theorem perform_tracked (h : tools.Tracked)
    (hperform : tools.perform py trip services session action = .ok (reply, tools', session')) :
    tools'.Tracked := by
  cases action with
  | say text =>
      cases hperform
      exact h
  | readPhotos refs =>
      cases hperform
      exact read_tracked h
  | readPlace members n =>
      cases hperform
      exact read_tracked h
  | findSimilar photo k =>
      obtain ⟨hits, -, hperform⟩ := except_bind_eq_ok.mp hperform
      cases hperform
      exact h
  | searchPublicPlaces query latitude longitude radius =>
      simp only [Tools.perform] at hperform
      split at hperform
      · cases hperform
        exact h
      · cases hperform
        exact found_tracked h
  | searchKeyword query latitude longitude radius =>
      simp only [Tools.perform] at hperform
      split at hperform
      · cases hperform
        exact found_tracked h
      · split at hperform
        · cases hperform
          exact h
        · cases hperform
          exact h
        · cases hperform
          exact found_tracked h

/-- The tools as they are when the calls of a reply are answered, or when the final one comes. -/
def outcomeTools : (Value × Tools) ⊕ Calls → Tools
  | .inl final => final.2
  | .inr calls => calls.tools

theorem answerCalls_tracked {n i : Nat} {rest : List ToolCall} {calls : Calls}
    {outcome : (Value × Tools) ⊕ Calls} (hcalls : calls.tools.Tracked)
    (h : answerCalls py trip world setup n i rest calls = .ok outcome) :
    (outcomeTools outcome).Tracked := by
  induction rest generalizing i calls with
  | nil =>
      cases h
      exact hcalls
  | cons call rest ih =>
      rw [answerCalls] at h
      obtain ⟨arguments, -, h⟩ := except_bind_eq_ok.mp h
      split at h
      · cases h
        exact hcalls
      obtain ⟨⟨reply, tools, session⟩, hrun, h⟩ := except_bind_eq_ok.mp h
      obtain ⟨action, -, hperform⟩ := except_bind_eq_ok.mp hrun
      refine ih ?_ h
      exact perform_tracked hcalls hperform

theorem rounds_tracked {left n : Nat} {d : Dialogue} {final : Option Value} (hd : d.tools.Tracked)
    (h : (rounds py trip world setup left n d).2 = .ok (final, tools)) : tools.Tracked := by
  induction left generalizing n d with
  | zero =>
      cases h
      exact hd
  | succ left ih =>
      rw [rounds] at h
      -- The tools after a turn are those before it, or those of the calls it answered.
      have hturn : ∀ outcome, turn py trip world setup n d = .ok outcome →
          (outcome.elim Prod.snd Dialogue.tools).Tracked := by
        intro outcome hturn
        obtain ⟨reply, -, hturn⟩ := except_bind_eq_ok.mp hturn
        dsimp only at hturn
        split at hturn
        · cases hturn
          exact hd
        · obtain ⟨answered, hcalls, hturn⟩ := except_bind_eq_ok.mp hturn
          have htracked := answerCalls_tracked (by exact hd) hcalls
          cases answered with
          | inl final =>
              cases hturn
              exact htracked
          | inr calls =>
              cases hturn
              exact htracked
      split at h
      · cases h
      · rename_i hfinal
        cases h
        exact hturn _ hfinal
      · rename_i next hnext
        exact ih (hturn _ hnext) h

theorem episode_tracked {final : Option Value}
    (h : (episode py trip world setup).2 = .ok (final, tools)) : tools.Tracked :=
  rounds_tracked (by exact fun _ _ hc => by cases hc) h

end Tracking

/-! ### What counts of an answer -/

/-- A proposal that is high names a folder the trip has, or a place that was found in the regions
of the request. -/
structure Proposal.Checked (trip : Trip V) (regions : Regions)
    (returned : List Candidate) (p : Proposal) : Prop where
  existing : ∀ place, p.decision = some (.existing place) → p.confidence = .high →
    ∃ folder, place = some folder ∧ trip.hasPlace folder = true
  new : ∀ named, p.decision = some (.new named) → p.confidence = .high →
    ∃ c name, named = some (c, name) ∧ c ∈ returned ∧ regions.contains c = true

/-- A proposal that is not high is nothing to check. -/
theorem checked_of_not_high {returned : List Candidate} {p : Proposal} (h : p.confidence ≠ .high) :
    p.Checked trip regions returned :=
  ⟨fun _ _ hhigh => absurd hhigh h, fun _ _ hhigh => absurd hhigh h⟩

theorem knownPlace_eq_some {text : PyStr} {place : String} :
    trip.knownPlace text = some place ↔ text = .text place ∧ trip.hasPlace place = true := by
  cases text with
  | surrogate codePoints => simp [Trip.knownPlace]
  | text other =>
      simp only [Trip.knownPlace, Option.ite_none_right_eq_some, Option.some.injEq,
        PyStr.text.injEq]
      constructor
      · rintro ⟨hplace, rfl⟩
        exact ⟨rfl, hplace⟩
      · rintro ⟨rfl, hplace⟩
        exact ⟨hplace, rfl⟩

theorem candidate_mem {tools : Tools} {id : PyStr} {c : Candidate} (htools : tools.Tracked)
    (h : tools.candidate id = some c) : c ∈ tools.returned := by
  cases id with
  | surrogate codePoints => cases h
  | text id => exact htools id c h

theorem readDecision_checked {tools : Tools} {photoId : String} {final : Value} {p : Proposal}
    (htools : tools.Tracked) (h : readDecision py trip regions tools photoId final = .ok p) :
    p.photoId = photoId ∧ p.Checked trip regions tools.returned := by
  obtain ⟨reason, -, h⟩ := except_bind_eq_ok.mp h
  split at h
  · obtain ⟨text, -, h⟩ := except_bind_eq_ok.mp h
    generalize hplace : trip.knownPlace (trip.canonText text) = place at h
    cases h
    cases place with
    | none => exact ⟨rfl, checked_of_not_high nofun⟩
    | some folder =>
        refine ⟨rfl, ⟨fun place heq _ => ⟨folder, ?_, (knownPlace_eq_some.mp hplace).2⟩, nofun⟩⟩
        cases heq
        rfl
  · obtain ⟨text, -, h⟩ := except_bind_eq_ok.mp h
    split at h
    · cases h
      exact ⟨rfl, checked_of_not_high nofun⟩
    · rename_i c hc
      have hnamed : ∀ name confidence, (confidence = .high → regions.contains c = true) →
          (⟨photoId, some (.new (some (c, name))), confidence⟩ : Proposal).Checked trip regions
            tools.returned := by
        refine fun name confidence hcontains => ⟨nofun, fun named heq hhigh => ⟨c, name, ?_,
          candidate_mem htools hc, hcontains hhigh⟩⟩
        cases heq
        rfl
      have hcontains : (if confidenceOf (final.get? "confidence") = .high ∧ !regions.contains c
          then .low else confidenceOf (final.get? "confidence")) = Confidence.high →
          regions.contains c = true := by
        intro hhigh
        split at hhigh
        · cases hhigh
        · rename_i hnot
          simpa [hhigh] using hnot
      dsimp only at h
      split at h
      · obtain ⟨name, -, h⟩ := except_bind_eq_ok.mp h
        cases h
        exact ⟨rfl, hnamed name _ hcontains⟩
      · cases h
        exact ⟨rfl, hnamed _ _ hcontains⟩
  · cases h
    exact ⟨rfl, checked_of_not_high nofun⟩

/-- **An estimate is checked**: it is of the photo asked about, and counts only for a folder of
the trip or a place its conversation found in the regions. -/
theorem estimate_checked {photo : PhotoState V} {requests : List Dialogue}
    {outcome : Except Raised Estimate} {e : Estimate}
    (h : estimate N py trip prompts world regions photo = .ok (requests, outcome))
    (houtcome : outcome = .ok e) :
    e.proposal.photoId = photoRef photo ∧ e.proposal.Checked trip regions e.returned := by
  obtain ⟨setup, -, h⟩ := except_bind_eq_ok.mp h
  cases h
  obtain ⟨⟨final, tools⟩, hepisode, hread⟩ := except_bind_eq_ok.mp houtcome
  have htools := episode_tracked hepisode
  cases final with
  | none =>
      cases hread
      exact ⟨rfl, checked_of_not_high nofun⟩
  | some final =>
      obtain ⟨p, hp, hread⟩ := except_bind_eq_ok.mp hread
      cases hread
      exact readDecision_checked htools hp

/-- What is accepted was proposed as high. -/
theorem aggregate_accepts {proposals accepted : List Proposal}
    (h : (aggregate py trip prompts world proposals).2 = .ok accepted) :
    ∀ p ∈ accepted, p ∈ proposals ∧ p.confidence = .high ∧ p.decision ≠ none := by
  unfold aggregate at h
  dsimp only at h
  intro p hp
  have hhigh : p ∈ proposals.filter Proposal.isHigh := by
    split at h
    · cases h
      cases hp
    · obtain ⟨⟨final, tools⟩, -, h⟩ := except_bind_eq_ok.mp h
      obtain ⟨refs, -, h⟩ := except_bind_eq_ok.mp h
      cases h
      exact (List.mem_filter.mp hp).1
  obtain ⟨hmem, hhigh⟩ := List.mem_filter.mp hhigh
  rw [Proposal.isHigh, Bool.and_eq_true, decide_eq_true_iff] at hhigh
  exact ⟨hmem, hhigh.1, Option.isSome_iff_ne_none.mp hhigh.2⟩

/-- The groups hold folders of the trip. -/
theorem merge_used {groups : List (List String)}
    (h : (merge py trip prompts world).2 = .ok groups) :
    ∀ group ∈ groups, ∀ place ∈ group, trip.hasPlace place = true := by
  obtain ⟨⟨final, tools⟩, -, h⟩ := except_bind_eq_ok.mp h
  dsimp only at h
  split at h
  · rename_i values hvalues
    obtain ⟨all, hall, h⟩ := except_bind_eq_ok.mp h
    cases h
    intro group hgroup place hplace
    obtain ⟨value, -, hvalue⟩ :=
      exists_left_of_forall₂ (mapM_eq_ok.mp hall) (List.mem_filter.mp hgroup).1
    unfold mergeFolders at hvalue
    split at hvalue
    · obtain ⟨places, -, hvalue⟩ := except_bind_eq_ok.mp hvalue
      cases hvalue
      obtain ⟨text, -, htext⟩ := List.mem_filterMap.mp hplace
      exact (knownPlace_eq_some.mp htext).2
    · cases hvalue
      cases hplace
  · cases h
    nofun

/-! ### What conversations raise -/

section Raising

variable {value : Option Value} {name : PyStr} {arguments : Value}

theorem unfailing_strOf {v : Value} : Unfailing (strOf py v) := by
  unfold strOf
  split
  · exact unfailing_ok _
  · exact unfailing_other

theorem unfailing_strOrEmpty : Unfailing (strOrEmpty py value) := by
  unfold strOrEmpty
  split
  · exact unfailing_ok _
  · exact unfailing_strOf

theorem unfailing_argText : Unfailing (argText py value) := unfailing_strOrEmpty.map

theorem unfailing_ref : Unfailing (ref py value) :=
  unfailing_argText.bind fun _ _ => unfailing_ok _

theorem unfailing_intArg {default low high : Int} :
    Unfailing (intArg py value default low high) := by
  refine .bind ?_ fun _ _ => unfailing_ok _
  unfold toInt
  split
  all_goals first | exact unfailing_ok _ | exact unfailing_other

theorem unfailing_args {raw : PyStr} : Unfailing (args py raw) := by
  unfold args
  split
  · exact unfailing_ok _
  · exact unfailing_ok _
  · exact unfailing_other

theorem unfailing_meanPoint {photos : List (PhotoState V)} :
    Unfailing (Trip.meanPoint py photos) := by
  unfold Trip.meanPoint
  split
  · exact unfailing_ok _
  · exact unfailing_other

theorem unfailing_tripCenter : Unfailing (trip.tripCenter py) := by
  unfold Trip.tripCenter
  dsimp only
  split
  · exact unfailing_meanPoint
  · exact unfailing_ok _

theorem unfailing_anchor : Unfailing (trip.anchor py value) := by
  unfold Trip.anchor
  dsimp only
  split
  · exact unfailing_ok _
  · exact unfailing_tripCenter
  · split
    · refine .bind ?_ fun center _ => ?_
      · unfold Trip.center
        dsimp only
        split
        · exact unfailing_meanPoint.map
        · exact unfailing_ok _
      · split
        · exact unfailing_ok _
        · exact unfailing_tripCenter
    · exact unfailing_tripCenter

theorem unfailing_chooseSearch {maxRadius : Int}
    {search : PyStr → PyFloat → PyFloat → Int → Action V} :
    Unfailing (chooseSearch py trip arguments maxRadius search) := by
  apply unfailing_argText.bind
  intro query _
  split
  · exact unfailing_ok _
  · exact unfailing_anchor.bind fun _ _ => unfailing_intArg.bind fun _ _ => unfailing_ok _

theorem unfailing_choose : Unfailing (choose py trip name arguments) := by
  unfold choose
  split_ifs
  · unfold choosePhotos
    split
    · exact (unfailing_mapM fun _ _ => unfailing_ref).bind fun _ _ => unfailing_ok _
    · exact unfailing_ok _
  · apply unfailing_argText.bind
    intro place _
    dsimp only
    split
    · exact unfailing_ok _
    · exact unfailing_intArg.bind fun _ _ => unfailing_ok _
  · apply unfailing_ref.bind
    intro photoRef _
    split
    · exact unfailing_ok _
    · exact unfailing_intArg.bind fun _ _ => unfailing_ok _
  · exact unfailing_chooseSearch
  · exact unfailing_chooseSearch
  · exact unfailing_ok _

theorem unfailing_run {tools : Tools} {services : Services V} {session : Session} :
    Unfailing (tools.run py trip services session name arguments) := by
  apply unfailing_choose.bind
  intro action _
  cases action with
  | say text => exact unfailing_ok _
  | readPhotos refs => exact unfailing_ok _
  | readPlace members n => exact unfailing_ok _
  | findSimilar photo k =>
      refine .bind ?_ fun _ _ => unfailing_ok _
      unfold Trip.similar
      split
      · exact unfailing_other
      · refine .bind (unfailing_mapM fun hit _ => ?_) fun _ _ => unfailing_ok _
        split
        · exact unfailing_ok _
        · exact unfailing_other
  | searchPublicPlaces query latitude longitude radius =>
      simp only [Tools.perform]
      split
      · exact unfailing_ok _
      · exact unfailing_ok _
  | searchKeyword query latitude longitude radius =>
      simp only [Tools.perform]
      split
      · exact unfailing_ok _
      · split
        all_goals exact unfailing_ok _

theorem unfailing_raised {α : Type} (e : CallError) :
    Unfailing (.error e.raised : Except Raised α) := by
  cases e <;> nofun

theorem unfailing_answerCalls {n i : Nat} {rest : List ToolCall} {calls : Calls} :
    Unfailing (answerCalls py trip world setup n i rest calls) := by
  induction rest generalizing i calls with
  | nil => exact unfailing_ok _
  | cons call rest ih =>
      rw [answerCalls]
      apply unfailing_args.bind
      intro arguments _
      split
      · exact unfailing_ok _
      · exact unfailing_run.bind fun _ _ => ih

theorem unfailing_turn {n : Nat} {d : Dialogue} : Unfailing (turn py trip world setup n d) := by
  refine .bind ?_ fun reply _ => ?_
  · cases world.chat n with
    | ok reply => exact unfailing_ok _
    | error e => exact unfailing_raised e
  · dsimp only
    split
    · exact unfailing_ok _
    · apply unfailing_answerCalls.bind
      intro outcome _
      cases outcome <;> exact unfailing_ok _

theorem unfailing_rounds {left n : Nat} {d : Dialogue} :
    Unfailing (rounds py trip world setup left n d).2 := by
  induction left generalizing n d with
  | zero => exact unfailing_ok _
  | succ left ih =>
      rw [rounds]
      split
      · rename_i e he
        intro message h
        cases h
        exact unfailing_turn message he
      · exact unfailing_ok _
      · exact ih

/-- **An estimate does not raise a plain `PipelineError`.** -/
theorem unfailing_estimate {photo : PhotoState V} :
    Unfailing (estimate N py trip prompts world regions photo) := by
  refine .bind ?_ fun setup _ => unfailing_ok _
  refine .bind ?_ fun _ _ => unfailing_ok _
  unfold Trip.neighbors
  split
  · exact unfailing_ok _
  · dsimp only
    split
    · exact unfailing_other
    · exact unfailing_ok _

theorem unfailing_readDecision {tools : Tools} {photoId : String} {final : Value} :
    Unfailing (readDecision py trip regions tools photoId final) := by
  apply unfailing_strOrEmpty.bind
  intro _ _
  split
  · exact unfailing_argText.bind fun _ _ => unfailing_ok _
  · apply unfailing_argText.bind
    intro _ _
    split
    · exact unfailing_ok _
    · dsimp only
      split
      · exact unfailing_strOf.bind fun _ _ => unfailing_ok _
      · exact unfailing_ok _
  · exact unfailing_ok _

theorem unfailing_estimate_outcome {photo : PhotoState V} {requests : List Dialogue}
    {outcome : Except Raised Estimate}
    (h : estimate N py trip prompts world regions photo = .ok (requests, outcome)) :
    Unfailing outcome := by
  obtain ⟨setup, -, h⟩ := except_bind_eq_ok.mp h
  cases h
  apply unfailing_rounds.bind
  intro outcome _
  obtain ⟨final, tools⟩ := outcome
  cases final with
  | none => exact unfailing_ok _
  | some final => exact unfailing_readDecision.bind fun _ _ => unfailing_ok _

theorem unfailing_aggregate {proposals : List Proposal} :
    Unfailing (aggregate py trip prompts world proposals).2 := by
  unfold aggregate
  dsimp only
  split
  · exact unfailing_ok _
  · refine unfailing_rounds.bind fun outcome _ => .bind ?_ fun _ _ => unfailing_ok _
    unfold acceptedRefs
    split
    · exact unfailing_mapM fun _ _ => unfailing_ref
    · exact unfailing_ok _

theorem unfailing_merge : Unfailing (merge py trip prompts world).2 := by
  unfold merge
  apply unfailing_rounds.bind
  intro outcome _
  dsimp only
  split
  · refine .bind (unfailing_mapM fun group _ => ?_) fun _ _ => unfailing_ok _
    unfold mergeFolders
    split
    · refine .bind (unfailing_mapM fun x _ => ?_) fun _ _ => unfailing_ok _
      exact unfailing_strOf.bind fun _ _ => unfailing_ok _
    · exact unfailing_ok _
  · exact unfailing_ok _

end Raising

end Yeodam.Pipeline
