/-
A run loses no photo and invents none.

No step adds a photo, drops one or changes its id: each takes a list of photos to one with the
same ids (`Settles.ids`), also where the agent takes part. FINALIZING then lists every photo
once, so a result conserves the photos of the request (`runPipeline_conserves`).
-/

import Yeodam.Pipeline.Run

namespace Yeodam.Pipeline

open Yeodam.Lib Yeodam.Schemas

variable {B I V : Type} {N : Numerics V} {ctx : Context B I V} {request : ProcessRequest}
  {photos photos' : List (PhotoState V)} {result : ProcessResult}

/-- The ids of the photos. -/
def idsOf (photos : List (PhotoState V)) : List Int := photos.map PhotoState.id

/-! ### The rules -/

theorem idsOf_map {f : PhotoState V → PhotoState V} (hf : ∀ p, (f p).id = p.id) :
    idsOf (photos.map f) = idsOf photos := by
  rw [idsOf, List.map_map]
  exact List.map_congr_left fun p _ => hf p

theorem idsOf_forall₂ {R : PhotoState V → PhotoState V → Prop} (h : List.Forall₂ R photos photos')
    (hsource : ∀ p q, R p q → q.source = p.source) : idsOf photos' = idsOf photos :=
  map_eq_of_forall₂ h fun p q hR => congrArg PhotoSource.tripAttachmentId (hsource p q hR)

theorem clockStage_ids {offsets : List ClockOffset}
    (h : clockStage N ctx photos = .ok (photos', offsets)) : idsOf photos' = idsOf photos := by
  simp only [clockStage, except_bind_eq_ok] at h
  obtain ⟨pairMinSim, -, minPairs, -, tolerance, -, h⟩ := h
  exact idsOf_forall₂ (correctClocks_timed h) fun p q htimed => htimed.source

theorem locatingStage_ids (h : locatingStage N ctx request photos = .ok photos') :
    idsOf photos' = idsOf photos := by
  simp only [locatingStage, except_bind_eq_ok] at h
  obtain ⟨minSim, -, h⟩ := h
  exact idsOf_forall₂ (locatePhotos_located h) fun p q hlocated => hlocated.source

theorem clusterPhotos_ids {dbscanEpsM minSamples : Threshold}
    (h : clusterPhotos N photos dbscanEpsM minSamples = .ok photos') :
    idsOf photos' = idsOf photos := by
  obtain ⟨-, rfl⟩ | ⟨c, rfl⟩ := clusterPhotos_eq h
  · rfl
  · exact idsOf_map fun p => congrArg PhotoSource.tripAttachmentId (c.write_keeps p).source

theorem assignUnlocated_ids {period : Period} {inheritMinSim interpolateMaxGapMin : Threshold}
    {state : Assigned V}
    (h : assignUnlocated N photos period inheritMinSim interpolateMaxGapMin = .ok state) :
    idsOf state.photos = idsOf photos := by
  obtain ⟨targets, moves, -, hrun, -⟩ := assignUnlocated_placings h
  refine hrun.preserves (P := fun state => idsOf state = idsOf photos) ?_ rfl
  exact fun s e t hs hplacing => hplacing.ids.trans hs

theorem rulesStage_ids (h : rulesStage N ctx request photos = .ok photos') :
    idsOf photos' = idsOf photos := by
  simp only [rulesStage, except_bind_eq_ok] at h
  obtain ⟨eps, -, minSamples, -, clustered, hcluster, minSim, -, maxGap, -, assigned, hassign, h⟩ :=
    h
  cases h
  exact (assignUnlocated_ids hassign).trans (clusterPhotos_ids hcluster)

/-! ### The agent -/

section Agent

variable {py : Python} {prompts : Prompts V} {world : AgentWorld V} {keys : List (String × String)}
  {trip trip' : Trip V}

theorem assign_ids {photo : PhotoState V} {place : String}
    (h : trip.assign N photo place = .ok trip') :
    idsOf trip'.photos = idsOf trip.photos := by
  obtain ⟨point, -, h⟩ := except_bind_eq_ok.mp h
  cases h
  exact ids_updatePhoto fun _ => rfl

theorem addNewPlace_photos (trip : Trip V) (name : PyStr) (latitude longitude : PyFloat)
    (key : String) : (trip.addNewPlace name latitude longitude key).2.photos = trip.photos := by
  unfold Trip.addNewPlace
  split <;> rfl

theorem mergeGroup_photos (trip : Trip V) (group : List String) :
    (trip.mergeGroup group).photos = trip.photos := by
  unfold Trip.mergeGroup
  cases group.map trip.canon with
  | nil => rfl
  | cons first others =>
      dsimp only
      induction others generalizing trip with
      | nil => rfl
      | cons other others ih =>
          rw [List.foldl_cons, ih]
          split <;> rfl

theorem mapFolders_ids {f : String → String} :
    idsOf (trip.mapFolders f).photos = idsOf trip.photos := by
  apply idsOf_map
  intro p
  split
  · exact Trip.id_renamed
  · rfl

theorem applyProposal_ids {state state' : Applied V} {p : Proposal}
    (h : applyProposal N py state p = .ok state') :
    idsOf state'.trip.photos = idsOf state.trip.photos := by
  have hassign : ∀ {state state' : Applied V} {photo : PhotoState V} {place : String},
      state.assign N photo place = .ok state' →
        idsOf state'.trip.photos = idsOf state.trip.photos := by
    intro state state' photo place h
    obtain ⟨trip, htrip, h⟩ := except_bind_eq_ok.mp h
    cases h
    exact assign_ids htrip
  have hfolder : ∀ (c : Candidate) (name : PyStr),
      (state.folderFor py c name).2.trip.photos = state.trip.photos := by
    intro c name
    unfold Applied.folderFor
    dsimp only
    split
    · rfl
    · exact addNewPlace_photos _ _ _ _ _
  unfold applyProposal at h
  split at h
  · cases h
  · split at h
    · cases h
      rfl
    · split at h
      · exact hassign h
      · rename_i c name _
        exact (hassign h).trans (congrArg idsOf (hfolder c name))
      · cases h

theorem nodeStep_ids {node : Node} {next : Option Node} {s s' : GraphState V}
    (h : nodeStep N py prompts world keys s node = .ok (s', next)) :
    idsOf s'.trip.photos = idsOf s.trip.photos := by
  cases node with
  | select =>
      cases h
      rfl
  | estimate =>
      obtain ⟨_, -, h⟩ := except_bind_eq_ok.mp h
      obtain ⟨estimates, -, h⟩ := except_bind_eq_ok.mp h
      cases h
      rfl
  | aggregate =>
      obtain ⟨accepted, -, h⟩ := except_bind_eq_ok.mp h
      obtain ⟨applied, happlied, h⟩ := except_bind_eq_ok.mp h
      cases h
      exact foldlM_preserves (P := fun state => idsOf state.trip.photos = idsOf s.trip.photos)
        (fun state hs p _ state' h => (applyProposal_ids h).trans hs) rfl happlied
  | merge =>
      obtain ⟨groups, -, h⟩ := except_bind_eq_ok.mp h
      cases h
      have hmerge : ∀ (groups : List (List String)) (trip : Trip V),
          (groups.foldl Trip.mergeGroup trip).photos = trip.photos := by
        intro groups
        induction groups with
        | nil => exact fun _ => rfl
        | cons group groups ih => exact fun trip => (ih _).trans (mergeGroup_photos trip group)
      exact congrArg idsOf (hmerge groups s.trip)

theorem graphRun_ids {fuel : Nat} {node : Node} {s s' : GraphState V}
    (h : graphRun N py prompts world keys fuel node s = .ok s') :
    idsOf s'.trip.photos = idsOf s.trip.photos := by
  induction fuel generalizing node s with
  | zero => cases h
  | succ fuel ih =>
      rw [graphRun] at h
      obtain ⟨⟨next, node'⟩, hstep, h⟩ := except_bind_eq_ok.mp h
      cases node' with
      | none =>
          cases h
          exact nodeStep_ids hstep
      | some node' => exact (ih h).trans (nodeStep_ids hstep)

theorem runAgent_ids {hasThreshold : Bool} {result : AgentResult V}
    (h : runAgent N py prompts world hasThreshold photos request = .ok result) :
    idsOf result.photos = idsOf photos := by
  obtain ⟨_, -, h⟩ := except_bind_eq_ok.mp h
  obtain ⟨trip, htrip, h⟩ := except_bind_eq_ok.mp h
  have hphotos : trip.photos = photos := by
    obtain ⟨inside, -, htrip⟩ := except_bind_eq_ok.mp htrip
    split at htrip
    · cases htrip
    · cases htrip
      rfl
  split at h
  · cases h
    rfl
  · obtain ⟨_, -, h⟩ := except_bind_eq_ok.mp h
    obtain ⟨s, hgraph, h⟩ := except_bind_eq_ok.mp h
    cases h
    calc idsOf s.trip.finish.photos = idsOf s.trip.photos := mapFolders_ids.trans mapFolders_ids
      _ = idsOf photos := (graphRun_ids hgraph).trans (congrArg idsOf hphotos)

theorem agentPhotos_ids (h : agentPhotos N ctx request photos = .ok photos') :
    idsOf photos' = idsOf photos := by
  unfold agentPhotos at h
  split at h
  · cases h
    rfl
  · obtain ⟨result, hrun, h⟩ := except_bind_eq_ok.mp h
    cases h
    exact runAgent_ids hrun

end Agent

/-! ### The run -/

theorem filterPhotos_ids {metrics : Int → Option PhotoMetrics} {blurVarMin phashMaxDist : Threshold}
    {variances : List (Int × ℚ)}
    (h : filterPhotos N photos metrics blurVarMin phashMaxDist = .ok (photos', variances)) :
    idsOf photos' = idsOf photos := by
  obtain ⟨limits, measured, -, -, -, -, -, -, hfiltered⟩ := filterPhotos_eq_ok.mp h
  rw [show photos' = _ from hfiltered.photos_eq]
  apply idsOf_map
  intro p
  unfold judged
  split
  · rename_i v _
    cases v.2 <;> rfl
  · rfl

theorem release_ids : idsOf (release ctx photos) = idsOf photos := by
  unfold release
  split
  · apply idsOf_map
    intro p
    split <;> rfl
  · rfl

theorem Settles.ids {loaded : List (LoadedImage B I)} {timed located ruled placed filtered :
      List (PhotoState V)} {offsets : List ClockOffset} {variances : List (Int × ℚ)}
    (h : Settles N ctx request loaded photos result timed located ruled placed filtered offsets
      variances) : idsOf (release ctx filtered) = idsOf photos := by
  obtain ⟨hclock, hlocate, hrules, hagent, hfilter, -⟩ := h
  simp only [filteringStage, except_bind_eq_ok] at hfilter
  obtain ⟨measured, -, blurVarMin, -, phashMaxDist, -, hfilter⟩ := hfilter
  calc idsOf (release ctx filtered) = idsOf placed := release_ids.trans (filterPhotos_ids hfilter)
    _ = idsOf located := (agentPhotos_ids hagent).trans (rulesStage_ids hrules)
    _ = idsOf photos := (locatingStage_ids hlocate).trans (clockStage_ids hclock)

theorem embedAll_ids {loaded : List (LoadedImage B I)}
    (h : (embedAll N ctx loaded photos).outcome = .ok photos') : idsOf photos' = idsOf photos := by
  rw [outcome_embedAll] at h
  refine foldlM_preserves (P := fun state => idsOf state = idsOf photos) ?_ rfl h
  intro state hstate chunk _ state' hchunk
  obtain ⟨blobs, -, hchunk⟩ := except_bind_eq_ok.mp hchunk
  obtain ⟨vectors, -, hchunk⟩ := except_bind_eq_ok.mp hchunk
  cases hchunk
  refine (idsOf_map fun p => ?_).trans hstate
  split <;> rfl

theorem idsOf_embedStored {stored : Int → Option V} :
    idsOf (embedStored ctx stored photos) = idsOf photos := by
  unfold embedStored
  split
  · exact idsOf_map fun p => rfl
  · rfl

theorem id_buildPhotoState (a : ProcessAttachment) :
    (buildPhotoState a : PhotoState V).id = a.tripAttachmentId := by
  simp only [buildPhotoState, PhotoState.id]
  split <;> rfl

theorem idsOf_buildPhotoStates : idsOf (buildPhotoStates (V := V) request) =
    request.attachments.map ProcessAttachment.tripAttachmentId := by
  rw [idsOf, buildPhotoStates, List.map_map]
  exact List.map_congr_left fun a _ => id_buildPhotoState a

theorem run_of_pipeline {interrupt : List Event → Option Raised}
    (h : runPipeline N ctx request interrupt = .ok result) :
    (run N ctx request).outcome = .ok result := by
  unfold runPipeline at h
  split at h
  · rename_i hrun
    cases h
    exact (Script.execute_eq_ok.mp hrun).2
  · cases h
  · cases h

/-- **A result lists each photo of the request once**, refers to nothing outside itself, and
every duplicate to an original that is kept: whatever the models, the searches and the agent say,
and wherever the run is interrupted, if it returns one. -/
theorem runPipeline_conserves {interrupt : List Event → Option Raised}
    (h : runPipeline N ctx request interrupt = .ok result) :
    Conserves (request.attachments.map ProcessAttachment.tripAttachmentId) result := by
  obtain ⟨-, loaded, photos, -, hembed, hsettle⟩ := run_eq_ok.mp (run_of_pipeline h)
  obtain ⟨timed, located, ruled, placed, filtered, offsets, variances, hsettles⟩ :=
    settleStages_eq_ok.mp hsettle
  have hids : idsOf (release ctx filtered) =
      request.attachments.map ProcessAttachment.tripAttachmentId := by
    calc idsOf (release ctx filtered) = idsOf photos := hsettles.ids
      _ = idsOf (buildPhotoStates (V := V) request) := (embedAll_ids hembed).trans idsOf_embedStored
      _ = _ := idsOf_buildPhotoStates
  exact hids ▸ finalizePhotos_conserves hsettles.finalize

/-! ### A run with a duplicate -/

def sampleThreshold : String → Option Threshold
  | "inherit_min_sim" | "blur_var_min" | "phash_max_dist" | "clock_pair_min_sim" => some (.int 0)
  | "dbscan_eps_m" | "min_samples" | "clock_min_pairs" | "interpolate_max_gap_min" => some (.int 1)
  | "clock_offset_tolerance_sec" => some (.int 60)
  | _ => none

/-- Every copy is there, and all look the same. -/
def sampleContext : Context Unit Unit Unit :=
  { getMany := fun _ _ => .ok fun _ => some ()
    decode := fun _ => .ok (some ())
    hasPixels := fun _ => true
    measure := fun _ => some ⟨.finite "100.0", "0123456789abcdef"⟩
    engine := ⟨1, fun blobs => .ok (some blobs)⟩
    fetch := fun _ _ => none
    thresholds := sampleThreshold
    photoMetrics := fun _ => none }

def sampleResult : ProcessResult :=
  (run sampleNumerics sampleContext sampleRequest).outcome.toOption.getD ⟨[], [], [], []⟩

theorem sampleResult_eq :
    runPipeline sampleNumerics sampleContext sampleRequest Script.quiet = .ok sampleResult := by
  have hok : (run sampleNumerics sampleContext sampleRequest).outcome.toOption.isSome = true := by
    decide +kernel
  have houtcome := eq_ok_getD hok ⟨[], [], [], []⟩
  unfold runPipeline
  rw [Script.execute_quiet, houtcome]
  rfl

theorem runPipeline_conserves_sampleResult :
    Conserves (sampleRequest.attachments.map ProcessAttachment.tripAttachmentId) sampleResult :=
  runPipeline_conserves sampleResult_eq

example : sampleResult.unclassified.map (fun u => (u.tripAttachmentId, u.placeId,
    u.duplicateOfAttachmentId)) = [(2, some "p1", some 1)] := by
  decide +kernel

end Yeodam.Pipeline
