/-
A run of the pipeline (`run` in `app/pipeline/run.py`): from a request to its result, through
the seven steps in their order.

A run passes through events: it checks for cancellation, reports progress and calls the vector
store. Whether it is interrupted there is up to what is around it, so `run` is a `Script`, and
`execute` is what comes of it.

What is computed in between is the steps of the other modules, on the photos of the request.
`run_eq_ok` takes a run that returns apart into them.
-/

import Yeodam.Lib.Script
import Yeodam.Pipeline.Agent
import Yeodam.Pipeline.Filtering
import Yeodam.Pipeline.Finalizing

namespace Yeodam.Pipeline

open Yeodam.Lib Yeodam.Schemas

/-! ### What a run meets from outside -/

/-- `EmbeddingEngine`. -/
structure Engine (B V : Type) where
  dim : Nat
  /-- `encode_images`: its rows, none where it does not return an array of rows of `float32`. -/
  encode : List B → Except Raised (Option (List V))

/-- `AgentResources`, with the libraries the agent uses. -/
structure AgentResources (V : Type) where
  py : Python
  prompts : Prompts V
  world : AgentWorld V
  /-- How many calls of the model are over by the time the step ends. -/
  calls : Nat

/-- `PipelineContext`, with Pillow and OpenCV. `B` is the type of the bytes of a copy and `I`
that of a decoded image. -/
structure Context (B I V : Type) where
  /-- `images.get_many` for the n-th chunk: a dictionary from keys to bytes. -/
  getMany : Nat → List String → Except Raised (String → Option B)
  /-- `Image.open(..).convert("RGB")`; none where it raises an `OSError` or a `ValueError`. -/
  decode : B → Except Raised (Option I)
  /-- `min(image.size) >= 1` -/
  hasPixels : I → Bool
  /-- `measure`; none where it raises an `OSError`, a `ValueError` or a `cv2.error`. -/
  measure : I → Option PhotoMetrics
  engine : Engine B V
  /-- `qdrant.fetch` -/
  fetch : List Int → Int → Option V
  thresholds : String → Option Threshold
  reuseVectors : Bool := false
  photoMetrics : Int → Option PhotoMetrics := fun _ => none
  agent : Option (AgentResources V) := none

/-- Where a run may be interrupted. -/
inductive Event where
  /-- `check_cancel()` -/
  | check
  /-- `progress.report(step, done)` -/
  | report (step : ProcessStep) (done : Nat)
  /-- `qdrant.fetch(ids)` -/
  | fetch (ids : List Int)
  /-- `qdrant.upsert(ids, vectors)` -/
  | upsert (ids : List Int)
  /-- The `with` block of the reporter is left, which raises what a heartbeat raised. -/
  | leave
deriving DecidableEq

abbrev Program := Script Event Raised

variable {B I V : Type} (N : Numerics V) (ctx : Context B I V) (request : ProcessRequest)

/-! ### Before the steps -/

/-- `required` -/
def requiredThresholds : List String :=
  ["inherit_min_sim", "dbscan_eps_m", "min_samples", "blur_var_min", "phash_max_dist",
    "clock_pair_min_sim", "clock_min_pairs", "clock_offset_tolerance_sec",
    "interpolate_max_gap_min"]

/-- `sorted(required - thresholds.keys())` -/
def missingThresholds : List String :=
  (requiredThresholds.filter fun name => (ctx.thresholds name).isNone).insertionSort (· ≤ ·)

/-- `f"{names}"`, of names without quotation marks. -/
def listText (names : List String) : String :=
  "[" ++ ", ".intercalate (names.map fun name => "'" ++ name ++ "'") ++ "]"

def checkRequest : Except Raised Unit := do
  raiseIf (!(request.attachments.map ProcessAttachment.tripAttachmentId).Nodup)
    "요청 사진 ID가 중복됨"
  raiseIf (request.period.endDate < request.period.startDate)
    "여행 시작일은 종료일보다 늦을 수 없음"
  raiseIf (!(missingThresholds ctx).isEmpty)
    ("파이프라인 임계값이 누락됨: " ++ listText (missingThresholds ctx))

/-- `thresholds[name]` -/
def threshold (name : String) : Except Raised Threshold :=
  match ctx.thresholds name with
  | some t => .ok t
  | none => .error .other

/-! ### DOWNLOADING -/

/-- A photo that was downloaded: its entries in `raw_images` and `images`. -/
structure LoadedImage (B I : Type) where
  id : Int
  raw : B
  image : I

/-- A photo of a chunk, on the left the id of one that cannot be decoded. -/
def loadImage (blobs : String → Option B) (a : ProcessAttachment) :
    Except Raised (Int ⊕ LoadedImage B I) :=
  match blobs a.analyzeStorageKey with
  | none => .error .other
  | some raw => do
      match ← ctx.decode raw with
      | some image => return .inr ⟨a.tripAttachmentId, raw, image⟩
      | none => return .inl a.tripAttachmentId

/-- The chunks so far: what was loaded and the ids that failed. -/
structure Downloaded (B I : Type) where
  loaded : List (LoadedImage B I) := []
  failed : List Int := []

/-- `load_images` of the n-th chunk: of a chunk in which a photo fails nothing is kept. -/
def loadImages (n : Nat) (state : Downloaded B I) (chunk : List ProcessAttachment) :
    Except Raised (Downloaded B I) := do
  let blobs ← ctx.getMany n (chunk.map ProcessAttachment.analyzeStorageKey)
  let photos ← chunk.mapM (loadImage ctx blobs)
  let failed := photos.filterMap Sum.getLeft?
  if failed = [] then return { state with loaded := state.loaded ++ photos.filterMap Sum.getRight? }
  else return { state with failed := state.failed ++ failed }

/-- Photos that have no vector or no metrics yet. -/
def downloadsOf (stored : Int → Option V) : List ProcessAttachment :=
  request.attachments.filter fun a =>
    (stored a.tripAttachmentId).isNone || (ctx.photoMetrics a.tripAttachmentId).isNone

/-- The end of the chunk from `16 * n` on. -/
def chunkEnd (n total : Nat) : Nat := min (16 * n + 16) total

def downloadChunk (skipped total : Nat) (state : Downloaded B I)
    (chunk : List ProcessAttachment × Nat) : Program (Downloaded B I) := do
  .emit .check
  let state ← .lift (loadImages ctx chunk.2 state chunk.1)
  .emit .check
  .emit (.report .downloading (skipped + chunkEnd chunk.2 total))
  return state

def download (skipped : Nat) (downloads : List ProcessAttachment) :
    Program (List (LoadedImage B I)) := do
  let state ← (chunks 16 downloads).zipIdx.foldlM (downloadChunk ctx skipped downloads.length) {}
  if state.failed ≠ [] then .lift (.error (.pipeline (.decodeFailed state.failed)))
  else return state.loaded

/-! ### EMBEDDING -/

/-- `encode_checked` -/
def encodeChecked (blobs : List B) : Except Raised (List V) := do
  match ← ctx.engine.encode blobs with
  | none => fail "임베딩 엔진 출력이 float32 단위 벡터 계약과 다름"
  | some vectors =>
      raiseIf (!(vectors.length = blobs.length && vectors.all fun v =>
          N.dim v = ctx.engine.dim && N.isUnit v))
          "임베딩 엔진 출력이 float32 단위 벡터 계약과 다름"
      return vectors

/-- `raw_images[photo_id]` -/
def rawImage (loaded : List (LoadedImage B I)) (id : Int) : Except Raised B :=
  match loaded.find? fun l => l.id = id with
  | some l => .ok l.raw
  | none => .error .other

/-- Give photos their vectors. -/
def embed (vectors : List (Int × V)) (photos : List (PhotoState V)) : List (PhotoState V) :=
  photos.map fun p =>
    match vectors.find? fun v => v.1 = p.id with
    | some v => { p with embedding := some v.2 }
    | none => p

def embedChunk (loaded : List (LoadedImage B I)) (reused total : Nat) (photos : List (PhotoState V))
    (chunk : List Int × Nat) : Program (List (PhotoState V)) := do
  .emit .check
  let blobs ← .lift (chunk.1.mapM (rawImage loaded))
  let vectors ← .lift (encodeChecked N ctx blobs)
  .emit .check
  .emit (.upsert chunk.1)
  .emit .check
  .emit (.report .embedding (reused + chunkEnd chunk.2 total))
  return embed (chunk.1.zip vectors) photos

/-- Give photos the vectors that are stored, if these are used again. -/
def embedStored (stored : Int → Option V) (photos : List (PhotoState V)) : List (PhotoState V) :=
  if ctx.reuseVectors then photos.map fun p => { p with embedding := stored p.id } else photos

/-- The ids of the photos to embed. -/
def pendingIds (photos : List (PhotoState V)) : List Int :=
  ((if ctx.reuseVectors then photos.filter fun p => p.embedding.isNone else photos)).map
    PhotoState.id

def embedAll (loaded : List (LoadedImage B I)) (photos : List (PhotoState V)) :
    Program (List (PhotoState V)) := do
  let pending := pendingIds ctx photos
  let reused := photos.length - pending.length
  if reused ≠ 0 then .emit (.report .embedding reused)
  (chunks 16 pending).zipIdx.foldlM (embedChunk N ctx loaded reused pending.length) photos

/-! ### The other steps -/

/-- `stage` -/
def stage {α : Type} (total : Nat) (step : ProcessStep) (operation : Program α) : Program α := do
  .emit .check
  .emit (.report step 0)
  .emit .check
  let value ← operation
  .emit .check
  .emit (.report step total)
  return value

def clockStage (photos : List (PhotoState V)) :
    Except Raised (List (PhotoState V) × List ClockOffset) := do
  correctClocks N photos (← threshold ctx "clock_pair_min_sim") (← threshold ctx "clock_min_pairs")
    (← threshold ctx "clock_offset_tolerance_sec")

def locatingStage (photos : List (PhotoState V)) : Except Raised (List (PhotoState V)) := do
  locatePhotos N photos request.period (← threshold ctx "inherit_min_sim")

/-- CLUSTERING up to the agent. -/
def rulesStage (photos : List (PhotoState V)) : Except Raised (List (PhotoState V)) := do
  let clustered ←
    clusterPhotos N photos (← threshold ctx "dbscan_eps_m") (← threshold ctx "min_samples")
  let assigned ← assignUnlocated N clustered request.period (← threshold ctx "inherit_min_sim")
    (← threshold ctx "interpolate_max_gap_min")
  return assigned.photos

/-- The agent step, if it is on. -/
def agentStage (photos : List (PhotoState V)) : Program (List (PhotoState V)) :=
  match ctx.agent with
  | none => return photos
  | some agent => do
      (List.range agent.calls).forM fun n =>
        .emit (.report .clustering (min (n + 1) (request.attachments.length - 1)))
      let result ← .lift (runAgent N agent.py agent.prompts agent.world
        (ctx.thresholds "agent_same_photo_min_sim").isSome photos request)
      return result.photos

def clusteringStage (photos : List (PhotoState V)) : Program (List (PhotoState V)) := do
  let photos ← .lift (rulesStage N ctx request photos)
  agentStage N ctx request photos

/-- `measure_images` -/
def measureImages (loaded : List (LoadedImage B I)) : Except Raised (List (Int × PhotoMetrics)) :=
  loaded.mapM fun l =>
    if !ctx.hasPixels l.image then
      fail ("지표 측정 대상 이미지가 유효하지 않음: " ++ toString l.id)
    else
      match ctx.measure l.image with
      | some m => .ok (l.id, m)
      | none => fail ("사진 지표 측정 실패: " ++ toString l.id)

/-- `{**ctx.photo_metrics, **measured}` -/
def allMetrics (measured : List (Int × PhotoMetrics)) (id : Int) : Option PhotoMetrics :=
  ((measured.find? fun m => m.1 = id).map Prod.snd).or (ctx.photoMetrics id)

def filteringStage (loaded : List (LoadedImage B I)) (photos : List (PhotoState V)) :
    Except Raised (List (PhotoState V) × List (Int × ℚ)) := do
  let measured ← measureImages ctx loaded
  filterPhotos N photos (allMetrics ctx measured) (← threshold ctx "blur_var_min")
    (← threshold ctx "phash_max_dist")

/-- Folders with nothing to show are given up, if the agent is on. -/
def release (photos : List (PhotoState V)) : List (PhotoState V) :=
  if ctx.agent.isSome then (releaseUnshowableNewPlaces photos).1 else photos

/-- The steps from CLOCK on. -/
def settleStages (loaded : List (LoadedImage B I)) (photos : List (PhotoState V)) :
    Program ProcessResult := do
  let total := request.attachments.length
  let (timed, offsets) ← stage total .clock (.lift (clockStage N ctx photos))
  let located ← stage total .locating (.lift (locatingStage N ctx request timed))
  let placed ← stage total .clustering (clusteringStage N ctx request located)
  let (filtered, variances) ← stage total .filtering (.lift (filteringStage N ctx loaded placed))
  let released := release ctx filtered
  stage total .finalizing (.lift (finalizePhotos N released variances offsets))

/-! ### The run -/

/-- The vectors of photos that are stored, and the photos to download. -/
def startStage : Program ((Int → Option V) × List ProcessAttachment) :=
  if ctx.reuseVectors then do
    let ids := request.attachments.map ProcessAttachment.tripAttachmentId
    .emit (.fetch ids)
    let stored := ctx.fetch ids
    .emit .check
    return (stored, downloadsOf ctx request stored)
  else return (fun _ => none, request.attachments)

/-- The body of `run`. -/
def run : Program ProcessResult := do
  let total := request.attachments.length
  .emit .check
  .lift (checkRequest ctx request)
  .emit (.report .downloading 0)
  let (stored, downloads) ← startStage ctx request
  let skipped := total - downloads.length
  if skipped ≠ 0 then .emit (.report .downloading skipped)
  let loaded ← download ctx skipped downloads
  .emit .check
  .emit (.report .embedding 0)
  let photos ← embedAll N ctx loaded (embedStored ctx stored (buildPhotoStates request))
  let result ← settleStages N ctx request loaded photos
  .emit .check
  .emit .leave
  return result

/-- `run`: what is raised is a `PipelineError`. -/
def runPipeline (interrupt : List Event → Option Raised) : Except PipelineError ProcessResult :=
  match (run N ctx request).execute interrupt with
  | .ok result => .ok result
  | .error (.pipeline e) => .error e
  | .error .other => .error (.failed "사진 정리 파이프라인 실행 실패")

/-! ### What a run comes to -/

section Outcomes

variable {N ctx request} {loaded : List (LoadedImage B I)} {photos : List (PhotoState V)}
  {skipped : Nat} {downloads : List ProcessAttachment} {interrupt : List Event → Option Raised}
  {result : ProcessResult}

@[simp] theorem outcome_stage {α : Type} (total : Nat) (step : ProcessStep)
    (operation : Program α) : (stage total step operation).outcome = operation.outcome := by
  simp [stage]

theorem outcome_forM {γ : Type} (f : γ → Event) (zs : List γ) :
    (zs.forM fun z => (Script.emit (f z) : Program PUnit)).outcome = .ok ⟨⟩ := by
  induction zs with
  | nil => rfl
  | cons z zs ih =>
      change (Script.emit (f z) >>= fun _ => zs.forM fun z => Script.emit (f z)).outcome = _
      rw [Script.outcome_bind, Script.outcome_emit, except_ok_bind, ih]

/-- The agent step, its reports apart. -/
def agentPhotos (N : Numerics V) (ctx : Context B I V) (request : ProcessRequest)
    (photos : List (PhotoState V)) : Except Raised (List (PhotoState V)) :=
  match ctx.agent with
  | none => .ok photos
  | some agent => do
      let result ← runAgent N agent.py agent.prompts agent.world
        (ctx.thresholds "agent_same_photo_min_sim").isSome photos request
      return result.photos

theorem outcome_agentStage :
    (agentStage N ctx request photos).outcome = agentPhotos N ctx request photos := by
  unfold agentStage agentPhotos
  cases ctx.agent with
  | none => rfl
  | some agent =>
      dsimp only
      rw [Script.outcome_bind, outcome_forM, except_ok_bind, Script.outcome_bind,
        Script.outcome_lift]
      rfl

/-- What the steps from CLOCK on make of the photos, one after the other. -/
structure Settles (N : Numerics V) (ctx : Context B I V) (request : ProcessRequest)
    (loaded : List (LoadedImage B I)) (photos : List (PhotoState V)) (result : ProcessResult)
    (timed located ruled placed filtered : List (PhotoState V)) (offsets : List ClockOffset)
    (variances : List (Int × ℚ)) : Prop where
  clock : clockStage N ctx photos = .ok (timed, offsets)
  locate : locatingStage N ctx request timed = .ok located
  rules : rulesStage N ctx request located = .ok ruled
  agent : agentPhotos N ctx request ruled = .ok placed
  filter : filteringStage N ctx loaded placed = .ok (filtered, variances)
  finalize : finalizePhotos N (release ctx filtered) variances offsets = .ok result

theorem settleStages_eq_ok : (settleStages N ctx request loaded photos).outcome = .ok result ↔
    ∃ timed located ruled placed filtered offsets variances, Settles N ctx request loaded photos
      result timed located ruled placed filtered offsets variances := by
  simp only [settleStages, clusteringStage, Script.outcome_bind, outcome_stage, Script.outcome_lift,
    outcome_agentStage, except_bind_eq_ok]
  constructor
  · rintro ⟨⟨timed, offsets⟩, hclock, located, hlocate, placed, ⟨ruled, hrules, hagent⟩,
      ⟨filtered, variances⟩, hfilter, hfinalize⟩
    exact ⟨timed, located, ruled, placed, filtered, offsets, variances, hclock, hlocate, hrules,
      hagent, hfilter, hfinalize⟩
  · rintro ⟨timed, located, ruled, placed, filtered, offsets, variances, h⟩
    exact ⟨(timed, offsets), h.clock, located, h.locate, placed, ⟨ruled, h.rules, h.agent⟩,
      (filtered, variances), h.filter, h.finalize⟩

/-- A chunk downloaded, its events apart. -/
theorem outcome_download : (download ctx skipped downloads).outcome = (do
    let state ← (chunks 16 downloads).zipIdx.foldlM
      (fun state chunk => loadImages ctx chunk.2 state chunk.1) {}
    if state.failed ≠ [] then .error (.pipeline (.decodeFailed state.failed))
    else return state.loaded) := by
  unfold download downloadChunk
  rw [Script.outcome_bind, Script.outcome_foldlM]
  simp only [Script.outcome_bind, Script.outcome_emit, Script.outcome_lift, except_ok_bind,
    Script.outcome_pure, except_bind_ok]
  refine congrArg _ (funext fun state => ?_)
  split <;> rfl

theorem outcome_embedAll : (embedAll N ctx loaded photos).outcome =
    (chunks 16 (pendingIds ctx photos)).zipIdx.foldlM (fun photos chunk => do
      let blobs ← chunk.1.mapM (rawImage loaded)
      let vectors ← encodeChecked N ctx blobs
      return embed (chunk.1.zip vectors) photos) photos := by
  have hchunk : ∀ (reused total : Nat) (photos : List (PhotoState V)) (chunk : List Int × Nat),
      (embedChunk N ctx loaded reused total photos chunk).outcome = (do
        let blobs ← chunk.1.mapM (rawImage loaded)
        let vectors ← encodeChecked N ctx blobs
        return embed (chunk.1.zip vectors) photos) := by
    intro reused total photos chunk
    unfold embedChunk
    simp only [Script.outcome_bind, Script.outcome_emit, Script.outcome_lift, except_ok_bind,
      Script.outcome_pure]
    rfl
  unfold embedAll
  dsimp only
  split
  · rw [Script.outcome_bind, Script.outcome_emit, except_ok_bind, Script.outcome_foldlM]
    simp only [hchunk]
  · rw [Script.outcome_foldlM]
    simp only [hchunk]

/-- The vectors stored, where a run asks for them. -/
def storedOf (ctx : Context B I V) (request : ProcessRequest) : Int → Option V :=
  if ctx.reuseVectors then ctx.fetch (request.attachments.map ProcessAttachment.tripAttachmentId)
  else fun _ => none

/-- The photos a run downloads. -/
def runDownloads (ctx : Context B I V) (request : ProcessRequest) : List ProcessAttachment :=
  if ctx.reuseVectors then downloadsOf ctx request (storedOf ctx request) else request.attachments

/-- **A run that returns, in its parts.** -/
theorem run_eq_ok : (run N ctx request).outcome = .ok result ↔
    checkRequest ctx request = .ok ⟨⟩ ∧
    ∃ loaded photos,
      (download ctx (request.attachments.length - (runDownloads ctx request).length)
        (runDownloads ctx request)).outcome = .ok loaded ∧
      (embedAll N ctx loaded (embedStored ctx (storedOf ctx request)
        (buildPhotoStates request))).outcome = .ok photos ∧
      (settleStages N ctx request loaded photos).outcome = .ok result := by
  have hstart : (startStage ctx request).outcome =
      .ok (storedOf ctx request, runDownloads ctx request) := by
    cases hreuse : ctx.reuseVectors with
    | true =>
        have hstored : storedOf ctx request =
            ctx.fetch (request.attachments.map ProcessAttachment.tripAttachmentId) := by
          rw [storedOf, hreuse, if_pos rfl]
        rw [startStage, runDownloads, hreuse, if_pos rfl, if_pos rfl, hstored]
        rfl
    | false =>
        rw [startStage, runDownloads, storedOf, hreuse, if_neg nofun, if_neg nofun, if_neg nofun]
        rfl
  unfold run
  simp only [Script.outcome_bind, Script.outcome_emit, except_ok_bind, Script.outcome_lift, hstart,
    apply_ite Script.outcome, ite_self, Script.outcome_pure, except_bind_ok, except_bind_eq_ok]
  constructor
  · rintro ⟨⟨⟩, hcheck, loaded, hload, photos, hembed, hsettle⟩
    exact ⟨hcheck, loaded, photos, hload, hembed, hsettle⟩
  · rintro ⟨hcheck, loaded, photos, hload, hembed, hsettle⟩
    exact ⟨⟨⟩, hcheck, loaded, hload, photos, hembed, hsettle⟩

end Outcomes

end Yeodam.Pipeline
