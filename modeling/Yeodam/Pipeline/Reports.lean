/-
What a run reports (`on_progress`).

A run reports from its chunk loops, from the steps as a whole and, through the agent, once for
each call of the model; a heartbeat repeats the last report at any time. `monitor` is what these
reports have to satisfy one after the other, and `run_meets` that they do, whatever is reused and
however the model behaves. `heard_wellFormed` says the same of the calls that are heard, the run
interrupted or not.
-/

import Mathlib.Data.List.Chain
import Yeodam.Pipeline.Run

namespace Yeodam.Pipeline

open Yeodam.Lib Yeodam.Schemas

/-! ### Well-formed reports -/

/-- The step after a step. -/
def nextStep : ProcessStep → Option ProcessStep
  | .downloading => some .embedding
  | .embedding => some .clock
  | .clock => some .locating
  | .locating => some .clustering
  | .clustering => some .filtering
  | .filtering => some .finalizing
  | .finalizing => none

/-- The place of a step. -/
def stepRank : ProcessStep → Nat
  | .downloading => 0
  | .embedding => 1
  | .clock => 2
  | .locating => 3
  | .clustering => 4
  | .filtering => 5
  | .finalizing => 6

/-- A call of `on_progress`: the step, the photos done and the total. -/
abbrev ProgressCall := ProcessStep × Nat × Nat

/-- Two calls, one right after the other: of one step, or of a finished step and the next. -/
def ProgressCall.Next (total : Nat) (a b : ProgressCall) : Prop :=
  (a.1 = b.1 ∧ a.2.1 ≤ b.2.1) ∨ (nextStep a.1 = some b.1 ∧ a.2.1 = total)

/-- The calls of one run. -/
structure WellFormed (total : Nat) (calls : List ProgressCall) : Prop where
  totals : ∀ c ∈ calls, c.2.2 = total
  bounded : ∀ c ∈ calls, c.2.1 ≤ total
  starts : ∀ c, calls.head? = some c → c.1 = .downloading
  /-- The steps come in their order, none is left before it is done, and within one the photos
  done do not decrease. -/
  chain : calls.IsChain (ProgressCall.Next total)
  /-- No call goes back to an earlier step. -/
  ordered : calls.Pairwise fun a b => stepRank a.1 < stepRank b.1 ∨ a.1 = b.1 ∧ a.2.1 ≤ b.2.1

/-! ### The monitor -/

/-- The last report. -/
abbrev Position := Option (ProcessStep × Nat)

/-- A report may come after the last one. -/
def follows (total : Nat) (last : Position) (report : ProcessStep × Nat) : Bool :=
  report.2 ≤ total && match last with
    | none => report.1 = .downloading
    | some before =>
        (before.1 = report.1 && before.2 ≤ report.2) ||
          (nextStep before.1 = some report.1 && before.2 = total)

def reportAfter (total : Nat) (last : Position) (report : ProcessStep × Nat) : Option Position :=
  if follows total last report then some (some report) else none

def monitor (total : Nat) (last : Position) : Event → Option Position
  | .report step done => reportAfter total last (step, done)
  | _ => some last

/-- The reports among the events. -/
def reportsOf (events : List Event) : List (ProcessStep × Nat) :=
  events.filterMap fun e =>
    match e with
    | .report step done => some (step, done)
    | _ => none

variable {B I V : Type} {N : Numerics V} {ctx : Context B I V} {request : ProcessRequest}
  {total done before : Nat} {step prev : ProcessStep} {last last' : Position}

theorem foldlM_monitor (events : List Event) :
    events.foldlM (monitor total) last = (reportsOf events).foldlM (reportAfter total) last := by
  induction events generalizing last with
  | nil => rfl
  | cons e events ih =>
      rw [List.foldlM_cons]
      cases e with
      | report step done =>
          change _ = ((step, done) :: reportsOf events).foldlM (reportAfter total) last
          rw [List.foldlM_cons]
          exact congrArg _ (funext fun last => ih)
      | check | fetch | upsert | leave => exact ih

theorem reportAfter_eq_some {report : ProcessStep × Nat} :
    reportAfter total last report = some last' ↔
      follows total last report = true ∧ last' = some report := by
  unfold reportAfter
  split
  · rename_i hfollows
    rw [Option.some.injEq]
    exact ⟨fun h => ⟨hfollows, h.symm⟩, fun h => h.2.symm⟩
  · rename_i hfollows
    exact iff_of_false nofun fun h => hfollows h.1

/-- Reports that pass are in order, and the last one is where the monitor ends. -/
theorem foldlM_reportAfter {reports : List (ProcessStep × Nat)}
    (h : reports.foldlM (reportAfter total) last = some last') :
    last' = reports.getLast?.or last ∧ (∀ r ∈ reports, r.2 ≤ total) ∧
      (last.toList ++ reports).IsChain fun a b => follows total (some a) b = true := by
  induction reports generalizing last with
  | nil =>
      cases h
      refine ⟨rfl, fun r hr => absurd hr List.not_mem_nil, ?_⟩
      cases last' <;> simp
  | cons r reports ih =>
      rw [List.foldlM_cons, Option.bind_eq_bind, Option.bind_eq_some_iff] at h
      obtain ⟨mid, hmid, h⟩ := h
      obtain ⟨hfollows, rfl⟩ := reportAfter_eq_some.mp hmid
      obtain ⟨hlast, hbounded, hchain⟩ := ih h
      have hr : r.2 ≤ total := of_decide_eq_true (Bool.and_eq_true_iff.mp hfollows).1
      refine ⟨?_, List.forall_mem_cons.mpr ⟨hr, hbounded⟩, ?_⟩
      · rw [hlast, List.getLast?_cons]
        cases reports.getLast? <;> rfl
      · cases last with
        | none => exact hchain
        | some l => exact List.IsChain.cons_cons hfollows hchain

/-! ### One step -/

variable {α : Type} {Q : Position → α → Prop}

theorem follows_same (hle : before ≤ done) (htotal : done ≤ total) :
    follows total (some (step, before)) (step, done) = true := by
  simp [follows, hle, htotal]

theorem follows_next (hnext : nextStep prev = some step) (htotal : done ≤ total) :
    follows total (some (prev, total)) (step, done) = true := by
  simp [follows, hnext, htotal]

theorem meets_report (h : follows total last (step, done) = true) :
    (.emit (.report step done) : Program PUnit).Meets (monitor total) last
      fun s _ => s = some (step, done) :=
  Script.meets_emit (reportAfter_eq_some.mpr ⟨h, rfl⟩) rfl

theorem meets_check :
    (.emit .check : Program PUnit).Meets (monitor total) last fun s _ => s = last :=
  Script.meets_emit rfl rfl

theorem meets_compute (x : Except Raised α) :
    (.lift x : Program α).Meets (monitor total) last fun s _ => s = last :=
  Script.meets_lift fun _ _ => rfl

/-- A step reports its start and its end. -/
theorem meets_stage {operation : Program α} (hnext : nextStep prev = some step)
    (h : operation.Meets (monitor total) (some (step, 0)) fun s _ =>
      ∃ done ≤ total, s = some (step, done)) :
    (stage total step operation).Meets (monitor total) (some (prev, total)) fun s _ =>
      s = some (step, total) := by
  refine meets_check.bind ?_
  rintro _ _ rfl
  refine (meets_report (follows_next hnext (Nat.zero_le _))).bind ?_
  rintro _ _ rfl
  refine meets_check.bind ?_
  rintro _ _ rfl
  apply h.bind
  rintro _ a ⟨done, hdone, rfl⟩
  refine meets_check.bind ?_
  rintro _ _ rfl
  refine (meets_report (follows_same hdone le_rfl)).bind ?_
  rintro _ _ rfl
  exact Script.meets_pure rfl

theorem meets_step (x : Except Raised α) : (.lift x : Program α).Meets (monitor total)
    (some (step, 0)) fun s _ => ∃ done ≤ total, s = some (step, done) :=
  Script.meets_lift fun _ _ => ⟨0, Nat.zero_le _, rfl⟩

/-- **The agent reports each call of the model**, short of the total. -/
theorem meets_agentStage (photos : List (PhotoState V)) :
    (agentStage N ctx request photos).Meets (monitor request.attachments.length)
      (some (.clustering, 0)) fun s _ =>
        ∃ done ≤ request.attachments.length, s = some (.clustering, done) := by
  unfold agentStage
  split
  · exact Script.meets_pure ⟨0, Nat.zero_le _, rfl⟩
  rename_i agent _
  let I : List Nat → Position → Prop := fun rest s => rest.Pairwise (· < ·) ∧
    ∃ done ≤ request.attachments.length, s = some (.clustering, done) ∧
      ∀ n ∈ rest, done ≤ min (n + 1) (request.attachments.length - 1)
  have hround : ∀ n rest s, I (n :: rest) s → (.emit (.report .clustering
      (min (n + 1) (request.attachments.length - 1))) : Program PUnit).Meets
        (monitor request.attachments.length) s fun s' _ => I rest s' := by
    rintro n rest s ⟨hsorted, done, hdone, rfl, hle⟩
    obtain ⟨hlt, hsorted⟩ := List.pairwise_cons.mp hsorted
    have hbound : min (n + 1) (request.attachments.length - 1) ≤ request.attachments.length := by
      omega
    refine (meets_report (follows_same (hle n List.mem_cons_self) hbound)).mono ?_
    rintro _ _ rfl
    refine ⟨hsorted, _, hbound, rfl, fun m hm => ?_⟩
    have hnm := hlt m hm
    omega
  have hstart : I (List.range agent.calls) (some (.clustering, 0)) :=
    ⟨List.pairwise_lt_range, 0, Nat.zero_le _, rfl, fun _ _ => Nat.zero_le _⟩
  refine (Script.meets_forM hround hstart).bind ?_
  rintro _ _ ⟨-, done, hdone, rfl, -⟩
  refine (meets_compute _).bind ?_
  rintro _ result rfl
  exact Script.meets_pure ⟨done, hdone, rfl⟩

theorem meets_clusteringStage (photos : List (PhotoState V)) :
    (clusteringStage N ctx request photos).Meets (monitor request.attachments.length)
      (some (.clustering, 0)) fun s _ =>
        ∃ done ≤ request.attachments.length, s = some (.clustering, done) := by
  refine (meets_compute _).bind ?_
  rintro _ photos rfl
  exact meets_agentStage photos

/-- **The steps from CLOCK on report in order.** -/
theorem meets_settleStages (loaded : List (LoadedImage B I)) (photos : List (PhotoState V)) :
    (settleStages N ctx request loaded photos).Meets (monitor request.attachments.length)
      (some (.embedding, request.attachments.length)) fun s _ =>
        s = some (.finalizing, request.attachments.length) := by
  refine (meets_stage rfl (meets_step _)).bind ?_
  rintro _ ⟨timed, offsets⟩ rfl
  refine (meets_stage rfl (meets_step _)).bind ?_
  rintro _ located rfl
  refine (meets_stage rfl (meets_clusteringStage located)).bind ?_
  rintro _ placed rfl
  refine (meets_stage rfl (meets_step _)).bind ?_
  rintro _ ⟨filtered, variances⟩ rfl
  exact meets_stage rfl (meets_step _)

/-! ### Chunks -/

section Chunks

variable {γ : Type} {base length : Nat} {f : α → γ × Nat → Program α}

/-- A loop over chunks reports what is done by the end of each. -/
theorem meets_chunkLoop (hround : ∀ a chunk, (f a chunk).Meets (monitor total)
      (some (step, base + min (16 * chunk.2) length)) fun s _ =>
        s = some (step, base + chunkEnd chunk.2 length)) (chunks : List γ) (n : Nat) (a : α) :
    ((chunks.zipIdx n).foldlM f a).Meets (monitor total)
      (some (step, base + min (16 * n) length)) fun s _ =>
        s = some (step, base + min (16 * (n + chunks.length)) length) := by
  induction chunks generalizing n a with
  | nil => exact Script.meets_pure rfl
  | cons chunk chunks ih =>
      rw [List.zipIdx_cons, List.foldlM_cons]
      apply (hround a (chunk, n)).bind
      rintro _ a rfl
      have hnext : n + 1 + chunks.length = n + (chunk :: chunks).length := by
        rw [List.length_cons]
        omega
      rw [← hnext]
      exact ih (n + 1) a

theorem follows_chunk (n : Nat) (htotal : base + length ≤ total) :
    follows total (some (step, base + min (16 * n) length))
      (step, base + chunkEnd n length) = true := by
  unfold chunkEnd
  exact follows_same (by omega) (by omega)

/-- All chunks together are the whole list. -/
theorem min_chunks {xs : List γ} :
    min (16 * (0 + (chunks 16 xs).length)) xs.length = xs.length := by
  have hlength := length_le_chunks (n := 16) (by omega) xs
  omega

end Chunks

/-- **Downloading reports up to all photos.** -/
theorem meets_download {skipped : Nat} {downloads : List ProcessAttachment}
    (htotal : skipped + downloads.length = total) :
    (download ctx skipped downloads).Meets (monitor total) (some (.downloading, skipped)) fun s _ =>
      s = some (.downloading, total) := by
  have hround : ∀ (state : Downloaded B I) (chunk : List ProcessAttachment × Nat),
      (downloadChunk ctx skipped downloads.length state chunk).Meets (monitor total)
        (some (.downloading, skipped + min (16 * chunk.2) downloads.length)) fun s _ =>
          s = some (.downloading, skipped + chunkEnd chunk.2 downloads.length) := by
    intro state chunk
    refine meets_check.bind ?_
    rintro _ _ rfl
    refine (meets_compute _).bind ?_
    rintro _ state rfl
    refine meets_check.bind ?_
    rintro _ _ rfl
    refine (meets_report (follows_chunk chunk.2 htotal.le)).bind ?_
    rintro _ _ rfl
    exact Script.meets_pure rfl
  have hloop := meets_chunkLoop hround (chunks 16 downloads) 0 {}
  rw [min_chunks, htotal, Nat.mul_zero, Nat.zero_min, Nat.add_zero] at hloop
  apply hloop.bind
  rintro _ state rfl
  split
  · exact meets_compute _
  · exact Script.meets_pure rfl

/-- **Embedding reports up to all photos.** -/
theorem meets_embedAll (loaded : List (LoadedImage B I)) {photos : List (PhotoState V)}
    (htotal : photos.length = total) :
    (embedAll N ctx loaded photos).Meets (monitor total) (some (.embedding, 0)) fun s _ =>
      s = some (.embedding, total) := by
  have hle : (pendingIds ctx photos).length ≤ photos.length := by
    unfold pendingIds
    rw [List.length_map]
    split
    · exact List.length_filter_le _ _
    · exact le_rfl
  have hround : ∀ (photos' : List (PhotoState V)) (chunk : List Int × Nat),
      (embedChunk N ctx loaded (photos.length - (pendingIds ctx photos).length)
        (pendingIds ctx photos).length photos' chunk).Meets (monitor total)
        (some (.embedding, photos.length - (pendingIds ctx photos).length +
          min (16 * chunk.2) (pendingIds ctx photos).length)) fun s _ =>
          s = some (.embedding, photos.length - (pendingIds ctx photos).length +
            chunkEnd chunk.2 (pendingIds ctx photos).length) := by
    intro photos' chunk
    refine meets_check.bind ?_
    rintro _ _ rfl
    refine (meets_compute _).bind ?_
    rintro _ blobs rfl
    refine (meets_compute _).bind ?_
    rintro _ vectors rfl
    refine meets_check.bind ?_
    rintro _ _ rfl
    refine (Script.meets_emit rfl rfl :
      (.emit (.upsert chunk.1) : Program PUnit).Meets (monitor total) _ fun s _ => s = _).bind ?_
    rintro _ _ rfl
    refine meets_check.bind ?_
    rintro _ _ rfl
    refine (meets_report (follows_chunk chunk.2 (by omega))).bind ?_
    rintro _ _ rfl
    exact Script.meets_pure rfl
  have hloop := meets_chunkLoop hround (chunks 16 (pendingIds ctx photos)) 0 photos
  have hsum : photos.length - (pendingIds ctx photos).length + (pendingIds ctx photos).length =
      total := by
    omega
  rw [min_chunks, hsum, Nat.mul_zero, Nat.zero_min, Nat.add_zero] at hloop
  unfold embedAll
  dsimp only
  split
  · refine (meets_report (follows_same (Nat.zero_le _) (by omega))).bind ?_
    rintro _ _ rfl
    exact hloop
  · rename_i hnone
    rw [not_not] at hnone
    rw [hnone] at hloop ⊢
    exact hloop

/-! ### The run -/

/-- What is left to download is part of the photos. -/
theorem meets_startStage : (startStage ctx request).Meets (monitor total) last fun s e =>
    s = last ∧ e.2.length ≤ request.attachments.length := by
  unfold startStage
  split
  · refine (Script.meets_emit rfl rfl :
      (.emit (.fetch _) : Program PUnit).Meets (monitor total) _ fun s _ => s = last).bind ?_
    rintro _ _ rfl
    refine meets_check.bind ?_
    rintro _ _ rfl
    exact Script.meets_pure ⟨rfl, List.length_filter_le _ _⟩
  · exact Script.meets_pure ⟨rfl, le_rfl⟩

theorem length_embedStored (stored : Int → Option V) (photos : List (PhotoState V)) :
    (embedStored ctx stored photos).length = photos.length := by
  unfold embedStored
  split
  · exact List.length_map _
  · rfl

variable (N ctx request) in
/-- **A run reports in order**, up to all photos finalized where it returns. -/
theorem run_meets : (run N ctx request).Meets (monitor request.attachments.length) none fun s _ =>
    s = some (.finalizing, request.attachments.length) := by
  refine meets_check.bind ?_
  rintro _ _ rfl
  refine (meets_compute _).bind ?_
  rintro _ _ rfl
  have hfirst : follows request.attachments.length none (.downloading, 0) = true := by
    simp [follows]
  refine (meets_report hfirst).bind ?_
  rintro _ _ rfl
  refine meets_startStage.bind ?_
  rintro _ ⟨stored, downloads⟩ ⟨rfl, hle⟩
  dsimp only at hle ⊢
  have hskip : ∀ {α : Type} {rest : Program α} {Q : Position → α → Prop},
      rest.Meets (monitor request.attachments.length)
        (some (.downloading, request.attachments.length - downloads.length)) Q →
      (do
        if request.attachments.length - downloads.length ≠ 0 then
          .emit (.report .downloading (request.attachments.length - downloads.length))
        rest : Program α).Meets (monitor request.attachments.length)
          (some (.downloading, 0)) Q := by
    intro α rest Q hrest
    split
    · refine (meets_report (follows_same (Nat.zero_le _) (Nat.sub_le _ _))).bind ?_
      rintro _ _ rfl
      exact hrest
    · rename_i hnone
      rw [not_not] at hnone
      rw [hnone] at hrest
      exact hrest
  apply hskip
  refine (meets_download (Nat.sub_add_cancel hle)).bind ?_
  rintro _ loaded rfl
  refine meets_check.bind ?_
  rintro _ _ rfl
  refine (meets_report (follows_next rfl (Nat.zero_le _))).bind ?_
  rintro _ _ rfl
  have hlength : (embedStored ctx stored (buildPhotoStates request)).length =
      request.attachments.length := by
    rw [length_embedStored, buildPhotoStates, List.length_map]
  refine (meets_embedAll loaded hlength).bind ?_
  rintro _ photos rfl
  refine (meets_settleStages loaded photos).bind ?_
  rintro _ result rfl
  refine meets_check.bind ?_
  rintro _ _ rfl
  refine (Script.meets_emit rfl rfl :
    (.emit .leave : Program PUnit).Meets (monitor request.attachments.length) _ fun s _ =>
      s = some (.finalizing, request.attachments.length)).bind ?_
  rintro _ _ rfl
  exact Script.meets_pure rfl

/-! ### What is heard -/

/-- The calls of `on_progress` that a run makes and its heartbeat repeats. Where the run is
interrupted at a report, this one may not have been sent. -/
def Heard (N : Numerics V) (ctx : Context B I V) (request : ProcessRequest)
    (interrupt : List Event → Option Raised) (calls : List ProgressCall) : Prop :=
  ∃ sent heard, sent <+: reportsOf ((run N ctx request).passed interrupt) ∧
    (∀ result, (run N ctx request).execute interrupt = .ok result →
      sent = reportsOf ((run N ctx request).passed interrupt)) ∧
    Repeats sent heard ∧ calls = heard.map fun r => (r.1, r.2, request.attachments.length)

theorem reportAfter_again (report : ProcessStep × Nat)
    (h : reportAfter total last report = some last') :
    reportAfter total last' report = some last' := by
  obtain ⟨hfollows, rfl⟩ := reportAfter_eq_some.mp h
  have hbound : report.2 ≤ total := of_decide_eq_true (Bool.and_eq_true_iff.mp hfollows).1
  exact reportAfter_eq_some.mpr ⟨follows_same le_rfl hbound, rfl⟩

theorem next_of_follows {a b : ProcessStep × Nat} (h : follows total (some a) b = true) :
    ProgressCall.Next total (a.1, a.2, total) (b.1, b.2, total) := by
  simp only [follows, Bool.and_eq_true, Bool.or_eq_true, decide_eq_true_eq] at h
  exact h.2

theorem ProgressCall.Next.ordered {a b : ProgressCall} (h : ProgressCall.Next total a b) :
    stepRank a.1 < stepRank b.1 ∨ a.1 = b.1 ∧ a.2.1 ≤ b.2.1 := by
  rcases h with hsame | ⟨hnext, -⟩
  · exact .inr hsame
  · refine .inl ?_
    cases hstep : a.1 <;>
      simp only [hstep, nextStep, Option.some.injEq, reduceCtorEq] at hnext <;>
      simp only [← hnext, stepRank] <;> omega

/-- What the monitor lets pass is well formed. -/
theorem wellFormed_of_monitor {heard : List (ProcessStep × Nat)}
    (h : heard.foldlM (reportAfter total) none = some last) :
    WellFormed total (heard.map fun r => (r.1, r.2, total)) := by
  obtain ⟨-, hbounded, hchain⟩ := foldlM_reportAfter h
  have hnext : (heard.map fun r => ((r.1, r.2, total) : ProgressCall)).IsChain
      (ProgressCall.Next total) :=
    (List.isChain_map _).mpr (hchain.imp fun a b => next_of_follows)
  have htrans : IsTrans ProgressCall fun a b =>
      stepRank a.1 < stepRank b.1 ∨ a.1 = b.1 ∧ a.2.1 ≤ b.2.1 := by
    constructor
    rintro a b c (hab | ⟨hab, hle⟩) (hbc | ⟨hbc, hle'⟩)
    · exact .inl (hab.trans hbc)
    · exact .inl (hbc ▸ hab)
    · exact .inl (hab ▸ hbc)
    · exact .inr ⟨hab.trans hbc, hle.trans hle'⟩
  refine ⟨?_, ?_, ?_, hnext, (hnext.imp fun a b => ProgressCall.Next.ordered).pairwise⟩
  · intro c hc
    obtain ⟨r, -, rfl⟩ := List.mem_map.mp hc
    rfl
  · intro c hc
    obtain ⟨r, hr, rfl⟩ := List.mem_map.mp hc
    exact hbounded r hr
  · intro c hc
    cases heard with
    | nil => cases hc
    | cons r heard =>
        cases hc
        rw [List.foldlM_cons, Option.bind_eq_bind, Option.bind_eq_some_iff] at h
        obtain ⟨mid, hmid, -⟩ := h
        have hfirst := (Bool.and_eq_true_iff.mp (reportAfter_eq_some.mp hmid).1).2
        exact of_decide_eq_true hfirst

/-- **The calls of a run are well formed**, and those of one that returns end with all photos
finalized. -/
theorem heard_wellFormed {interrupt : List Event → Option Raised} {calls : List ProgressCall}
    (h : Heard N ctx request interrupt calls) :
    WellFormed request.attachments.length calls ∧
    ∀ result, (run N ctx request).execute interrupt = .ok result →
      calls.getLast? = some (.finalizing, request.attachments.length,
        request.attachments.length) := by
  obtain ⟨sent, heard, ⟨rest, hrest⟩, hreturns, hrepeats, rfl⟩ := h
  obtain ⟨s, hs⟩ := (run_meets N ctx request).passed interrupt
  rw [foldlM_monitor, ← hrest, List.foldlM_append, Option.bind_eq_bind,
    Option.bind_eq_some_iff] at hs
  obtain ⟨t, ht, -⟩ := hs
  have hheard := hrepeats.foldlM (fun _ r _ => reportAfter_again r) ht
  refine ⟨wellFormed_of_monitor hheard, fun result hresult => ?_⟩
  obtain ⟨s', hs', hdone⟩ := run_meets N ctx request
  rw [foldlM_monitor, ← Script.passed_of_execute hresult, ← hreturns result hresult, ht] at hs'
  cases hs'
  obtain rfl := hdone result (Script.execute_eq_ok.mp hresult).2
  have hlast := (foldlM_reportAfter hheard).1
  rw [Option.or_none] at hlast
  rw [List.getLast?_map, ← hlast]
  rfl

end Yeodam.Pipeline
