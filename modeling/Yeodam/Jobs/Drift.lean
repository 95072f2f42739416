/-
What becomes of the times in a result: from the pipeline through `finish` to the topic.

`process_handler` dumps the result of the pipeline, `finish` reads and renders it again,
and so does every later read of the record. `finish_noDrift_iff` says when nothing is
lost on the way: the stored event is then a fixed point of this cycle, its times are the
pipeline's, and every publication carries it. That is so exactly if no time that is
stored falls on an offset of Seoul with seconds; one before April 1908 does
(`dumped_drifts`).
-/

import Yeodam.Jobs.Terminal

namespace Yeodam.Jobs

open Yeodam.Lib Yeodam.Schemas

section

variable {env : Env} {now : Time} {i owner : String} {raw record r : JobRecord}
  {e : JobResultEvent} {result : Value} {ts : List AwareTime}

/-! ### The times of a result -/

/-- The instant of the time is one that some text denotes. -/
def Denoted (lib : Libraries) (t : AwareTime) : Prop :=
  ∃ v u, lib.awareDatetime v = some u ∧ u.instant = t.instant

/-- `Produced lib type result ts`: the pipeline produced the times `ts` where `finish` is
given `result`. -/
inductive Produced (lib : Libraries) : EventType → Value → List AwareTime → Prop where
  /-- A story has no times. -/
  | story {result : Value} : Produced lib .storyResult result []
  /-- The handler returns the JSON form of its result. -/
  | read {result : Value} {p : ProcessResult} :
      ProcessResult.validate lib result = some p → Produced lib .processResult result p.times
  /-- `process_handler` dumps the `ProcessResult` of the pipeline. -/
  | dumped {p : ProcessResult} {result : Value} :
      p.Valid → (∀ t ∈ p.times, Denoted lib t) → p.render lib = some result →
      Produced lib .processResult result p.times

/-- The times in the result of an event, as a reader of its JSON text finds them. -/
def JobResultEvent.times (lib : Libraries) (e : JobResultEvent) : List AwareTime :=
  match e.type, e.result with
  | .processResult, some result =>
      ((ProcessResult.validate lib result).map ProcessResult.times).getD []
  | _, _ => []

/-- A result through `check_payload` has the times its own text denotes. -/
theorem rendered_times (hlib : env.libraries.Written) {p : ProcessResult} {rendered : Value}
    (h : ProcessResult.validate env.libraries result = some p)
    (hrender : p.render env.libraries = some rendered) :
    ProcessResult.validate env.libraries rendered =
      some (p.mapTimes (reread env.libraries)) := by
  obtain ⟨hread, hvalid⟩ := ProcessResult.validate_cases h
  refine ProcessResult.validate_reread hlib.lawful hvalid (fun t ht => ?_) hrender
  obtain ⟨v, hv⟩ := hread t ht
  exact hlib.written v t hv

/-- What `finish` reads of a result that was dumped. -/
theorem dumped_times (hlib : env.libraries.Written) {p : ProcessResult} (hvalid : p.Valid)
    (hdenoted : ∀ t ∈ p.times, Denoted env.libraries t)
    (hrender : p.render env.libraries = some result) :
    ProcessResult.validate env.libraries result =
      some (p.mapTimes (reread env.libraries)) := by
  refine ProcessResult.validate_reread hlib.lawful hvalid (fun t ht => ?_) hrender
  obtain ⟨v, u, hv, hu⟩ := hdenoted t ht
  have hread := hlib.written v u hv
  rwa [Rereads, renderKst_congr hu, reread, inSeoul_congr hu] at hread

/-- Reading a list of times back leaves every instant where it was exactly if every offset
is a number of whole minutes. -/
theorem instants_reread_iff {lib : Libraries} (hlib : lib.Written) :
    (ts.map (reread lib)).map AwareTime.instant = ts.map AwareTime.instant ↔
      ∀ t ∈ ts, WholeMinutes lib t := by
  rw [List.map_map, List.map_inj_left]
  exact forall₂_congr fun t _ => instant_reread_eq_iff hlib t

/-- The same for a list that is read back twice. -/
theorem instants_reread_twice_iff {lib : Libraries} (hlib : lib.Written) :
    ((ts.map (reread lib)).map (reread lib)).map AwareTime.instant =
      ts.map AwareTime.instant ↔ ∀ t ∈ ts, WholeMinutes lib t := by
  rw [List.map_map, List.map_map, List.map_inj_left]
  apply forall₂_congr
  intro t _
  rw [← instant_reread_eq_iff hlib t]
  have hfirst := instant_reread_le hlib t
  have hsecond := instant_reread_le hlib (reread lib t)
  constructor
  · intro h
    have h' : (reread lib (reread lib t)).instant = t.instant := h
    omega
  · intro h
    have hwhole : WholeMinutes lib t := (instant_reread_eq_iff hlib t).mp h
    change (reread lib (reread lib t)).instant = t.instant
    rw [reread_of_whole hwhole]
    have hagain : WholeMinutes lib (inSeoul lib t) := by
      rw [WholeMinutes, inSeoul_inSeoul]
      exact hwhole
    rw [reread_of_whole hagain, inSeoul_inSeoul, instant_inSeoul]

/-! ### A steady event -/

/-- Nothing is lost of the event `e` that `finish` stored: it is a fixed point of loading,
validating and dumping, its times are those the pipeline produced, and in every
continuation the record keeps it and every message carries it. -/
structure NoDrift (env : Env) (i : String) (ts : List AwareTime) (e : JobResultEvent)
    (x : Exchange) : Prop where
  fixed : e.checkPayload env = .ok e ∧ e.wire = e
  instants : e.result.isSome = true →
    (e.times env.libraries).map AwareTime.instant = ts.map AwareTime.instant
  kept : ∀ as y, Run (ExchangeStep env) x as y →
    ∃ r, y.world.store.jobs i = some r ∧ r.event = some e
  published : ∀ as y, Run (ExchangeStep env) x as y →
    ∀ m, m ∈ y.sent ∨ m ∈ y.topic → m.identity = i → m.event = e

/-- No time that is stored falls on an offset with seconds: the job was cancelled, the
result is not a result or too large, or every time of the pipeline is a whole one. -/
def KeepsTimes (env : Env) (record : JobRecord) (result : Value) (ts : List AwareTime) : Prop :=
  record.cancelRequested = false →
    ∀ rendered, renderResult env.libraries record.kind.eventType result = some rendered →
      (record.completed rendered).byteSize ≤ resultMaxBytes →
        ∀ t ∈ ts, WholeMinutes env.libraries t

variable {x y z : Exchange} {a : Action}

/-- The execution has ended with a settled event, and nothing else was sent for it. -/
structure EndedWith (env : Env) (i : String) (e : JobResultEvent) (x : Exchange) : Prop where
  reached : ExchangeReached env x
  record : ∃ r, x.world.store.jobs i = some r ∧ r.event = some e ∧ r.Settled env
  messages : ∀ m ∈ x.sent, m.identity = i → m.event = e

/-- **Step lemma.** Whatever happens next, a settled event stays. -/
theorem endedWith_of_step (hx : EndedWith env i e x) (h : ExchangeStep env x a y) :
    EndedWith env i e y := by
  obtain ⟨r, hr, he, hsettled⟩ := hx.record
  have hterm := terminal_of_event hx.reached hr he
  have hwritten := reached_written (reached_world hx.reached) hr
  have hrecord : ∃ r', y.world.store.jobs i = some r' ∧ r'.event = some e ∧ r'.Settled env := by
    rcases recordStep_of_exchange h i with hsame | ⟨ev, -, hstep⟩
    · exact ⟨r, hsame.trans hr, he, hsettled⟩
    · rw [hr] at hstep
      obtain ⟨stored, hstored, -⟩ := hstep.sameExecution
      rw [hstored] at hstep
      have hend := hstep.sameEnd hterm hwritten hsettled
      refine ⟨stored, hstored, hend.event.trans he, ?_⟩
      intro e' he'
      rw [hend.event] at he'
      exact hsettled e' he'
  refine ⟨hx.reached.next h, hrecord, ?_⟩
  cases exchanged_of_step h with
  | @send time j p m _ _ hm =>
      intro m' hm' hi
      rcases List.mem_cons.mp hm' with rfl | hm'
      · obtain ⟨raw, record, stored, _, rfl, -, -, -, hevent, hjobs⟩ := Exchange.message_cases hm
        obtain ⟨r', hr', he', -⟩ := hrecord
        subst hi
        have hstored := (congrFun hjobs m'.identity).trans jobs_setJob_self
        obtain rfl : r' = stored := Option.some.inj (hr'.symm.trans hstored)
        exact Option.some.inj (hevent.symm.trans he')
      · exact hx.messages m' hm' hi
  | store | append | confirm | giveUp | acknowledge => exact hx.messages

theorem endedWith_of_run {as : List Action} (hx : EndedWith env i e x)
    (h : Run (ExchangeStep env) x as y) : EndedWith env i e y :=
  h.preserves (fun _ _ _ hx hst => endedWith_of_step hx hst) hx

/-- A settled end does not drift. -/
theorem EndedWith.noDrift (hx : EndedWith env i e x)
    (hinstants : e.result.isSome = true →
      (e.times env.libraries).map AwareTime.instant = ts.map AwareTime.instant) :
    NoDrift env i ts e x := by
  obtain ⟨r, hr, he, hsettled⟩ := hx.record
  have hwritten := reached_written (reached_world hx.reached) hr
  refine ⟨⟨(hsettled e he).check, hwritten.wire_event he⟩, hinstants, ?_, ?_⟩
  · intro as y hrun
    obtain ⟨r', hr', he', -⟩ := (endedWith_of_run hx hrun).record
    exact ⟨r', hr', he'⟩
  · intro as y hrun m hm hi
    have hy := endedWith_of_run hx hrun
    exact hy.messages m (hm.elim id ((reached_aligned hy.reached).appended m)) hi

/-! ### What `finish` stores -/

/-- The times a reader finds in a rendered result are the pipeline's exactly if all of
those are whole. -/
theorem stored_times_iff (hlib : env.libraries.Written) {rendered : Value}
    (hprod : Produced env.libraries e.type result ts)
    (hrender : renderResult env.libraries e.type result = some rendered)
    (he : e.result = some rendered) :
    (e.times env.libraries).map AwareTime.instant = ts.map AwareTime.instant ↔
      ∀ t ∈ ts, WholeMinutes env.libraries t := by
  generalize htype : e.type = type at hprod hrender
  cases hprod with
  | story => simp [JobResultEvent.times, htype]
  | @read _ p hp =>
      obtain ⟨p', hp', hrender⟩ := Option.bind_eq_some_iff.mp hrender
      obtain rfl : p = p' := Option.some.inj (hp.symm.trans hp')
      have htimes : e.times env.libraries = p.times.map (reread env.libraries) := by
        simp [JobResultEvent.times, htype, he, rendered_times hlib hp hrender]
      rw [htimes]
      exact instants_reread_iff hlib
  | @dumped p _ hvalid hdenoted hdumped =>
      obtain ⟨p', hp', hrender⟩ := Option.bind_eq_some_iff.mp hrender
      have hdump := dumped_times hlib hvalid hdenoted hdumped
      obtain rfl := Option.some.inj (hdump.symm.trans hp')
      have htimes : e.times env.libraries =
          (p.times.map (reread env.libraries)).map (reread env.libraries) := by
        simp [JobResultEvent.times, htype, he, rendered_times hlib hp' hrender]
      rw [htimes]
      exact instants_reread_twice_iff hlib

/-- The pipeline's times say whether `finish` reads whole ones. -/
theorem timesWhole_of_produced (hlib : env.libraries.Written) {type : EventType}
    (hprod : Produced env.libraries type result ts)
    (hwhole : ∀ t ∈ ts, WholeMinutes env.libraries t) : TimesWhole env.libraries type result := by
  rintro htype r hr t ht
  cases hprod with
  | story => cases htype
  | @read _ p hp =>
      obtain rfl : p = r := Option.some.inj (hp.symm.trans hr)
      exact hwhole t ht
  | @dumped p _ hvalid hdenoted hdumped =>
      obtain rfl := Option.some.inj ((dumped_times hlib hvalid hdenoted hdumped).symm.trans hr)
      rw [ProcessResult.times_mapTimes] at ht
      obtain ⟨u, hu, rfl⟩ := List.mem_map.mp ht
      have h := hwhole u hu
      rw [reread_of_whole h, WholeMinutes, inSeoul_inSeoul]
      exact h

/-- A job its worker owns has not ended. -/
theorem open_of_owns (hx : ExchangeReached env x) (hraw : x.world.store.jobs i = some raw)
    (hload : raw.load env = .ok record) (howns : owns env record owner now = true) :
    raw.event = none := by
  have hprocessing : raw.status = .processing := by
    rw [← JobRecord.status_eq_of_core (JobRecord.load_core hload)]
    exact (owns_iff.mp howns).1
  rw [(reached_outcome (reached_world hx) hraw).event, hprocessing]
  rfl

/-- What the owner's `finish` has stored, if it stored anything. -/
theorem finish_cases (hx : ExchangeReached env x)
    (h : ExchangeStep env x (.store ⟨now, .finish i owner .completed (some result) none⟩) y)
    (hraw : x.world.store.jobs i = some raw) (hload : raw.load env = .ok record)
    (howns : owns env record owner now = true) (hy : y.world.store.jobs i = some r)
    (he : r.event = some e) :
    ∃ ended, ended.dump env = .ok r ∧
      ((record.cancelRequested = true ∧ terminate env record .canceled none none = .ok ended) ∨
        (record.cancelRequested = false ∧
          terminate env record .completed (some result) none = .ok ended)) := by
  have hopen := open_of_owns hx hraw hload howns
  rcases recordStep_of_exchange h i with hsame | ⟨ev, hev, hstep⟩
  · obtain rfl : r = raw := Option.some.inj (hy.symm.trans (hsame.trans hraw))
    rw [hopen] at he
    cases he
  · cases hev
    rw [hraw, hy] at hstep
    cases hstep with
    | keep =>
        rw [hopen] at he
        cases he
    | @edited _ _ record' changed _ _ htarget hload' hedit hdump =>
        obtain rfl : record = record' := Except.ok.inj (hload.symm.trans hload')
        refine ⟨changed, hdump, ?_⟩
        cases hedit with
        | finish _ hc hterm => exact .inr ⟨hc, hterm⟩
        | stop _ _ hc hterm => exact .inl ⟨hc, hterm⟩

/-- The event of a result that passes its check and is small enough. -/
theorem completed_cases {ended : JobRecord}
    (hterm : terminate env record .completed (some result) none = .ok ended) :
    ∃ rendered, renderResult env.libraries record.kind.eventType result = some rendered ∧
      rendered.finite = true ∧
      (((record.completed rendered).byteSize ≤ resultMaxBytes ∧
          ended.event = some (record.completed rendered)) ∨
        (resultMaxBytes < (record.completed rendered).byteSize ∧
          ended.event.bind JobResultEvent.result = none)) := by
  obtain ⟨built, e, hbuilt, he, rfl⟩ := terminate_cases hterm
  obtain ⟨-, -, hresult⟩ := JobResultEvent.checkPayload_cases hbuilt
  rcases hresult with ⟨hnone, -⟩ | ⟨v, rendered, hv, hrender, hfinite, -, rfl⟩
  · cases hnone
  · obtain rfl : result = v := Option.some.inj hv
    refine ⟨rendered, hrender, hfinite, ?_⟩
    rcases JobResultEvent.enforceSizeLimit_cases he with ⟨rfl, hsize⟩ | ⟨rfl, -, hsize⟩
    · exact .inl ⟨hsize, rfl⟩
    · exact .inr ⟨hsize, rfl⟩

/-- **Stored results do not drift, exactly if their times are whole.** For whatever result
the owner finishes its job with, and the event that is stored for it. -/
theorem finish_noDrift_iff (hlib : env.libraries.Written) (hx : ExchangeReached env x)
    (h : ExchangeStep env x (.store ⟨now, .finish i owner .completed (some result) none⟩) y)
    (hraw : x.world.store.jobs i = some raw) (hload : raw.load env = .ok record)
    (howns : owns env record owner now = true)
    (hprod : Produced env.libraries record.kind.eventType result ts)
    (hy : y.world.store.jobs i = some r) (he : r.event = some e) :
    NoDrift env i ts e y ↔ KeepsTimes env record result ts := by
  obtain ⟨ended, hdump, hended⟩ := finish_cases hx h hraw hload howns hy he
  have hbounded := (reached_bounded (reached_world hx) hraw).of_core (JobRecord.load_core hload)
  have hwire : ended.event.map JobResultEvent.wire = some e := by
    obtain ⟨rfl, -, -⟩ := JobRecord.dump_cases hdump
    exact he
  constructor
  · intro hdrift hc rendered hrender hsize
    rcases hended with ⟨hcancelled, -⟩ | ⟨-, hterm⟩
    · rw [hc] at hcancelled
      cases hcancelled
    · obtain ⟨rendered', hrender', hfinite, hstored⟩ := completed_cases hterm
      obtain rfl : rendered = rendered' := Option.some.inj (hrender.symm.trans hrender')
      rcases hstored with ⟨-, hevent⟩ | ⟨hlarge, -⟩
      · rw [hevent] at hwire
        obtain rfl := Option.some.inj hwire
        have hresult : (record.completed rendered).wire.result = some rendered := by
          simp [JobResultEvent.wire, JobRecord.completed, Value.wire_of_finite hfinite]
        have hinstants := hdrift.instants (by rw [hresult]; rfl)
        exact (stored_times_iff hlib hprod hrender hresult).mp hinstants
      · omega
  · intro hkeeps
    have hsettled : ended.Settled env := by
      intro e' he'
      rcases hended with ⟨-, hterm⟩ | ⟨hc, hterm⟩
      · exact terminate_settled hlib.lawful hbounded (by simp) hterm he'
      · refine terminate_settled hlib.lawful hbounded ?_ hterm he'
        rintro - - v hv rendered hrender hsize
        cases hv
        exact timesWhole_of_produced hlib hprod (hkeeps hc rendered hrender hsize)
    have hsent : ∀ m ∈ x.sent, m.identity ≠ i := by
      rintro m hm rfl
      obtain ⟨r', e', hr', he', -⟩ := (reached_aligned hx).announced m hm
      obtain rfl : r' = raw := Option.some.inj (hr'.symm.trans hraw)
      rw [open_of_owns hx hraw hload howns] at he'
      cases he'
    have hend : EndedWith env i e y := by
      refine ⟨hx.next h, ⟨r, hy, he, hsettled.dump hdump⟩, fun m hm hi => ?_⟩
      cases exchanged_of_step h with
      | store => exact absurd hi (hsent m hm)
    apply hend.noDrift
    intro hresult
    rcases hended with ⟨-, hterm⟩ | ⟨hc, hterm⟩
    · rw [terminate_notice hbounded (by decide) (by simp) (by simp)] at hterm
      cases hterm
      cases hwire
      cases hresult
    · obtain ⟨rendered, hrender, hfinite, hstored⟩ := completed_cases hterm
      rcases hstored with ⟨hsize, hevent⟩ | ⟨-, hnone⟩
      · rw [hevent] at hwire
        obtain rfl := Option.some.inj hwire
        have hresult : (record.completed rendered).wire.result = some rendered := by
          simp [JobResultEvent.wire, JobRecord.completed, Value.wire_of_finite hfinite]
        exact (stored_times_iff hlib hprod hrender hresult).mpr (hkeeps hc rendered hrender hsize)
      · obtain ⟨e₀, he₀, rfl⟩ := Option.map_eq_some_iff.mp hwire
        rw [he₀] at hnone
        simp only [Option.bind_some] at hnone
        simp [JobResultEvent.wire, hnone] at hresult

end

/-! ### Around the end of local mean time -/

/-- Times as pydantic reads and writes them: one of today, one of the last eight seconds of
local mean time in Seoul with what becomes of it, and one that is past the last year there. -/
def changeoverTimes : List (String × AwareTime) :=
  [("2024-05-01T10:00:00+09:00", ⟨1714557600000000, 32400⟩),
   ("1908-04-01T00:32:00+09:00", ⟨-1948750080000000, 32400⟩),
   ("1908-03-31T23:59:52+08:27", ⟨-1948752008000000, 30420⟩),
   ("1908-04-01T00:02:52+08:30", ⟨-1948751828000000, 30600⟩),
   ("9999-12-31T23:59:59Z", ⟨253402300799000000, 0⟩)]

def changeoverLibraries : Libraries :=
  { sampleLibraries with
    awareDatetime := fun
      | .str (.text s) => changeoverTimes.lookup s
      | _ => none
    renderTime := fun t => ((changeoverTimes.find? fun entry =>
      entry.2.wall = t.wall ∧ entry.2.offset = t.offset.tdiv 60 * 60).map Prod.fst).getD ""
    -- 1 April 1908, when Seoul went from 08:27:52 to 08:30, and 1 January 1912.
    seoulOffset := fun instant =>
      if instant < -1948782472000000 then 30472
      else if instant < -1830414600000000 then 30600 else 32400 }

def changeoverEnv : Env := { sampleEnv with libraries := changeoverLibraries }

theorem written_changeoverLibraries : changeoverLibraries.Written := by
  refine ⟨fun _ => rfl, fun _ => rfl, ?_, ?_⟩
  · intro v t h
    cases v with
    | str s =>
        cases s with
        | text s =>
            obtain ⟨before, rest, hsplit, -⟩ := List.lookup_eq_some_iff.mp h
            have hmem : (s, t) ∈ changeoverTimes := by simp [hsplit]
            have hall : ∀ entry ∈ changeoverTimes,
                Rereads changeoverLibraries entry.2 (reread changeoverLibraries entry.2) := by
              decide +kernel
            exact hall (s, t) hmem
        | surrogate => cases h
    | _ => cases h
  · intro instant
    simp only [changeoverLibraries]
    split
    · decide
    · split <;> decide

/-- A result of the pipeline with one photo without a place, taken at the given time. -/
def photoAt (t : AwareTime) : ProcessResult where
  places := []
  unclassified := [
    { tripAttachmentId := 1
      issue := .unclearLocation
      placeId := none
      duplicateOfAttachmentId := none
      takenAt := some t
      latitude := none
      longitude := none
      regionOrigin := .unknown
      evaluation := none }]
  failed := []
  clockOffsets := []

theorem valid_photoAt (t : AwareTime) : (photoAt t).Valid := by
  refine ⟨by simp [photoAt], ?_, by simp [photoAt], by simp [photoAt, ProcessResult.ids]⟩
  intro a ha
  obtain rfl := List.mem_singleton.mp ha
  exact ⟨by simp, by simp⟩

/-- Its dump, if there is one. -/
def dumpedAt (t : AwareTime) : Value := ((photoAt t).render changeoverLibraries).getD .null

theorem render_photoAt {t : AwareTime} (h : (toKst changeoverLibraries t).isSome = true) :
    (photoAt t).render changeoverLibraries = some (dumpedAt t) := by
  have hsome : ((photoAt t).render changeoverLibraries).isSome = true := by
    refine (photoAt t).render_isSome.mpr fun u hu => ?_
    obtain rfl : u = t := List.mem_singleton.mp hu
    exact h
  obtain ⟨v, hv⟩ := Option.isSome_iff_exists.mp hsome
  rw [dumpedAt, hv, Option.getD_some]

/-- The process of trip 8 in the hands of its worker. -/
def claimedProcess : Exchange :=
  enacted changeoverEnv .initial [.store ⟨1, .register sampleProcess⟩,
    .store ⟨2, .claim .process "worker:1" false⟩]

/-- The worker finishes it with a photo of the given time. -/
def finishingAt (t : AwareTime) : Action :=
  .store ⟨3, .finish processIdentity "worker:1" .completed (some (dumpedAt t)) none⟩

def finishedProcess (t : AwareTime) : Exchange :=
  enacted changeoverEnv claimedProcess [finishingAt t]

theorem reached_claimedProcess : ExchangeReached changeoverEnv claimedProcess :=
  ⟨.initial, _, Exchange.initial_initial, run_enacted _ _ _ (by decide +kernel)⟩

/-- The record the worker of `claimedProcess` holds. -/
theorem owned_claimedProcess : ∃ raw record, claimedProcess.world.store.jobs processIdentity =
    some raw ∧ raw.load changeoverEnv = .ok record ∧
      owns changeoverEnv record "worker:1" 3 = true ∧ record.kind = .process := by
  have hall : (claimedProcess.world.store.jobs processIdentity).any (fun raw =>
      (raw.load changeoverEnv).toOption.any fun record =>
        owns changeoverEnv record "worker:1" 3 && decide (record.kind = .process)) = true := by
    decide +kernel
  obtain ⟨raw, hraw, hall⟩ := (Option.any_eq_true _ _).mp hall
  obtain ⟨record, hload, hall⟩ := (Option.any_eq_true _ _).mp hall
  rw [Bool.and_eq_true, decide_eq_true_iff] at hall
  cases hresult : raw.load changeoverEnv with
  | error err =>
      rw [hresult] at hload
      cases hload
  | ok record' =>
      rw [hresult] at hload
      cases hload
      exact ⟨raw, record, hraw, hresult, hall⟩

theorem produced_photoAt {s : String} {t : AwareTime}
    (h : changeoverLibraries.awareDatetime (.ofString s) = some t)
    (hkst : (toKst changeoverLibraries t).isSome = true) :
    Produced changeoverLibraries .processResult (dumpedAt t) [t] := by
  refine .dumped (valid_photoAt t) (fun u hu => ?_) (render_photoAt hkst)
  obtain rfl := List.mem_singleton.mp hu
  exact ⟨.ofString s, u, h, rfl⟩

theorem step_finishingAt {t : AwareTime}
    (h : (enact changeoverEnv claimedProcess [finishingAt t]).isSome = true) :
    ExchangeStep changeoverEnv claimedProcess (finishingAt t) (finishedProcess t) := by
  cases run_enacted changeoverEnv claimedProcess [finishingAt t] h with
  | cons first rest =>
      cases rest
      exact first

/-- A photo of the last seconds of local mean time: its time is stored almost a minute
late, and moves on once more with the next read. -/
theorem dumped_drifts : ¬ ∀ (env : Env) (x y : Exchange) (now : Time) (i owner : String)
    (raw record r : JobRecord) (result : Value) (ts : List AwareTime) (e : JobResultEvent),
    env.libraries.Written → ExchangeReached env x →
    ExchangeStep env x (.store ⟨now, .finish i owner .completed (some result) none⟩) y →
    x.world.store.jobs i = some raw → raw.load env = .ok record →
    owns env record owner now = true →
    Produced env.libraries record.kind.eventType result ts →
    y.world.store.jobs i = some r → r.event = some e → NoDrift env i ts e y := by
  intro h
  let t : AwareTime := ⟨-1948750080000000, 32400⟩
  obtain ⟨raw, record, hraw, hload, howns, hkind⟩ := owned_claimedProcess
  have hprod : Produced changeoverLibraries record.kind.eventType (dumpedAt t) [t] := by
    rw [hkind]
    exact produced_photoAt (by decide +kernel :
      changeoverLibraries.awareDatetime (.ofString "1908-04-01T00:32:00+09:00") = some t)
      (by decide +kernel)
  have hstored : ((finishedProcess t).world.store.jobs processIdentity).any (fun r =>
      r.event.any fun e => e.result.isSome && decide ((e.times changeoverLibraries).map
        AwareTime.instant ≠ [t.instant])) = true := by
    decide +kernel
  obtain ⟨r, hr, hstored⟩ := (Option.any_eq_true _ _).mp hstored
  obtain ⟨e, he, hstored⟩ := (Option.any_eq_true _ _).mp hstored
  rw [Bool.and_eq_true, decide_eq_true_iff] at hstored
  exact hstored.2 ((h changeoverEnv _ _ 3 _ "worker:1" raw record r _ [t] e
    written_changeoverLibraries reached_claimedProcess (step_finishingAt (by decide +kernel)) hraw
    hload howns hprod hr he).instants hstored.1)

/-- A photo of 2024 is stored and published as it was taken. -/
theorem noDrift_today : ∃ r e,
    (finishedProcess ⟨1714557600000000, 32400⟩).world.store.jobs processIdentity = some r ∧
      r.event = some e ∧ e.takenAt = some "2024-05-01T10:00:00+09:00" ∧
      NoDrift changeoverEnv processIdentity [⟨1714557600000000, 32400⟩] e
        (finishedProcess ⟨1714557600000000, 32400⟩) := by
  obtain ⟨raw, record, hraw, hload, howns, hkind⟩ := owned_claimedProcess
  have hprod : Produced changeoverLibraries record.kind.eventType
      (dumpedAt ⟨1714557600000000, 32400⟩) [⟨1714557600000000, 32400⟩] := by
    rw [hkind]
    exact produced_photoAt (by decide +kernel : changeoverLibraries.awareDatetime
      (.ofString "2024-05-01T10:00:00+09:00") = some ⟨1714557600000000, 32400⟩) (by decide +kernel)
  have hstored : ((finishedProcess ⟨1714557600000000, 32400⟩).world.store.jobs
      processIdentity).any (fun r => r.event.any fun e =>
        decide (e.takenAt = some "2024-05-01T10:00:00+09:00")) = true := by
    decide +kernel
  obtain ⟨r, hr, hstored⟩ := (Option.any_eq_true _ _).mp hstored
  obtain ⟨e, he, hstored⟩ := (Option.any_eq_true _ _).mp hstored
  have hkeeps : KeepsTimes changeoverEnv record
      (dumpedAt ⟨1714557600000000, 32400⟩) [⟨1714557600000000, 32400⟩] := by
    intro _ _ _ _ t ht
    obtain rfl := List.mem_singleton.mp ht
    decide +kernel
  exact ⟨r, e, hr, he, of_decide_eq_true hstored, (finish_noDrift_iff written_changeoverLibraries
    reached_claimedProcess (step_finishingAt (by decide +kernel)) hraw hload howns hprod hr
    he).mpr hkeeps⟩

end Yeodam.Jobs
