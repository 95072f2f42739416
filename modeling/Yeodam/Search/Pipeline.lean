/-
A search over the photos of a request (`app/search/pipeline.py`, `in_time_windows` in
`app/search/times.py`, `SearchResponse` in `app/schemas/query.py` and `_validate_result` in
`app/api/services/query_service.py`).

The photos are filtered by the time words of the query first. They are then ordered by the time they
were taken, where the search is for nothing else, or ranked by the hits of the vector store, cut and
handed to the model that answers a question. `search_exact_iff`: the search fails for a hit outside
its candidates only, and its results are sound and complete and pass both validators, exactly where
every time it reads can be put on a clock in Korea.
-/

import Yeodam.Lib.Keyed
import Yeodam.Search.Prompts
import Yeodam.Search.Times
import Yeodam.Story.Drafts

namespace Yeodam.Search

open Yeodam.Lib Yeodam.Schemas Yeodam.Story

/-! ### Schemas -/

/-- `AttachmentId` -/
abbrev AttachmentId := { n : Nat // 0 < n }

/-- What the pipeline reads of a `SearchCandidate`. -/
structure SearchCandidate where
  tripAttachmentId : AttachmentId
  analyzeStorageKey : String
  takenAt : Option AwareTime
deriving DecidableEq

structure SearchRequest where
  query : String
  intent : Intent
  visualQuery : Option String
  candidates : List SearchCandidate
  limit : Nat
  query_length : 2 ≤ query.length ∧ query.length ≤ 100
  limit_range : 1 ≤ limit ∧ limit ≤ 50
  /-- `unique_candidates` -/
  unique : (candidates.map SearchCandidate.tripAttachmentId).Nodup

/-- Finite scores: their order and their product, as the machine has them. -/
structure SearchHit (S : Type) where
  tripAttachmentId : AttachmentId
  score : S
deriving DecidableEq

inductive AnswerError where
  | vlmUnavailable
  | timeout
  | noEvidence
deriving DecidableEq

/-- `consistent_answer` -/
def consistentAnswer (answer : Option String) (answerError : Option AnswerError) : Bool :=
  !answer.any fun text => decide (strip text = "") || answerError.isSome

structure SearchResponse (S : Type) where
  attachments : List (SearchHit S)
  answer : Option String
  answerError : Option AnswerError
  consistent : consistentAnswer answer answerError = true

structure SearchOptions (S : Type) [LinearOrder S] [Zero S] [One S] where
  questionK : Nat
  minScore : S
  scoreRatio : S
  question_range : 1 ≤ questionK ∧ questionK ≤ 5
  min_range : 0 ≤ minScore ∧ minScore ≤ 1
  ratio_range : 0 < scoreRatio ∧ scoreRatio ≤ 1

/-- The division of two integers: its quotient as the machine rounds it. -/
structure Quotients (S : Type) [LinearOrder S] where
  round : ℚ → S
  /-- It keeps apart what is a fiftieth apart. -/
  apart : ∀ {x y}, 0 ≤ x → y ≤ 1 → x + 1 / 50 ≤ y → round x < round y

/-- `(n - rank) / n` -/
def Quotients.share {S : Type} [LinearOrder S] (quotients : Quotients S) (n rank : Nat) : S :=
  quotients.round (((n : ℚ) - rank) / n)

/-- What a search, or the check of its result, raises. -/
inductive SearchRaised where
  /-- `OverflowError` of `astimezone`. -/
  | overflow
  | keyError
  /-- Two times compared of which one is `None`. -/
  | typeError
  /-- A hit outside the candidates. -/
  | outside
  /-- `ValidationError` of `SearchResponse`. -/
  | invalid
  /-- `_validate_result` -/
  | contract
deriving DecidableEq

/-! ### Time windows -/

/-- `_contains` -/
def contains (window : Clock × Clock) (clock : Clock) : Bool :=
  if window.1 < window.2 then decide (window.1 ≤ clock) && decide (clock < window.2)
  else decide (window.1 ≤ clock) || decide (clock < window.2)

/-- `taken_at.astimezone(KST).time()`: the way to Korea is by UTC. -/
def kstClock (t : AwareTime) : Except SearchRaised Clock :=
  if representable t.instant && representable (t.instant + hour 9) then
    .ok ((t.instant + hour 9) % hour 24)
  else .error .overflow

/-- `any(_contains(TIME_WINDOWS[word], clock) for word in words)` -/
def anyWindow (clock : Clock) : List String → Except SearchRaised Bool
  | [] => .ok false
  | word :: words =>
      match timeWindows.lookup word with
      | none => .error .keyError
      | some window => if contains window clock then .ok true else anyWindow clock words

def inTimeWindows (takenAt : Option AwareTime) (words : List String) : Except SearchRaised Bool :=
  match takenAt with
  | none => .ok false
  | some t => do anyWindow (← kstClock t) words

/-- The candidates inside the windows, by their ids, which are unique. -/
def timeCandidates (words : List String) :
    List SearchCandidate → Except SearchRaised (List SearchCandidate)
  | [] => .ok []
  | c :: cs => do
      let inside ← inTimeWindows c.takenAt words
      let rest ← timeCandidates words cs
      return if inside then c :: rest else rest

/-- The candidates that the time words leave, all of them without any word. -/
def filterByTime (words : List String) (candidates : List SearchCandidate) :
    Except SearchRaised (List SearchCandidate) :=
  if words = [] then .ok candidates else timeCandidates words candidates

/-! ### The pipeline -/

section Pipeline

variable {S R : Type} [LinearOrder S] [Mul S] [Zero S] [One S]

def SearchResponse.validate (attachments : List (SearchHit S)) (answer : Option String)
    (answerError : Option AnswerError) : Except SearchRaised (SearchResponse S) :=
  if h : consistentAnswer answer answerError = true then
    .ok ⟨attachments, answer, answerError, h⟩
  else .error .invalid

/-- `(-hit.score, hit.trip_attachment_id)` -/
def scoreOrder (hit : SearchHit S) : Sᵒᵈ ×ₗ AttachmentId :=
  toLex (OrderDual.toDual hit.score, hit.tripAttachmentId)

def applyCutoff (ranked : List (SearchHit S)) (options : SearchOptions S) : List (SearchHit S) :=
  match ranked with
  | [] => []
  | top :: _ =>
      let threshold := max options.minScore (top.score * options.scoreRatio)
      ranked.filter fun hit => decide (threshold ≤ hit.score)

def hasVisualQuery (request : SearchRequest) : Bool :=
  let visualQuery := strip (request.visualQuery.getD "")
  if strip (stripTimeWords visualQuery) = "" then false
  else decide (visualQuery ≠ strip request.query)

/-- `(item.taken_at, item.trip_attachment_id)` -/
def takenAtOrder (item : SearchCandidate) : WithBot Int ×ₗ AttachmentId :=
  toLex (item.takenAt.map AwareTime.instant, item.tripAttachmentId)

/-- A time and `None` are not compared. -/
def orderByTakenAt (quotients : Quotients S) (candidates : List SearchCandidate) (limit : Nat) :
    Except SearchRaised (List (SearchHit S)) :=
  if candidates.any (·.takenAt.isSome) && candidates.any (·.takenAt.isNone) then .error .typeError
  else
    let ordered := (sortOn takenAtOrder candidates).take limit
    .ok (ordered.zipIdx.map fun item =>
      ⟨item.1.tripAttachmentId, quotients.share ordered.length item.2⟩)

/-- The checks of the hits, their order and the cuts. -/
def rankHits (options : SearchOptions S) (candidates : List SearchCandidate) (limit : Nat)
    (hits : List (SearchHit S)) : Except SearchRaised (List (SearchHit S)) :=
  if hits.any fun hit => hit.tripAttachmentId ∉ candidates.map SearchCandidate.tripAttachmentId then
    .error .outside
  else
    let ranked := sortOn scoreOrder hits
    let unique := Dict.collect SearchHit.tripAttachmentId id ranked.reverse
    let ordered := sortOn scoreOrder unique.values
    .ok ((applyCutoff ordered options).take limit)

/-- An `AnswerOutput`. -/
structure AnswerOutput where
  answerable : Bool
  answer : Option String

/-- `InvalidModelOutput` -/
inductive InvalidOutput where
  | format
  | noAnswer

/-- `model_validate_json` reads the text or refuses it. -/
def parseAnswer (validate : R → Option AnswerOutput) (text : R) :
    Except InvalidOutput (Option String) :=
  match validate text with
  | none => .error .format
  | some output =>
      if !output.answerable then .ok none
      else
        let answer := strip (output.answer.getD "")
        if answer = "" then .error .noAnswer else .ok (some answer)

/-- How the call that answers a question ends. -/
inductive Answering (R : Type) where
  | timeout
  | unavailable
  | output (text : R)

/-- The answer to a question, from the evidence that was selected. -/
def answerQuestion (validate : R → Option AnswerOutput) (candidates : List SearchCandidate)
    (selected : List (SearchHit S)) (answering : List SearchCandidate → Answering R) :
    Except SearchRaised (SearchResponse S) := do
  let evidence ← selected.mapM fun hit =>
    match candidates.find? fun c => c.tripAttachmentId = hit.tripAttachmentId with
    | none => .error .keyError
    | some c => .ok c
  match answering evidence with
  | .timeout => SearchResponse.validate selected none (some .timeout)
  | .unavailable => SearchResponse.validate selected none (some .vlmUnavailable)
  | .output text =>
      match parseAnswer validate text with
      | .error _ => SearchResponse.validate selected none (some .vlmUnavailable)
      | .ok none => SearchResponse.validate selected none (some .noEvidence)
      | .ok (some answer) => SearchResponse.validate selected (some answer) none

/-- At most this many photos are in a result. -/
def resultLimit (request : SearchRequest) (options : SearchOptions S) : Nat :=
  if request.intent = .search then request.limit else options.questionK

/-- What `search` does with the candidates its time words leave. -/
def searchAmong (quotients : Quotients S) (validate : R → Option AnswerOutput)
    (request : SearchRequest) (options : SearchOptions S) (hits : List (SearchHit S))
    (answering : List SearchCandidate → Answering R) (candidates : List SearchCandidate) :
    Except SearchRaised (SearchResponse S) :=
  let words := timeWords request.query
  let limit := resultLimit request options
  if candidates = [] then
    SearchResponse.validate [] none (if request.intent = .question then some .noEvidence else none)
  else if words ≠ [] ∧ request.intent = .search ∧ hasVisualQuery request = false then do
    SearchResponse.validate (← orderByTakenAt quotients candidates limit) none none
  else do
    let selected ← rankHits options candidates limit hits
    if request.intent = .search then SearchResponse.validate selected none none
    else if selected = [] then SearchResponse.validate [] none (some .noEvidence)
    else answerQuestion validate candidates selected answering

/-- `search`, with the hits of the vector store and the end of the call that answers. -/
def search (quotients : Quotients S) (validate : R → Option AnswerOutput) (request : SearchRequest)
    (options : SearchOptions S) (hits : List (SearchHit S))
    (answering : List SearchCandidate → Answering R) : Except SearchRaised (SearchResponse S) := do
  let candidates ← filterByTime (timeWords request.query) request.candidates
  searchAmong quotients validate request options hits answering candidates

/-- `QueryService._validate_result` -/
def validateResult (request : SearchRequest) (options : SearchOptions S)
    (response : SearchResponse S) : Except SearchRaised Unit :=
  let candidates := request.candidates.map SearchCandidate.tripAttachmentId
  let ids := response.attachments.map SearchHit.tripAttachmentId
  if ¬ ids ⊆ candidates ∨ ids.toFinset.card ≠ ids.length ∨
      resultLimit request options < ids.length then .error .contract
  else if request.intent = .search ∧
      (response.answer.any (fun text => decide (text ≠ "")) || response.answerError.isSome) then
    .error .contract
  else .ok ()

end Pipeline

/-! ### What a search is to find -/

/-- A time with a clock in Korea. -/
def OnClock (t : AwareTime) : Prop :=
  representable t.instant = true ∧ representable (t.instant + hour 9) = true

/-- The clock in Korea is inside the window of one of the words. -/
def InTime (words : List String) (takenAt : Option AwareTime) : Prop :=
  ∃ t ∈ takenAt, ∃ word ∈ words, ∃ window, (word, window) ∈ timeWindows ∧
    contains window ((t.instant + hour 9) % hour 24) = true

namespace SearchRequest

variable (request : SearchRequest)

/-- The candidates inside the windows of the query, all of them where it names no time. -/
def Matching (c : SearchCandidate) : Prop :=
  c ∈ request.candidates ∧
    (timeWords request.query = [] ∨ InTime (timeWords request.query) c.takenAt)

/-- A search with time words, and nothing besides them. The backend sends the query itself where it
found nothing to look for. -/
def TimeOnly : Prop :=
  request.intent = .search ∧ timeWords request.query ≠ [] ∧
    (strip (stripTimeWords (strip (request.visualQuery.getD ""))) = "" ∨
      strip (request.visualQuery.getD "") = strip request.query)

/-- The vector store is asked. -/
def Asks : Prop := (∃ c, request.Matching c) ∧ ¬ request.TimeOnly

end SearchRequest

section Spec

variable {S R : Type} [LinearOrder S] [Mul S] [Zero S] [One S]

/-- At least the lower bound, and the given share of the best score. -/
def Passes (options : SearchOptions S) (hits : List (SearchHit S)) (score : S) : Prop :=
  options.minScore ≤ score ∧ ∀ top ∈ hits, (∀ hit ∈ hits, hit.score ≤ top.score) →
    top.score * options.scoreRatio ≤ score

/-- By falling scores, then by id. -/
def Before (hit hit' : SearchHit S) : Prop :=
  hit'.score < hit.score ∨ hit'.score = hit.score ∧ hit.tripAttachmentId < hit'.tripAttachmentId

/-- The hits that pass, each photo once with its best score, the first of them in order. -/
structure Ranked (options : SearchOptions S) (limit : Nat) (hits out : List (SearchHit S)) :
    Prop where
  unique : (out.map SearchHit.tripAttachmentId).Nodup
  best : ∀ hit ∈ out, hit ∈ hits ∧ ∀ hit' ∈ hits,
    hit'.tripAttachmentId = hit.tripAttachmentId → hit'.score ≤ hit.score
  sorted : out.Pairwise Before
  cut : ∀ hit ∈ out, Passes options hits hit.score
  limited : out.length ≤ limit
  /-- A hit that passes is left out only for others before it, up to the limit. -/
  complete : ∀ hit ∈ hits, Passes options hits hit.score →
    (∃ hit' ∈ out, hit'.tripAttachmentId = hit.tripAttachmentId) ∨
      out.length = limit ∧ ∀ hit' ∈ out, Before hit' hit

/-- Earlier taken, then the smaller id. -/
def TakenBefore (c c' : SearchCandidate) : Prop :=
  ∃ t ∈ c.takenAt, ∃ t' ∈ c'.takenAt, t.instant < t'.instant ∨
    t.instant = t'.instant ∧ c.tripAttachmentId < c'.tripAttachmentId

/-- The first candidates in the order they were taken, with falling scores. -/
structure InOrder (request : SearchRequest) (out : List (SearchHit S)) : Prop where
  first : ∃ ordered : List SearchCandidate, (∀ c, c ∈ ordered ↔ request.Matching c) ∧
    ordered.Pairwise TakenBefore ∧ out.map SearchHit.tripAttachmentId =
      (ordered.take request.limit).map SearchCandidate.tripAttachmentId
  falling : out.Pairwise fun hit hit' => hit'.score < hit.score

/-- What a search is to return. -/
structure Response (request : SearchRequest) (options : SearchOptions S) (hits : List (SearchHit S))
    (response : SearchResponse S) : Prop where
  candidates : ∀ hit ∈ response.attachments,
    ∃ c, request.Matching c ∧ c.tripAttachmentId = hit.tripAttachmentId
  inOrder : request.TimeOnly → InOrder request response.attachments
  ranked : request.Asks → Ranked options (resultLimit request options) hits response.attachments
  accepted : validateResult request options response = .ok ()

/-- Some hit is not among the filtered candidates. -/
def Outside (request : SearchRequest) (hits : List (SearchHit S)) : Prop :=
  ∃ hit ∈ hits, ∀ c, request.Matching c → c.tripAttachmentId ≠ hit.tripAttachmentId

/-- A search fails for a hit outside the candidates only, and returns what it is to. -/
structure Exact (quotients : Quotients S) (validate : R → Option AnswerOutput)
    (request : SearchRequest) (options : SearchOptions S) (hits : List (SearchHit S))
    (answering : List SearchCandidate → Answering R) : Prop where
  raises : (∃ e, search quotients validate request options hits answering = .error e) ↔
    request.Asks ∧ Outside request hits
  returns : ∀ response, search quotients validate request options hits answering = .ok response →
    Response request options hits response

end Spec

/-! ### Times -/

theorem lookup_timeWindows : ∀ entry ∈ timeWindows, timeWindows.lookup entry.1 = some entry.2 := by
  decide

theorem mem_timeWindows_of_timeWords {query word : String} (h : word ∈ timeWords query) :
    ∃ window, (word, window) ∈ timeWindows := by
  rw [timeWords_eq, List.mem_eraseDups, List.mem_map] at h
  obtain ⟨letters', hletters, rfl⟩ := h
  obtain ⟨block, -, hword⟩ := List.mem_filterMap.mp hletters
  obtain ⟨name, hname, rfl⟩ := List.mem_map.mp (wordOf_eq_some.mp hword).1
  obtain ⟨entry, hentry, rfl⟩ := List.mem_map.mp hname
  refine ⟨entry.2, ?_⟩
  rw [String.ofList_toList]
  exact hentry

theorem anyWindow_eq_ok (clock : Clock) {words : List String}
    (hwords : ∀ word ∈ words, ∃ window, (word, window) ∈ timeWindows) :
    ∃ b, anyWindow clock words = .ok b ∧ (b = true ↔ ∃ word ∈ words, ∃ window,
      (word, window) ∈ timeWindows ∧ contains window clock = true) := by
  induction words with
  | nil => exact ⟨false, rfl, by simp⟩
  | cons word words ih =>
      obtain ⟨window, hwindow⟩ := hwords word List.mem_cons_self
      obtain ⟨b, hb, hiff⟩ := ih fun w hw => hwords w (List.mem_cons_of_mem _ hw)
      have hlookup := lookup_timeWindows _ hwindow
      rw [anyWindow, hlookup]
      dsimp only
      cases hcontains : contains window clock with
      | true =>
          refine ⟨true, rfl, iff_of_true rfl ?_⟩
          exact ⟨word, List.mem_cons_self, window, hwindow, hcontains⟩
      | false =>
          refine ⟨b, hb, hiff.trans ⟨?_, ?_⟩⟩
          · rintro ⟨w, hw, rest⟩
            exact ⟨w, List.mem_cons_of_mem _ hw, rest⟩
          · rintro ⟨w, hw, window', hwindow', hinside⟩
            rcases List.mem_cons.mp hw with rfl | hw
            · have hsame := lookup_timeWindows _ hwindow'
              rw [hlookup, Option.some.injEq] at hsame
              dsimp only at hsame
              rw [← hsame, hcontains] at hinside
              cases hinside
            · exact ⟨w, hw, window', hwindow', hinside⟩

theorem kstClock_eq_ok {t : AwareTime} (h : OnClock t) :
    kstClock t = .ok ((t.instant + hour 9) % hour 24) := by
  rw [kstClock, h.1, h.2]
  rfl

theorem kstClock_eq_error {t : AwareTime} (h : ¬ OnClock t) : kstClock t = .error .overflow := by
  rw [kstClock, if_neg]
  rwa [Bool.and_eq_true]

variable {words : List String} {cs : List SearchCandidate}

theorem inTimeWindows_eq_ok (hwords : ∀ word ∈ words, ∃ window, (word, window) ∈ timeWindows)
    {takenAt : Option AwareTime} (h : ∀ t ∈ takenAt, OnClock t) :
    ∃ b, inTimeWindows takenAt words = .ok b ∧ (b = true ↔ InTime words takenAt) := by
  cases takenAt with
  | none => exact ⟨false, rfl, by simp [InTime]⟩
  | some t =>
      obtain ⟨b, hb, hiff⟩ := anyWindow_eq_ok ((t.instant + hour 9) % hour 24) hwords
      refine ⟨b, ?_, ?_⟩
      · rw [inTimeWindows, kstClock_eq_ok (h t rfl)]
        exact hb
      · rw [hiff]
        constructor
        · exact fun hinside => ⟨t, rfl, hinside⟩
        · rintro ⟨t', ht', hinside⟩
          cases ht'
          exact hinside

/-- The filter keeps the candidates inside the windows. -/
theorem timeCandidates_eq_ok (hwords : ∀ word ∈ words, ∃ window, (word, window) ∈ timeWindows)
    (h : ∀ c ∈ cs, ∀ t ∈ c.takenAt, OnClock t) :
    ∃ kept, timeCandidates words cs = .ok kept ∧ kept.Sublist cs ∧
      ∀ c, c ∈ kept ↔ c ∈ cs ∧ InTime words c.takenAt := by
  induction cs with
  | nil => exact ⟨[], rfl, .slnil, by simp⟩
  | cons c cs ih =>
      obtain ⟨b, hb, hiff⟩ := inTimeWindows_eq_ok hwords (h c List.mem_cons_self)
      obtain ⟨kept, hkept, hsub, hmem⟩ := ih fun c' hc' => h c' (List.mem_cons_of_mem _ hc')
      rw [timeCandidates, hb, except_ok_bind, hkept, except_ok_bind]
      cases b with
      | true =>
          refine ⟨c :: kept, rfl, hsub.cons_cons c, fun c' => ?_⟩
          rw [List.mem_cons, List.mem_cons, hmem]
          constructor
          · rintro (rfl | ⟨hc', hin⟩)
            · exact ⟨.inl rfl, hiff.mp rfl⟩
            · exact ⟨.inr hc', hin⟩
          · rintro ⟨rfl | hc', hin⟩
            · exact .inl rfl
            · exact .inr ⟨hc', hin⟩
      | false =>
          refine ⟨kept, rfl, hsub.cons c, fun c' => ?_⟩
          rw [List.mem_cons, hmem]
          constructor
          · exact fun ⟨hc', hin⟩ => ⟨.inr hc', hin⟩
          · rintro ⟨rfl | hc', hin⟩
            · exact absurd (hiff.mpr hin) (by decide)
            · exact ⟨hc', hin⟩

/-- One time without a clock in Korea ends the filter. -/
theorem timeCandidates_eq_error (words : List String) {c : SearchCandidate} (hc : c ∈ cs)
    {t : AwareTime} (ht : t ∈ c.takenAt) (hout : ¬ OnClock t) :
    ∃ e, timeCandidates words cs = .error e := by
  induction cs with
  | nil => cases hc
  | cons c' cs ih =>
      cases hinside : inTimeWindows c'.takenAt words with
      | error e => exact ⟨e, by rw [timeCandidates, hinside]; rfl⟩
      | ok b =>
          rcases List.mem_cons.mp hc with rfl | hc
          · rw [Option.mem_def.mp ht, inTimeWindows, kstClock_eq_error hout] at hinside
            cases hinside
          · obtain ⟨e, he⟩ := ih hc
            refine ⟨e, ?_⟩
            rw [timeCandidates, hinside, except_ok_bind, he]
            rfl

/-! ### Ranking -/

section Ranking

variable {S : Type} [LinearOrder S] {hits : List (SearchHit S)} {hit hit' : SearchHit S}

theorem scoreOrder_lt : scoreOrder hit < scoreOrder hit' ↔ Before hit hit' := by
  rw [Prod.Lex.lt_iff]
  simp only [scoreOrder, Before, ofLex_toLex, OrderDual.toDual_lt_toDual, OrderDual.toDual_inj,
    eq_comm]

theorem score_le_of_scoreOrder_le (h : scoreOrder hit ≤ scoreOrder hit') :
    hit'.score ≤ hit.score := by
  rcases h.lt_or_eq with h | h
  · rcases scoreOrder_lt.mp h with h | h
    · exact h.le
    · exact h.1.le
  · have hscore := congrArg (fun k => OrderDual.ofDual (ofLex k).1) h
    exact (show hit.score = hit'.score from hscore).ge

/-- The hit kept for each id, in order. -/
def bestHits (hits : List (SearchHit S)) : List (SearchHit S) :=
  sortOn scoreOrder
    (Dict.collect SearchHit.tripAttachmentId id (sortOn scoreOrder hits).reverse).values

theorem get?_bestHits (k : AttachmentId) :
    (Dict.collect SearchHit.tripAttachmentId id (sortOn scoreOrder hits).reverse).get? k =
      (sortOn scoreOrder hits).find? fun hit => hit.tripAttachmentId = k := by
  rw [Dict.collect, Dict.get?_foldl_set, List.reverse_reverse, Dict.get?_empty, Option.or_none,
    Option.map_id_fun, id]

theorem mem_bestHits : hit ∈ bestHits hits ↔
    (sortOn scoreOrder hits).find? (fun h => h.tripAttachmentId = hit.tripAttachmentId) =
      some hit := by
  rw [bestHits, mem_sortOn, Dict.mem_values_iff]
  constructor
  · rintro ⟨k, hk⟩
    rw [get?_bestHits] at hk
    have hid : hit.tripAttachmentId = k := of_decide_eq_true (List.find?_some hk :)
    rw [hid]
    exact hk
  · exact fun h => ⟨hit.tripAttachmentId, (get?_bestHits _).trans h⟩

/-- What is found first has the best score of its id. -/
theorem score_le_of_mem_bestHits (h : hit ∈ bestHits hits) (hmem : hit' ∈ hits)
    (hid : hit'.tripAttachmentId = hit.tripAttachmentId) : hit'.score ≤ hit.score := by
  obtain ⟨-, before, after, hsplit, hbefore⟩ := List.find?_eq_some_iff_append.mp (mem_bestHits.mp h)
  have hsorted := pairwise_sortOn scoreOrder hits
  have hin : hit' ∈ sortOn scoreOrder hits := mem_sortOn.mpr hmem
  rw [hsplit] at hsorted hin
  rcases List.mem_append.mp hin with hin | hin
  · have hnot := hbefore hit' hin
    simp [hid] at hnot
  rcases List.mem_cons.mp hin with rfl | hin
  · exact le_rfl
  · have hle := List.rel_of_pairwise_cons (List.pairwise_append.mp hsorted).2.1 hin
    exact score_le_of_scoreOrder_le hle

theorem mem_of_mem_bestHits (h : hit ∈ bestHits hits) : hit ∈ hits :=
  mem_sortOn.mp (List.mem_of_find?_eq_some (mem_bestHits.mp h))

theorem exists_bestHit (h : hit ∈ hits) :
    ∃ hit' ∈ bestHits hits, hit'.tripAttachmentId = hit.tripAttachmentId ∧
      hit.score ≤ hit'.score := by
  cases hfind :
    (sortOn scoreOrder hits).find? fun h => h.tripAttachmentId = hit.tripAttachmentId with
  | none =>
      have hno := List.find?_eq_none.mp hfind hit (mem_sortOn.mpr h)
      simp at hno
  | some hit' =>
      have hid : hit'.tripAttachmentId = hit.tripAttachmentId :=
        of_decide_eq_true (List.find?_some hfind :)
      have hbest : hit' ∈ bestHits hits := by
        rw [mem_bestHits, hid]
        exact hfind
      exact ⟨hit', hbest, hid, score_le_of_mem_bestHits hbest h hid.symm⟩

theorem nodup_bestHits (hits : List (SearchHit S)) :
    ((bestHits hits).map SearchHit.tripAttachmentId).Nodup := by
  apply nodup_map_sortOn
  set d := Dict.collect SearchHit.tripAttachmentId id (sortOn scoreOrder hits).reverse
  have hkeys : d.values.map SearchHit.tripAttachmentId = d.entries.map Prod.fst := by
    rw [Dict.values, List.map_map]
    apply List.map_congr_left
    intro e he
    have hget := Dict.mem_entries_iff.mp (show (e.1, e.2) ∈ d.entries from he)
    rw [get?_bestHits] at hget
    exact of_decide_eq_true (List.find?_some hget :)
  rw [hkeys]
  exact d.nodup

theorem pairwise_bestHits (hits : List (SearchHit S)) : (bestHits hits).Pairwise Before := by
  have hkeys : ((bestHits hits).map scoreOrder).Nodup := by
    have hids := nodup_bestHits hits
    rw [show SearchHit.tripAttachmentId = (fun k => (ofLex k).2) ∘ scoreOrder (S := S) from rfl,
      ← List.map_map] at hids
    exact hids.of_map
  have hlt := pairwise_lt_sortOn (((sortOn_perm _ _).map _).nodup_iff.mp hkeys)
  exact hlt.imp fun h => scoreOrder_lt.mp h

variable [Mul S] [Zero S] [One S] {options : SearchOptions S}

theorem applyCutoff_sublist (ranked : List (SearchHit S)) (options : SearchOptions S) :
    (applyCutoff ranked options).Sublist ranked := by
  cases ranked with
  | nil => exact .slnil
  | cons top ranked => exact List.filter_sublist

theorem mem_applyCutoff : hit ∈ applyCutoff (bestHits hits) options ↔
    hit ∈ bestHits hits ∧ Passes options hits hit.score := by
  cases hbest : bestHits hits with
  | nil => simp [applyCutoff]
  | cons top rest =>
      rw [applyCutoff, List.mem_filter, decide_eq_true_eq, max_le_iff]
      have htop : top ∈ bestHits hits := hbest ▸ List.mem_cons_self
      -- The first hit has the best score of all.
      have hgreatest : ∀ h ∈ hits, h.score ≤ top.score := by
        intro h hh
        obtain ⟨h', hh', -, hle⟩ := exists_bestHit hh
        have hsorted := pairwise_bestHits hits
        rw [hbest] at hh' hsorted
        rcases List.mem_cons.mp hh' with rfl | hh'
        · exact hle
        · rcases List.rel_of_pairwise_cons hsorted hh' with hlt | ⟨heq, -⟩
          · exact hle.trans hlt.le
          · exact hle.trans heq.le
      refine and_congr_right fun _ => and_congr_right fun _ => ?_
      constructor
      · intro h top' htop' hall
        rw [le_antisymm (hgreatest top' htop') (hall top (mem_of_mem_bestHits htop))]
        exact h
      · exact fun h => h top (mem_of_mem_bestHits htop) hgreatest

/-- **The cut of the best hits.** -/
theorem ranked_take (options : SearchOptions S) (limit : Nat) (hits : List (SearchHit S)) :
    Ranked options limit hits ((applyCutoff (bestHits hits) options).take limit) := by
  have hsub : ((applyCutoff (bestHits hits) options).take limit).Sublist (bestHits hits) :=
    (List.take_sublist _ _).trans (applyCutoff_sublist _ _)
  constructor
  · exact (nodup_bestHits hits).sublist (hsub.map _)
  · intro hit hhit
    have hbest := hsub.subset hhit
    exact ⟨mem_of_mem_bestHits hbest, fun hit' h hid => score_le_of_mem_bestHits hbest h hid⟩
  · exact (pairwise_bestHits hits).sublist hsub
  · exact fun hit hhit => (mem_applyCutoff.mp (List.mem_of_mem_take hhit)).2
  · exact List.length_take_le _ _
  · intro hit hhit hpasses
    obtain ⟨hit', hbest, hid, hle⟩ := exists_bestHit hhit
    have hmem : hit' ∈ applyCutoff (bestHits hits) options :=
      mem_applyCutoff.mpr ⟨hbest, hpasses.1.trans hle, fun top ht hall =>
        (hpasses.2 top ht hall).trans hle⟩
    have hsorted := (pairwise_bestHits hits).sublist (applyCutoff_sublist (bestHits hits) options)
    rw [← List.take_append_drop limit (applyCutoff (bestHits hits) options)] at hmem hsorted
    rcases List.mem_append.mp hmem with htake | hdrop
    · exact .inl ⟨hit', htake, hid⟩
    · right
      constructor
      · have hpos := List.length_pos_of_mem hdrop
        rw [List.length_drop] at hpos
        rw [List.length_take]
        omega
      · intro h hh
        rcases (List.pairwise_append.mp hsorted).2.2 h hh hit' hdrop with hlt | ⟨heq, hlt⟩
        · exact .inl (hle.trans_lt hlt)
        · rcases hle.lt_or_eq with hless | hsame
          · exact .inl (heq ▸ hless)
          · exact .inr ⟨hsame.trans heq, hid ▸ hlt⟩

end Ranking

/-! ### The results -/

section Results

variable {S R : Type} [LinearOrder S] [Mul S] [Zero S] [One S] {quotients : Quotients S}
  {validate : R → Option AnswerOutput} {request : SearchRequest} {options : SearchOptions S}
  {kept : List SearchCandidate} {hits : List (SearchHit S)}

theorem hasVisualQuery_eq_false : hasVisualQuery request = false ↔
    strip (stripTimeWords (strip (request.visualQuery.getD ""))) = "" ∨
      strip (request.visualQuery.getD "") = strip request.query := by
  unfold hasVisualQuery
  dsimp only
  split
  · rename_i h
    exact iff_of_true rfl (.inl h)
  · rename_i h
    simp [h]

theorem nodup_matching (hsub : kept.Sublist request.candidates) :
    (kept.map SearchCandidate.tripAttachmentId).Nodup :=
  request.unique.sublist (hsub.map _)

omit [Mul S] [Zero S] [One S] in
/-- The scores of a result, which has at most 50 photos, fall with the rank. -/
theorem Quotients.decreasing {n rank rank' : Nat} (hn : n ≤ 50) (hlt : rank < rank')
    (hrank : rank' < n) : quotients.share n rank' < quotients.share n rank := by
  have hpos : (0 : ℚ) < n := by exact_mod_cast (Nat.zero_le _).trans_lt hrank
  have hfifty : (n : ℚ) ≤ 50 := by exact_mod_cast hn
  have hstep : (rank : ℚ) + 1 ≤ rank' := by exact_mod_cast hlt
  have hbelow : (rank' : ℚ) ≤ n := by exact_mod_cast hrank.le
  have hnonneg : (0 : ℚ) ≤ rank := by positivity
  refine quotients.apart (div_nonneg (by linarith) hpos.le) ?_ ?_
  · rw [div_le_one hpos]
    linarith
  · have hfrac : (1 : ℚ) / 50 ≤ 1 / n := one_div_le_one_div_of_le hpos hfifty
    calc ((n : ℚ) - rank') / n + 1 / 50 ≤ (n - rank') / n + 1 / n := by linarith
      _ = (n - rank' + 1) / n := by rw [add_div]
      _ ≤ (n - rank) / n := div_le_div_of_nonneg_right (by linarith) hpos.le

omit [Mul S] [Zero S] [One S] in
/-- Every candidate inside the windows has a time, so the order is that of the times. -/
theorem orderByTakenAt_eq_ok (quotients : Quotients S) (hkept : ∀ c, c ∈ kept ↔ request.Matching c)
    (hsub : kept.Sublist request.candidates) (hwords : timeWords request.query ≠ []) :
    ∃ out : List (SearchHit S), orderByTakenAt quotients kept request.limit = .ok out ∧
      InOrder request out := by
  have htimed : ∀ c ∈ kept, ∃ t, c.takenAt = some t := by
    intro c hc
    rcases ((hkept c).mp hc).2 with h | ⟨t, ht, -⟩
    · exact absurd h hwords
    · exact ⟨t, ht⟩
  have hnone : kept.any (fun c => c.takenAt.isNone) = false := by
    rw [List.any_eq_false]
    intro c hc
    obtain ⟨t, ht⟩ := htimed c hc
    simp [ht]
  rw [orderByTakenAt, hnone, Bool.and_false, if_neg Bool.false_ne_true]
  refine ⟨_, rfl, ⟨sortOn takenAtOrder kept, fun c => by rw [mem_sortOn, hkept], ?_, ?_⟩, ?_⟩
  · -- Without ties of the ids, the order is strict.
    have hkeys : (kept.map takenAtOrder).Nodup := by
      have hids := nodup_matching hsub
      rw [show SearchCandidate.tripAttachmentId = (fun k => (ofLex k).2) ∘ takenAtOrder from rfl,
        ← List.map_map] at hids
      exact hids.of_map
    refine (pairwise_lt_sortOn hkeys).imp_of_mem fun {c c'} hc hc' hlt => ?_
    obtain ⟨t, ht⟩ := htimed c (mem_sortOn.mp hc)
    obtain ⟨t', ht'⟩ := htimed c' (mem_sortOn.mp hc')
    refine ⟨t, ht, t', ht', ?_⟩
    rw [Prod.Lex.lt_iff] at hlt
    simp only [takenAtOrder, ofLex_toLex, ht, ht'] at hlt
    rcases hlt with hlt | ⟨heq, hlt⟩
    · exact .inl (WithBot.coe_lt_coe.mp hlt)
    · exact .inr ⟨WithBot.coe_injective heq, hlt⟩
  · rw [List.map_map]
    refine Eq.trans ?_ (congrArg (List.map SearchCandidate.tripAttachmentId)
      (List.zipIdx_map_fst 0 _))
    rw [List.map_map]
    rfl
  · set ordered := (sortOn takenAtOrder kept).take request.limit
    have hlength : ordered.length ≤ 50 :=
      (List.length_take_le _ _).trans request.limit_range.2
    rw [List.pairwise_map, List.pairwise_iff_getElem]
    intro i j hi hj hij
    simp only [List.length_zipIdx] at hi hj
    simp only [List.getElem_zipIdx, Nat.zero_add]
    exact quotients.decreasing hlength hij hj

theorem rankHits_eq_ok (hin : ∀ hit ∈ hits, ∃ c ∈ kept, c.tripAttachmentId = hit.tripAttachmentId)
    (limit : Nat) : rankHits options kept limit hits =
      .ok ((applyCutoff (bestHits hits) options).take limit) := by
  rw [rankHits, if_neg]
  · rfl
  · rw [List.any_eq_true]
    rintro ⟨hit, hhit, hnot⟩
    obtain ⟨c, hc, hid⟩ := hin hit hhit
    exact of_decide_eq_true hnot (List.mem_map.mpr ⟨c, hc, hid⟩)

theorem rankHits_eq_error {hit : SearchHit S} (hhit : hit ∈ hits)
    (hout : ∀ c ∈ kept, c.tripAttachmentId ≠ hit.tripAttachmentId) (limit : Nat) :
    rankHits options kept limit hits = .error .outside := by
  rw [rankHits, if_pos]
  rw [List.any_eq_true]
  refine ⟨hit, hhit, decide_eq_true fun hmem => ?_⟩
  obtain ⟨c, hc, hid⟩ := List.mem_map.mp hmem
  exact hout c hc hid

omit [LinearOrder S] [Mul S] [Zero S] [One S] in
/-- Whatever the model answers, the answer is one of a consistent response. -/
theorem answerQuestion_eq_ok (validate : R → Option AnswerOutput) {selected : List (SearchHit S)}
    (answering : List SearchCandidate → Answering R)
    (hin : ∀ hit ∈ selected, ∃ c ∈ kept, c.tripAttachmentId = hit.tripAttachmentId) :
    ∃ response : SearchResponse S, answerQuestion validate kept selected answering = .ok response ∧
      response.attachments = selected := by
  have hevidence : ∃ evidence, (selected.mapM fun hit =>
      match kept.find? fun c => c.tripAttachmentId = hit.tripAttachmentId with
      | none => (.error .keyError : Except SearchRaised SearchCandidate)
      | some c => .ok c) = .ok evidence := by
    apply mapM_succeeds
    intro hit hhit
    obtain ⟨c, hc, hid⟩ := hin hit hhit
    cases hfind : kept.find? fun c => c.tripAttachmentId = hit.tripAttachmentId with
    | none =>
        have hno := List.find?_eq_none.mp hfind c hc
        simp [hid] at hno
    | some c' => exact ⟨c', rfl⟩
  obtain ⟨evidence, hevidence⟩ := hevidence
  rw [answerQuestion, hevidence, except_ok_bind]
  cases answering evidence with
  | timeout => exact ⟨_, rfl, rfl⟩
  | unavailable => exact ⟨_, rfl, rfl⟩
  | output text =>
      dsimp only
      cases hparse : parseAnswer validate text with
      | error e => exact ⟨_, rfl, rfl⟩
      | ok answer =>
          cases answer with
          | none => exact ⟨_, rfl, rfl⟩
          | some answer =>
              -- The answer was stripped and is not empty.
              have hanswer : strip answer ≠ "" := by
                unfold parseAnswer at hparse
                split at hparse
                · cases hparse
                · split at hparse
                  · cases hparse
                  · dsimp only at hparse
                    split at hparse
                    · cases hparse
                    · rename_i hne
                      cases hparse
                      exact strip_strip hne
              have hconsistent : consistentAnswer (some answer) none = true := by
                simp [consistentAnswer, hanswer]
              exact ⟨⟨selected, some answer, none, hconsistent⟩, dif_pos hconsistent, rfl⟩

omit [Mul S] in
theorem validateResult_eq_ok {response : SearchResponse S}
    (hin : ∀ hit ∈ response.attachments,
      ∃ c, request.Matching c ∧ c.tripAttachmentId = hit.tripAttachmentId)
    (hunique : (response.attachments.map SearchHit.tripAttachmentId).Nodup)
    (hlimit : response.attachments.length ≤ resultLimit request options)
    (hplain : request.intent = .search → response.answer = none ∧ response.answerError = none) :
    validateResult request options response = .ok () := by
  rw [validateResult, if_neg, if_neg]
  · rintro ⟨hintent, h⟩
    obtain ⟨hanswer, herror⟩ := hplain hintent
    rw [hanswer, herror] at h
    cases h
  · rintro (hnot | hlength | hlong)
    · apply hnot
      intro id hid
      obtain ⟨hit, hhit, rfl⟩ := List.mem_map.mp hid
      obtain ⟨c, hc, hsame⟩ := hin hit hhit
      exact List.mem_map.mpr ⟨c, hc.1, hsame⟩
    · exact hlength (List.toFinset_card_of_nodup hunique)
    · rw [List.length_map] at hlong
      omega

variable {answering : List SearchCandidate → Answering R} {response : SearchResponse S}

theorem Exact.of_ok (h : search quotients validate request options hits answering = .ok response)
    (hin : ¬ (request.Asks ∧ Outside request hits))
    (hresponse : Response request options hits response) :
    Exact quotients validate request options hits answering where
  raises := by
    refine iff_of_false ?_ hin
    rintro ⟨e, he⟩
    rw [h] at he
    cases he
  returns := by
    intro response' h'
    rw [h] at h'
    cases h'
    exact hresponse

theorem Exact.of_error {e : SearchRaised}
    (h : search quotients validate request options hits answering = .error e)
    (hout : request.Asks ∧ Outside request hits) :
    Exact quotients validate request options hits answering where
  raises := iff_of_true ⟨e, h⟩ hout
  returns := by
    intro response h'
    rw [h] at h'
    cases h'

/-- The candidates the search goes on with, where every time is on a clock in Korea. -/
theorem exists_candidates (hclock : timeWords request.query = [] ∨
    ∀ c ∈ request.candidates, ∀ t ∈ c.takenAt, OnClock t) :
    ∃ kept, filterByTime (timeWords request.query) request.candidates = .ok kept ∧
      kept.Sublist request.candidates ∧ ∀ c, c ∈ kept ↔ request.Matching c := by
  unfold filterByTime
  by_cases hwords : timeWords request.query = []
  · rw [if_pos hwords]
    refine ⟨request.candidates, rfl, .refl _, fun c => ?_⟩
    simp [SearchRequest.Matching, hwords]
  · rw [if_neg hwords]
    obtain ⟨kept, hkept, hsub, hmem⟩ := timeCandidates_eq_ok
      (fun word hword => mem_timeWindows_of_timeWords hword) (hclock.resolve_left hwords)
    refine ⟨kept, hkept, hsub, fun c => ?_⟩
    simp [hmem, SearchRequest.Matching, hwords]

/-- A result by the times. -/
theorem response_of_inOrder {out : List (SearchHit S)} (honly : request.TimeOnly)
    (hout : InOrder request out) (hin : ∀ hit ∈ out, ∃ c, request.Matching c ∧
      c.tripAttachmentId = hit.tripAttachmentId)
    (hunique : (out.map SearchHit.tripAttachmentId).Nodup) (hlimit : out.length ≤ request.limit) :
    Response request options hits ⟨out, none, none, rfl⟩ where
  candidates := hin
  inOrder := fun _ => hout
  ranked := fun hasks => absurd honly hasks.2
  accepted := by
    refine validateResult_eq_ok hin hunique ?_ fun _ => ⟨rfl, rfl⟩
    rwa [resultLimit, if_pos honly.1]

/-- A result by the hits. -/
theorem response_of_ranked (hasks : request.Asks)
    (hranked : Ranked options (resultLimit request options) hits response.attachments)
    (hin : ∀ hit ∈ hits, ∃ c, request.Matching c ∧ c.tripAttachmentId = hit.tripAttachmentId)
    (hplain : request.intent = .search → response.answer = none ∧ response.answerError = none) :
    Response request options hits response where
  candidates := fun hit hhit => hin hit (hranked.best hit hhit).1
  inOrder := fun honly => absurd honly hasks.2
  ranked := fun _ => hranked
  accepted := validateResult_eq_ok (fun hit hhit => hin hit (hranked.best hit hhit).1)
    hranked.unique
    hranked.limited hplain

theorem exact_of_onClock (quotients : Quotients S) (validate : R → Option AnswerOutput)
    (options : SearchOptions S) (hits : List (SearchHit S))
    (answering : List SearchCandidate → Answering R) (hclock : timeWords request.query = [] ∨
      ∀ c ∈ request.candidates, ∀ t ∈ c.takenAt, OnClock t) :
    Exact quotients validate request options hits answering := by
  obtain ⟨kept, hkept, hsub, hmem⟩ := exists_candidates hclock
  have hsearch : search quotients validate request options hits answering =
      searchAmong quotients validate request options hits answering kept := by
    rw [search, hkept, except_ok_bind]
  unfold searchAmong at hsearch
  dsimp only at hsearch
  by_cases hempty : kept = []
  · -- Nothing is left to search.
    rw [if_pos hempty] at hsearch
    have hnone : ∀ c, ¬ request.Matching c := by
      intro c hc
      rw [← hmem, hempty] at hc
      cases hc
    refine .of_ok (hsearch.trans (dif_pos rfl)) (fun h => ?_) ?_
    · obtain ⟨c, hc⟩ := h.1.1
      exact hnone c hc
    · refine
        { candidates := nofun, inOrder := fun _ => ?_, ranked := fun hasks => ?_, accepted := ?_ }
      · refine ⟨⟨[], fun c => iff_of_false List.not_mem_nil (hnone c), .nil, ?_⟩, .nil⟩
        rw [List.take_nil]
        rfl
      · obtain ⟨c, hc⟩ := hasks.1
        exact absurd hc (hnone c)
      · refine validateResult_eq_ok nofun .nil (Nat.zero_le _) fun hintent => ?_
        rw [hintent]
        exact ⟨rfl, rfl⟩
  rw [if_neg hempty] at hsearch
  obtain ⟨c, hc⟩ := List.exists_mem_of_ne_nil kept hempty
  have hsome : ∃ c, request.Matching c := ⟨c, (hmem c).mp hc⟩
  by_cases honly : request.TimeOnly
  · -- By the times alone.
    obtain ⟨hintent, hwords, hvisual⟩ := honly
    rw [if_pos ⟨hwords, hintent, hasVisualQuery_eq_false.mpr hvisual⟩, resultLimit, if_pos hintent]
      at hsearch
    obtain ⟨out, hout, hinOrder⟩ := orderByTakenAt_eq_ok quotients hmem hsub hwords
    rw [hout, except_ok_bind] at hsearch
    obtain ⟨ordered, hordered, hbefore, hids⟩ := hinOrder.first
    refine .of_ok (hsearch.trans (dif_pos rfl)) (fun h => h.1.2 ⟨hintent, hwords, hvisual⟩) ?_
    refine response_of_inOrder ⟨hintent, hwords, hvisual⟩ hinOrder (fun hit hhit => ?_) ?_ ?_
    · have hid := List.mem_map_of_mem (f := SearchHit.tripAttachmentId) hhit
      rw [hids] at hid
      obtain ⟨c, hc, hsame⟩ := List.mem_map.mp hid
      exact ⟨c, (hordered c).mp (List.mem_of_mem_take hc), hsame⟩
    · rw [hids]
      have hnodup : ordered.Nodup := by
        refine hbefore.imp fun {c c'} hlt hsame => ?_
        obtain ⟨t, ht, t', ht', hlt⟩ := hlt
        subst hsame
        obtain rfl : t = t' := Option.some.inj (ht.symm.trans ht')
        rcases hlt with hlt | ⟨-, hlt⟩
        · exact lt_irrefl _ hlt
        · exact lt_irrefl _ hlt
      refine (hnodup.map_on fun c hc c' hc' hsame => ?_).sublist ((List.take_sublist _ _).map _)
      exact List.inj_on_of_nodup_map request.unique ((hordered c).mp hc).1 ((hordered c').mp hc').1
        hsame
    · have hlength := congrArg List.length hids
      rw [List.length_map, List.length_map, List.length_take] at hlength
      omega
  · -- By the hits.
    have hasks : request.Asks := ⟨hsome, honly⟩
    rw [if_neg fun h => honly ⟨h.2.1, h.1, hasVisualQuery_eq_false.mp h.2.2⟩] at hsearch
    by_cases hout : Outside request hits
    · obtain ⟨hit, hhit, hnot⟩ := hout
      rw [rankHits_eq_error hhit fun c hc => hnot c ((hmem c).mp hc)] at hsearch
      exact .of_error hsearch ⟨hasks, hit, hhit, hnot⟩
    have hin : ∀ hit ∈ hits, ∃ c, request.Matching c ∧
        c.tripAttachmentId = hit.tripAttachmentId := by
      intro hit hhit
      by_contra hno
      exact hout ⟨hit, hhit, fun c hc hid => hno ⟨c, hc, hid⟩⟩
    have hranked := ranked_take options (resultLimit request options) hits
    set selected := (applyCutoff (bestHits hits) options).take (resultLimit request options)
    rw [rankHits_eq_ok (fun hit hhit => by
      obtain ⟨c, hc, hid⟩ := hin hit hhit
      exact ⟨c, (hmem c).mpr hc, hid⟩), except_ok_bind] at hsearch
    by_cases hintent : request.intent = .search
    · rw [if_pos hintent] at hsearch
      exact .of_ok (hsearch.trans (dif_pos rfl)) (fun h => hout h.2)
        (response_of_ranked hasks hranked hin fun _ => ⟨rfl, rfl⟩)
    rw [if_neg hintent] at hsearch
    split at hsearch
    · rename_i hnone
      refine .of_ok (hsearch.trans (dif_pos rfl)) (fun h => hout h.2)
        (response_of_ranked hasks ?_ hin fun h => absurd h hintent)
      rwa [← show selected = [] from hnone]
    · have hselected : ∀ hit ∈ selected, ∃ c ∈ kept, c.tripAttachmentId = hit.tripAttachmentId := by
        intro hit hhit
        obtain ⟨c, hc, hid⟩ := hin hit (hranked.best hit hhit).1
        exact ⟨c, (hmem c).mpr hc, hid⟩
      obtain ⟨response, hresponse, hattachments⟩ :=
        answerQuestion_eq_ok validate answering hselected
      refine .of_ok (hsearch.trans hresponse) (fun h => hout h.2)
        (response_of_ranked hasks ?_ hin fun h => absurd h hintent)
      rwa [hattachments]

/-- Without such a clock, the search fails although no hit is outside. -/
theorem not_exact_of_not_onClock (quotients : Quotients S) (validate : R → Option AnswerOutput)
    (options : SearchOptions S) (answering : List SearchCandidate → Answering R)
    (hwords : timeWords request.query ≠ []) {c : SearchCandidate} (hc : c ∈ request.candidates)
    {t : AwareTime} (ht : t ∈ c.takenAt) (hout : ¬ OnClock t) :
    ¬ Exact quotients validate request options [] answering := by
  intro h
  obtain ⟨e, he⟩ := timeCandidates_eq_error (timeWords request.query) hc ht hout
  have hraises : search quotients validate request options [] answering = .error e := by
    rw [search, filterByTime, if_neg hwords, he]
    rfl
  obtain ⟨hit, hhit, -⟩ := (h.raises.mp ⟨e, hraises⟩).2
  cases hhit

/-- **Search results are sound and complete** where the times it reads have a clock in Korea. -/
theorem search_exact_iff (quotients : Quotients S) (validate : R → Option AnswerOutput)
    (request : SearchRequest) (options : SearchOptions S) :
    (∀ hits answering, Exact quotients validate request options hits answering) ↔
      (timeWords request.query = [] ∨ ∀ c ∈ request.candidates, ∀ t ∈ c.takenAt, OnClock t) := by
  constructor
  · intro h
    by_contra hnot
    rw [not_or] at hnot
    obtain ⟨hwords, hclock⟩ := hnot
    push Not at hclock
    obtain ⟨c, hc, t, ht, hout⟩ := hclock
    exact not_exact_of_not_onClock quotients validate options (fun _ => .timeout) hwords hc ht hout
      (h [] fun _ => .timeout)
  · exact fun hclock hits answering =>
      exact_of_onClock quotients validate options hits answering hclock

end Results

/-- The quotients of the rational numbers. -/
def rationalQuotients : Quotients ℚ where
  round := id
  apart _ _ h := lt_of_lt_of_le (lt_add_of_pos_right _ (by norm_num)) h

/-- The question of an evening, over a photo taken in the last hour of the year 9999. -/
def eveningRequest : SearchRequest where
  query := "저녁"
  intent := .search
  visualQuery := none
  candidates := [⟨⟨1, by decide⟩, "trips/1.jpg", some ⟨253402300799000000, 0⟩⟩]
  limit := 30
  query_length := by decide +kernel
  limit_range := by decide
  unique := by decide

def defaultOptions : SearchOptions ℚ where
  questionK := 5
  minScore := 1 / 4
  scoreRatio := 4 / 5
  question_range := by decide
  min_range := by norm_num
  ratio_range := by norm_num

/-- The search fails although the vector store returned no hit outside the candidates. -/
theorem eveningRequest_not_exact : ¬ ∀ hits answering,
    Exact (R := Unit) rationalQuotients (fun _ => none) eveningRequest defaultOptions hits
      answering := by
  intro h
  refine not_exact_of_not_onClock rationalQuotients (fun _ => none) defaultOptions
    (fun _ => .timeout) ?_ List.mem_cons_self rfl ?_ (h [] fun _ => .timeout)
  · decide +kernel
  · unfold OnClock
    decide +kernel

end Yeodam.Search
