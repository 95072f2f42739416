/-
The tools of the agent's conversations (`Tools` in `app/pipeline/agent/model.py`): what a
call of the model is read as, and how it is answered.

A call comes as a tool name and a text of arguments, both as the model wrote them. `args`
decodes the text, `choose` reads the arguments the tool takes and `perform` does what was
read, with the services of `Services`.

`_int` and `_args` catch some exceptions of the conversions they make and miss others. A
call is therefore answered only if what it holds stays clear of these: `answer_iff` is the
exact condition (`Answerable`).
-/

import Yeodam.Infra.PlaceTables
import Yeodam.Infra.Vlm
import Yeodam.Pipeline.Trip

namespace Yeodam.Pipeline

open Yeodam.Lib Yeodam.Infra

variable {V : Type} (N : Numerics V)

/-! ### What the tools compute with -/

/-- What `json.loads` makes of a text. -/
inductive Loaded where
  | value (v : Value)
  /-- `JSONDecodeError` -/
  | decodeError
  /-- Any other exception: an integer of over 4300 digits is a `ValueError`, a nesting that
  is too deep a `RecursionError`. -/
  | raises

/-- What is not defined here: the texts of floats and what reads and writes them, the
decoder's and the interpreter's limits on nesting, time zones, `np.mean` and the tables of
`unicodedata`. -/
structure Python where
  loads : PyStr → Loaded
  /-- `str(value)`; none where the nesting is too deep for it. -/
  str : Value → Option PyStr
  /-- `int(x)` of a finite float. -/
  truncate : PyFloat → Int
  round : PyFloat → Nat → PyFloat
  /-- `json.dumps(value, ensure_ascii=False)` -/
  dumps : Value → PyStr
  mean : List PyFloat → PyFloat
  /-- `value.astimezone(KST).strftime("%Y-%m-%d %H:%M")` -/
  minute : Yeodam.Schemas.AwareTime → String
  /-- `f"{q:.3f}"` -/
  fixed : ℚ → String
  unicode : Unicode

/-- `normalize`, of a text of the model: a lone surrogate is no letter and no number, and
nothing composes across it. -/
def Python.normalize (py : Python) : PyStr → String
  | .text s => Infra.normalize py.unicode (some s)
  | .surrogate codePoints =>
      let runs := codePoints.splitOnP fun n => 0xD800 ≤ n && n ≤ 0xDFFF
      .join (runs.map fun run => Infra.normalize py.unicode (some (.ofList (run.map Char.ofNat))))

/-- A place a search found: the row kept of it. -/
structure Candidate where
  candidateId : String
  name : String
  category : String
  latitude : PyFloat
  longitude : PyFloat
  distance : Option Int
  /-- Only of a keyword search. -/
  address : Option String
deriving DecidableEq

/-- What `kakao.keyword` comes to. -/
inductive KeywordReply where
  /-- `KakaoUnavailable` or `TimeoutError` -/
  | unavailable
  /-- The calls of the job are used up. -/
  | overLimit
  | found (places : List Candidate)

/-- The services the tools search. -/
structure Services (V : Type) where
  /-- `qdrant.search(embedding, ids, k)`: ids with their scores. -/
  search : Option V → List Int → Nat → List (Int × PyFloat)
  /-- `places.search`; none where it raises `ValueError` or `sqlite3.Error`. -/
  publicPlaces : PyStr → PyFloat → PyFloat → Int → Option (List Candidate)
  keyword : PyStr → PyFloat → PyFloat → Int → KeywordReply

/-- The key of `kakao_results`. -/
structure KeywordKey where
  query : PyStr
  latitude : PyFloat
  longitude : PyFloat
  radius : Int
deriving DecidableEq

def maxImages : Nat := 30
def readLimit : Nat := 4

/-! ### Arguments -/

variable (py : Python)

/-- `bool(value)` -/
def truthy : Value → Bool
  | .null => false
  | .bool b => b
  | .int n => n ≠ 0
  | .float x => x ≠ .finite "0.0" && x ≠ .finite "-0.0"
  | .str s => s ≠ .text ""
  | .arr xs => !xs.isEmpty
  | .obj fields => !fields.isEmpty

/-- `str(value)` -/
def strOf (v : Value) : Except Raised PyStr :=
  match py.str v with
  | some text => .ok text
  | none => .error .other

/-- `str(value or "")`; an argument that is missing is `None`. -/
def strOrEmpty (value : Option Value) : Except Raised PyStr :=
  match value.filter truthy with
  | none => .ok (.text "")
  | some v => strOf py v

/-- `str(value or "").strip()` -/
def argText (value : Option Value) : Except Raised PyStr :=
  (strOrEmpty py value).map PyStr.strip

/-- `f"{text}{s}"` -/
def PyStr.prepend (text : String) : PyStr → PyStr
  | .text s => .text (text ++ s)
  | .surrogate codePoints => .surrogate (text.toList.map Char.toNat ++ codePoints)

/-- `_ref` -/
def ref (value : Option Value) : Except Raised PyStr := do
  let text ← argText py value
  return if text.isDigit then PyStr.prepend "S" text else text

/-- `int(value)`: the number, none where `_int` catches the exception. Of an infinity it is
an `OverflowError`, which it does not catch. -/
def toInt : Option Value → Except Raised (Option Int)
  | some (.bool b) => .ok (some (if b then 1 else 0))
  | some (.int n) => .ok (some n)
  | some (.float (.finite repr)) => .ok (some (py.truncate (.finite repr)))
  | some (.float .nan) => .ok none
  | some (.float .inf) | some (.float .negInf) => .error .other
  | some (.str s) => .ok s.toInt?
  | none | some .null | some (.arr _) | some (.obj _) => .ok none

/-- `_int` -/
def intArg (value : Option Value) (default low high : Int) : Except Raised Int := do
  let number ← toInt py value
  return max low (min high (number.getD default))

/-- `raw or "{}"` -/
def jsonText (raw : PyStr) : PyStr := if raw = .text "" then .text "\x7b\x7d" else raw

/-- `_args`: the object in the text. -/
def args (raw : PyStr) : Except Raised Value :=
  match py.loads (jsonText raw) with
  | .value v => .ok (if v.isObj then v else .obj [])
  | .decodeError => .ok (.obj [])
  | .raises => .error .other

/-! ### What the tools see of the trip -/

/-- `time_text` -/
def timeText (p : PhotoState V) : String := (p.takenAt.map py.minute).getD "시각 없음"

namespace Trip

variable (trip : Trip V)

/-- `by_ref.get(ref)` -/
def byRef (ref : PyStr) : Option (PhotoState V) :=
  trip.view.reverse.find? fun p => .text (photoRef p) = ref

/-- `canon`, of a text of the model. -/
def canonText : PyStr → PyStr
  | .text place => .text (trip.canon place)
  | .surrogate codePoints => .surrogate codePoints

/-- `places().get(place, [])`, of a text of the model. -/
def membersOfText : PyStr → List (PhotoState V)
  | .text place => trip.membersOf place
  | .surrogate _ => []

/-- `np.mean` of the coordinates of photos: a `TypeError` where one has none. -/
def meanPoint (photos : List (PhotoState V)) : Except Raised (PyFloat × PyFloat) :=
  match photos.mapM PhotoState.point? with
  | some points => .ok (py.mean (points.map Prod.fst), py.mean (points.map Prod.snd))
  | none => .error .other

/-- `center` -/
def center (place : String) : Except Raised (Option (PyFloat × PyFloat)) :=
  let gps := (trip.membersOf place).filter fun p => p.regionOrigin = .exif
  if gps ≠ [] then (meanPoint py gps).map some
  else .ok ((trip.newPlaces.get? place).map fun new => (new.latitude, new.longitude))

/-- `trip_center` -/
def tripCenter : Except Raised (PyFloat × PyFloat) :=
  let gps := trip.view.filter fun p => p.regionOrigin = .exif
  if gps ≠ [] then meanPoint py gps else .ok trip.fallbackCenter

/-- `anchor`: where a search starts from. -/
def anchor (near : Option Value) : Except Raised (PyFloat × PyFloat) := do
  let near := match near with
    | some (.str s) => s.strip
    | _ => .text ""
  match (trip.byRef near).bind PhotoState.point?, near with
  | some point, _ => return point
  | none, .surrogate _ => trip.tripCenter py
  | none, .text place =>
      if trip.hasPlace place || (trip.merged.get? place).isSome then
        match ← trip.center py (trip.canon place) with
        | some center => return center
        | none => trip.tripCenter py
      else trip.tripCenter py

end Trip

/-! ### Reading a call -/

/-- What a call asks for. -/
inductive Action (V : Type) where
  /-- Answer with a text. -/
  | say (text : PyStr)
  | readPhotos (refs : List PyStr)
  /-- Read `n` photos of a folder, evenly spread. -/
  | readPlace (members : List (PhotoState V)) (n : Int)
  | findSimilar (photo : PhotoState V) (k : Int)
  | searchPublicPlaces (query : PyStr) (latitude longitude : PyFloat) (radius : Int)
  | searchKeyword (query : PyStr) (latitude longitude : PyFloat) (radius : Int)

def noPhoto : PyStr := .text "해당 ID의 사진이 없습니다."

variable (trip : Trip V)

/-- The arguments of `_search`, which both search tools take. -/
def chooseSearch (arguments : Value) (maxRadius : Int)
    (search : PyStr → PyFloat → PyFloat → Int → Action V) : Except Raised (Action V) := do
  let query ← argText py (arguments.get? "query")
  if query = .text "" then return .say (.text "검색어가 비어 있습니다.")
  let (latitude, longitude) ← trip.anchor py (arguments.get? "near")
  let radius ← intArg py (arguments.get? "radius_m") 2000 100 maxRadius
  return search query latitude longitude radius

/-- The arguments of `read_photo`. -/
def choosePhotos (arguments : Value) : Except Raised (Action V) :=
  match arguments.get? "photo_ids" with
  | some (.arr refs) => do return .readPhotos (← refs.mapM fun r => ref py (some r))
  | _ => .ok (.readPhotos [])

/-- The arguments of `read_place_photos`. -/
def choosePlace (arguments : Value) : Except Raised (Action V) := do
  let place ← argText py (arguments.get? "place_id")
  let members := trip.membersOfText (trip.canonText place)
  if members = [] then return .say (.text "없는 장소입니다.")
  let n ← intArg py (arguments.get? "n") 2 1 readLimit
  return .readPlace members n

/-- The arguments of `find_similar`. -/
def chooseSimilar (arguments : Value) : Except Raised (Action V) := do
  let photoRef ← ref py (arguments.get? "photo_id")
  match trip.byRef photoRef with
  | none => return .say noPhoto
  | some photo =>
      let k ← intArg py (arguments.get? "k") 6 1 10
      return .findSimilar photo k

/-- The part of `Tools.run` that reads the arguments. -/
def choose (name : PyStr) (arguments : Value) : Except Raised (Action V) :=
  if name = .text "read_photo" then choosePhotos py arguments
  else if name = .text "read_place_photos" then choosePlace py trip arguments
  else if name = .text "find_similar" then chooseSimilar py trip arguments
  else if name = .text "search_public_places" then
    chooseSearch py trip arguments 30000 .searchPublicPlaces
  else if name = .text "kakao_keyword_search" then
    chooseSearch py trip arguments 20000 .searchKeyword
  else .ok (.say (PyStr.prepend "없는 도구입니다: " name))

/-! ### Doing what was read -/

/-- The tools of one conversation. -/
structure Tools where
  /-- The images shown in it so far. -/
  imagesUsed : Nat
  candidates : Dict String Candidate := ∅
  /-- All places its searches have returned, for statements about them. -/
  returned : List Candidate := []

/-- What the conversations of a job share. -/
structure Session where
  keywordResults : Dict KeywordKey (List Candidate) := ∅

structure Reply where
  output : PyStr
  /-- The message that shows the photos asked for. -/
  message : Option ChatMessage := none
  /-- The storage keys of these photos. -/
  keys : List String := []

/-- `xs[::step]` -/
def stride {α : Type} (step : Nat) (xs : List α) : List α :=
  (xs.zipIdx.filter fun x => x.2 % step = 0).map Prod.fst

/-- `place_of(photo) or "미분류"` -/
def Trip.placeText (p : PhotoState V) : String := (trip.placeOf p).getD "미분류"

/-- The text before a photo that was read. -/
def readLabel (p : PhotoState V) : String :=
  photoRef p ++ " (장소 " ++ trip.placeText p ++ ", 촬영 시각 " ++ timeText py p ++ ")"

/-- Photos to show, each with the text before it. -/
def labelled (shown : List (String × PhotoState V)) : List Part :=
  shown.flatMap fun s => [.text (.text s.1), .image]

/-- `_read` -/
def Tools.read (tools : Tools) (refs : List PyStr) : Reply × Tools :=
  let photos := (refs.eraseDups.filterMap trip.byRef).take readLimit
  if photos = [] then ({ output := noPhoto }, tools)
  else if maxImages ≤ tools.imagesUsed then
    ({ output := .text ("한 대화에서 볼 수 있는 사진(" ++ toString maxImages ++
        "장)을 모두 썼습니다. 지금까지의 근거로 답을 정하세요.") }, tools)
  else
    let photos := photos.take (maxImages - tools.imagesUsed)
    ({ output := .text ("요청한 사진을 다음 메시지에 첨부했습니다: " ++
          ", ".intercalate (photos.map photoRef))
       message := some
        { role := .user,
          content := .parts (labelled (photos.map fun p => (readLabel py trip p, p))) }
       keys := photos.map fun p => p.source.analyzeStorageKey },
      { tools with imagesUsed := tools.imagesUsed + photos.length })

/-- The row of a similar photo. -/
def similarRow (photo : PhotoState V) (score : PyFloat) : Value :=
  .record
    [("photo_id", .ofString (photoRef photo)), ("place_id", .ofString (trip.placeText photo)),
      ("similarity", .float (py.round score 3)), ("taken_at", .ofString (timeText py photo))]

/-- `Session.similar`: a `KeyError` where the search returns an id that is not of the trip. -/
def Trip.similar (services : Services V) (photo : PhotoState V) (k : Int) :
    Except Raised (List (PhotoState V × PyFloat)) :=
  match photo.embedding with
  | none => .error .other
  | some vector => do
      let hits := services.search (some vector) (trip.view.map PhotoState.id) (k + 1).toNat
      let others ← (hits.filter fun hit => hit.1 ≠ photo.id).mapM fun hit =>
        match current trip.view hit.1 with
        | some other => Except.ok (other, hit.2)
        | none => .error .other
      return others.take k.toNat

/-- The row of a candidate. -/
def Candidate.row (c : Candidate) : Value :=
  .record
    ([("candidate_id", .ofString c.candidateId), ("name", .ofString c.name),
        ("category", .ofString c.category), ("lat", .float c.latitude), ("lon", .float c.longitude),
        ("distance_m", (c.distance.map Value.int).getD .null)] ++
      (c.address.map fun address => ("address", Value.ofString address)).toList)

/-- Keep the candidates found and answer with them. -/
def Tools.found (tools : Tools) (latitude longitude : PyFloat) (places : List Candidate) :
    Reply × Tools :=
  ({ output := py.dumps <| .record
      [("center", .arr [.float (py.round latitude 5), .float (py.round longitude 5)]),
        ("results", .arr (places.map Candidate.row))] },
    { tools with
      candidates := places.foldl (fun table c => table.set c.candidateId c) tools.candidates
      returned := tools.returned ++ places })

/-- The part of `Tools.run` after the arguments are read. -/
def Tools.perform (services : Services V) (session : Session) (tools : Tools) :
    Action V → Except Raised (Reply × Tools × Session)
  | .say text => .ok ({ output := text }, tools, session)
  | .readPhotos refs =>
      let (reply, tools) := tools.read py trip refs
      .ok (reply, tools, session)
  | .readPlace members n =>
      let step := max 1 (members.length / n.toNat)
      let refs := ((stride step members).take n.toNat).map fun p => PyStr.text (photoRef p)
      let (reply, tools) := tools.read py trip refs
      .ok (reply, tools, session)
  | .findSimilar photo k => do
      let hits ← trip.similar services photo k
      return ({ output := py.dumps (.arr (hits.map fun h => similarRow py trip h.1 h.2)) },
        tools, session)
  | .searchPublicPlaces query latitude longitude radius =>
      match services.publicPlaces query latitude longitude radius with
      | none =>
          .ok ({ output := .text "공공 장소 자료를 지금 쓸 수 없습니다. 다른 근거를 쓰세요." },
            tools, session)
      | some places =>
          let (reply, tools) := tools.found py latitude longitude places
          .ok (reply, tools, session)
  | .searchKeyword query latitude longitude radius =>
      let key := ⟨query, py.round latitude 4, py.round longitude 4, radius⟩
      match session.keywordResults.get? key with
      | some places =>
          let (reply, tools) := tools.found py latitude longitude places
          .ok (reply, tools, session)
      | none =>
          match services.keyword query latitude longitude radius with
          | .unavailable =>
              .ok ({ output := .text "카카오 검색을 지금 쓸 수 없습니다. 다른 근거를 쓰세요." },
                tools, session)
          | .overLimit =>
              .ok ({ output := .text "카카오 검색 한도에 닿았습니다. 다른 근거를 쓰세요." }, tools,
                session)
          | .found places =>
              let (reply, tools) := tools.found py latitude longitude places
              .ok (reply, tools, ⟨session.keywordResults.set key places⟩)

/-- `Tools.run` -/
def Tools.run (services : Services V) (session : Session) (tools : Tools) (name : PyStr)
    (arguments : Value) : Except Raised (Reply × Tools × Session) := do
  tools.perform py trip services session (← choose py trip name arguments)

/-- A call with its arguments as the model wrote them. -/
def Tools.answer (services : Services V) (session : Session) (tools : Tools) (name raw : PyStr) :
    Except Raised (Reply × Tools × Session) := do
  tools.run py trip services session name (← args py raw)

/-! ### Numbers within their bounds -/

/-- The number read is within the bounds of its tool, and the photo one of the trip. -/
def Action.Proper : Action V → Prop
  | .say _ | .readPhotos _ => True
  | .readPlace _ n => 1 ≤ n ∧ n ≤ readLimit
  | .findSimilar photo k => (1 ≤ k ∧ k ≤ 10) ∧ photo ∈ trip.view
  | .searchPublicPlaces _ _ _ radius => 100 ≤ radius ∧ radius ≤ 30000
  | .searchKeyword _ _ _ radius => 100 ≤ radius ∧ radius ≤ 20000

section Bounds

variable {py : Python} {trip : Trip V} {value : Option Value} {name : PyStr} {arguments : Value}
  {action : Action V}

theorem intArg_bounds {default low high n : Int} (hle : low ≤ high)
    (h : intArg py value default low high = .ok n) : low ≤ n ∧ n ≤ high := by
  obtain ⟨number, -, hn⟩ := except_bind_eq_ok.mp h
  cases hn
  omega

theorem chooseSearch_proper {maxRadius : Int} {search : PyStr → PyFloat → PyFloat → Int → Action V}
    (hle : 100 ≤ maxRadius)
    (hsearch : ∀ query latitude longitude radius, 100 ≤ radius → radius ≤ maxRadius →
      (search query latitude longitude radius).Proper trip)
    (h : chooseSearch py trip arguments maxRadius search = .ok action) : action.Proper trip := by
  obtain ⟨query, -, h⟩ := except_bind_eq_ok.mp h
  split at h
  · cases h
    trivial
  · obtain ⟨⟨latitude, longitude⟩, -, h⟩ := except_bind_eq_ok.mp h
    obtain ⟨radius, hradius, h⟩ := except_bind_eq_ok.mp h
    obtain ⟨hlow, hhigh⟩ := intArg_bounds hle hradius
    cases h
    exact hsearch _ _ _ _ hlow hhigh

theorem byRef_mem {ref : PyStr} {p : PhotoState V} (h : trip.byRef ref = some p) :
    p ∈ trip.view ∧ .text (photoRef p) = ref :=
  ⟨List.mem_reverse.mp (List.mem_of_find?_eq_some h), by simpa using List.find?_some h⟩

/-- Whatever the arguments, the numbers the tools compute with are clamped. -/
theorem choose_proper (h : choose py trip name arguments = .ok action) : action.Proper trip := by
  unfold choose at h
  split_ifs at h
  · unfold choosePhotos at h
    split at h
    · obtain ⟨refs, -, h⟩ := except_bind_eq_ok.mp h
      cases h
      trivial
    · cases h
      trivial
  · obtain ⟨place, -, h⟩ := except_bind_eq_ok.mp h
    dsimp only at h
    split at h
    · cases h
      trivial
    · obtain ⟨n, hn, h⟩ := except_bind_eq_ok.mp h
      cases h
      exact intArg_bounds (by decide) hn
  · obtain ⟨photoRef, -, h⟩ := except_bind_eq_ok.mp h
    split at h
    · cases h
      trivial
    · rename_i photo hphoto
      obtain ⟨k, hk, h⟩ := except_bind_eq_ok.mp h
      cases h
      exact ⟨intArg_bounds (by decide) hk, (byRef_mem hphoto).1⟩
  · refine chooseSearch_proper (by decide) ?_ h
    exact fun _ _ _ _ hlow hhigh => ⟨hlow, hhigh⟩
  · refine chooseSearch_proper (by decide) ?_ h
    exact fun _ _ _ _ hlow hhigh => ⟨hlow, hhigh⟩
  · cases h
    trivial

end Bounds

/-! ### Which calls are answered -/

/-- `int()` of the argument is not an `OverflowError`: it is not an infinity. -/
def Convertible (value : Option Value) : Prop :=
  value ≠ some (.float .inf) ∧ value ≠ some (.float .negInf)

/-- `str()` of the argument is not a `RecursionError`. -/
def Textual (value : Option Value) : Prop :=
  ∀ v, value = some v → truthy v → py.str v ≠ none

/-- The object in the text; an empty one where there is none. -/
def decoded (raw : PyStr) : Value :=
  match py.loads (jsonText raw) with
  | .value v => if v.isObj then v else .obj []
  | _ => .obj []

/-- The argument as a text without spaces around it. -/
def plainText (value : Option Value) : PyStr :=
  (((value.filter truthy).bind py.str).getD (.text "")).strip

/-- The argument as a photo id. -/
def refText (value : Option Value) : PyStr :=
  let text := plainText py value
  if text.isDigit then PyStr.prepend "S" text else text

/-- The photo ids of `read_photo`. -/
def photoIds (arguments : Value) : List Value :=
  ((arguments.get? "photo_ids").map Value.items).getD []

/-- The arguments of a tool stay clear of the exceptions it does not catch. -/
structure Acceptable (name : PyStr) (arguments : Value) : Prop where
  photos : name = .text "read_photo" → ∀ id ∈ photoIds arguments, Textual py (some id)
  /-- Of a folder that has photos, `n` is read. -/
  place : name = .text "read_place_photos" →
    Textual py (arguments.get? "place_id") ∧
    (trip.membersOfText (trip.canonText (plainText py (arguments.get? "place_id"))) ≠ [] →
      Convertible (arguments.get? "n"))
  /-- Of a photo of the trip, `k` is read. -/
  similar : name = .text "find_similar" →
    Textual py (arguments.get? "photo_id") ∧
    (trip.byRef (refText py (arguments.get? "photo_id")) ≠ none → Convertible (arguments.get? "k"))
  /-- Of a query that is not empty, `radius_m` is read. -/
  search : name = .text "search_public_places" ∨ name = .text "kakao_keyword_search" →
    Textual py (arguments.get? "query") ∧
    (plainText py (arguments.get? "query") ≠ .text "" → Convertible (arguments.get? "radius_m"))

/-- A call stays clear of the exceptions that are not caught: the decoder takes its text, or
finds that it is not JSON, and the arguments are acceptable. -/
def Answerable (name raw : PyStr) : Prop :=
  py.loads (jsonText raw) ≠ .raises ∧ Acceptable py trip name (decoded py raw)

/-- The photos have the vectors and coordinates the tools read. -/
structure Trip.Readable (trip : Trip V) : Prop where
  embedded : ∀ p ∈ trip.view, p.embedding ≠ none
  located : ∀ p ∈ trip.view, p.regionOrigin = .exif → p.point? ≠ none

/-- The vector search finds photos it was asked to search. -/
def Services.Searching (services : Services V) : Prop :=
  ∀ vector ids k, ∀ hit ∈ services.search vector ids k, hit.1 ∈ ids

section Answers

variable {py : Python} {trip : Trip V} {services : Services V} {session : Session} {tools : Tools}
  {value : Option Value} {name raw : PyStr} {arguments : Value} {action : Action V}

/-! #### Conversions -/

theorem toInt_ok_iff : (∃ number, toInt py value = .ok number) ↔ Convertible value := by
  unfold toInt Convertible
  split <;> simp

theorem intArg_ok_iff {default low high : Int} :
    (∃ n, intArg py value default low high = .ok n) ↔ Convertible value := by
  rw [← @toInt_ok_iff py]
  constructor
  · rintro ⟨n, h⟩
    obtain ⟨number, hnumber, -⟩ := except_bind_eq_ok.mp h
    exact ⟨number, hnumber⟩
  · rintro ⟨number, h⟩
    exact bind_succeeds h ⟨_, rfl⟩

theorem argText_eq_ok {text : PyStr} :
    argText py value = .ok text ↔ Textual py value ∧ plainText py value = text := by
  unfold argText strOrEmpty strOf Textual plainText
  cases value with
  | none => simp
  | some v =>
      by_cases hv : truthy v = true
      · cases hstr : py.str v <;> simp [Option.filter, hv, hstr]
      · simp [Option.filter, hv]

theorem ref_eq_ok {text : PyStr} :
    ref py value = .ok text ↔ Textual py value ∧ refText py value = text := by
  constructor
  · intro h
    obtain ⟨plain, hplain, h⟩ := except_bind_eq_ok.mp h
    obtain ⟨htextual, rfl⟩ := argText_eq_ok.mp hplain
    cases h
    exact ⟨htextual, rfl⟩
  · rintro ⟨htextual, rfl⟩
    exact except_bind_eq_ok.mpr ⟨_, argText_eq_ok.mpr ⟨htextual, rfl⟩, rfl⟩

theorem args_eq_ok :
    args py raw = .ok arguments ↔ py.loads (jsonText raw) ≠ .raises ∧
      decoded py raw = arguments := by
  unfold args decoded
  cases py.loads (jsonText raw) <;> simp

/-! #### The trip -/

theorem meanPoint_succeeds {photos : List (PhotoState V)} (h : ∀ p ∈ photos, p.point? ≠ none) :
    ∃ point, Trip.meanPoint py photos = .ok point := by
  unfold Trip.meanPoint
  cases hpoints : photos.mapM PhotoState.point? with
  | some points => exact ⟨_, rfl⟩
  | none =>
      obtain ⟨p, hp, hnone⟩ := mapM_eq_none hpoints
      exact absurd hnone (h p hp)

theorem center_succeeds (htrip : trip.Readable) (place : String) :
    ∃ center, trip.center py place = .ok center := by
  unfold Trip.center
  dsimp only
  split
  · have hpoints : ∀ p ∈ (trip.membersOf place).filter fun p => p.regionOrigin = .exif,
        p.point? ≠ none := by
      intro p hp
      obtain ⟨hmember, hexif⟩ := List.mem_filter.mp hp
      exact htrip.located p (List.mem_filter.mp hmember).1 (of_decide_eq_true hexif)
    have hmean : ∃ point, Trip.meanPoint py _ = .ok point := meanPoint_succeeds hpoints
    obtain ⟨point, hpoint⟩ := hmean
    exact ⟨some point, by rw [hpoint]; rfl⟩
  · exact ⟨_, rfl⟩

theorem tripCenter_succeeds (htrip : trip.Readable) : ∃ point, trip.tripCenter py = .ok point := by
  unfold Trip.tripCenter
  dsimp only
  split
  · apply meanPoint_succeeds
    intro p hp
    obtain ⟨hview, hexif⟩ := List.mem_filter.mp hp
    exact htrip.located p hview (of_decide_eq_true hexif)
  · exact ⟨_, rfl⟩

/-- Every search has a place to start from, whatever the model gave for it. -/
theorem anchor_succeeds (htrip : trip.Readable) (near : Option Value) :
    ∃ point, trip.anchor py near = .ok point := by
  unfold Trip.anchor
  dsimp only
  split
  · exact ⟨_, rfl⟩
  · exact tripCenter_succeeds htrip
  · split
    · obtain ⟨center, hcenter⟩ : ∃ center, trip.center py (trip.canon _) = .ok center :=
        center_succeeds htrip _
      apply bind_succeeds hcenter
      cases center with
      | some point => exact ⟨point, rfl⟩
      | none => exact tripCenter_succeeds htrip
    · exact tripCenter_succeeds htrip

/-! #### Reading and doing -/

theorem chooseSearch_ok_iff (htrip : trip.Readable) {maxRadius : Int}
    {search : PyStr → PyFloat → PyFloat → Int → Action V} :
    (∃ action, chooseSearch py trip arguments maxRadius search = .ok action) ↔
      Textual py (arguments.get? "query") ∧
      (plainText py (arguments.get? "query") ≠ .text "" →
        Convertible (arguments.get? "radius_m")) := by
  constructor
  · rintro ⟨action, h⟩
    obtain ⟨query, hquery, h⟩ := except_bind_eq_ok.mp h
    obtain ⟨htextual, rfl⟩ := argText_eq_ok.mp hquery
    refine ⟨htextual, fun hne => ?_⟩
    rw [if_neg hne] at h
    obtain ⟨point, -, h⟩ := except_bind_eq_ok.mp h
    obtain ⟨radius, hradius, -⟩ := except_bind_eq_ok.mp h
    exact intArg_ok_iff.mp ⟨radius, hradius⟩
  · rintro ⟨htextual, hradius⟩
    refine bind_succeeds (argText_eq_ok.mpr ⟨htextual, rfl⟩) ?_
    by_cases hquery : plainText py (arguments.get? "query") = .text ""
    · rw [if_pos hquery]
      exact ⟨_, rfl⟩
    · rw [if_neg hquery]
      obtain ⟨point, hpoint⟩ : ∃ point, trip.anchor py (arguments.get? "near") = .ok point :=
        anchor_succeeds htrip _
      obtain ⟨radius, hint⟩ := intArg_ok_iff.mpr (hradius hquery)
      exact bind_succeeds hpoint (bind_succeeds hint ⟨_, rfl⟩)

theorem choosePhotos_ok_iff :
    (∃ action : Action V, choosePhotos py arguments = .ok action) ↔
      ∀ id ∈ photoIds arguments, Textual py (some id) := by
  unfold choosePhotos
  split
  · rename_i refs hrefs
    have hids : photoIds arguments = refs := by simp [photoIds, hrefs, Value.items]
    rw [hids]
    constructor
    · rintro ⟨action, h⟩ id hid
      obtain ⟨texts, htexts, -⟩ := except_bind_eq_ok.mp h
      obtain ⟨text, -, htext⟩ := exists_right_of_forall₂ (mapM_eq_ok.mp htexts) hid
      exact (ref_eq_ok.mp htext).1
    · intro h
      obtain ⟨texts, hok⟩ := mapM_succeeds fun r hr => ⟨_, ref_eq_ok.mpr ⟨h r hr, rfl⟩⟩
      exact bind_succeeds hok ⟨_, rfl⟩
  · rename_i hno
    have hids : photoIds arguments = [] := by
      unfold photoIds
      cases harg : arguments.get? "photo_ids" with
      | none => rfl
      | some v =>
          cases v with
          | arr refs => exact absurd harg (hno refs)
          | _ => rfl
    rw [hids]
    exact ⟨fun _ id hid => (List.not_mem_nil hid).elim, fun _ => ⟨_, rfl⟩⟩

theorem choosePlace_ok_iff :
    (∃ action, choosePlace py trip arguments = .ok action) ↔
      Textual py (arguments.get? "place_id") ∧
      (trip.membersOfText (trip.canonText (plainText py (arguments.get? "place_id"))) ≠ [] →
        Convertible (arguments.get? "n")) := by
  constructor
  · rintro ⟨action, h⟩
    obtain ⟨place, htext, h⟩ := except_bind_eq_ok.mp h
    obtain ⟨htextual, rfl⟩ := argText_eq_ok.mp htext
    refine ⟨htextual, fun hmembers => ?_⟩
    rw [if_neg hmembers] at h
    obtain ⟨n, hn, -⟩ := except_bind_eq_ok.mp h
    exact intArg_ok_iff.mp ⟨n, hn⟩
  · rintro ⟨htextual, hn⟩
    refine bind_succeeds (argText_eq_ok.mpr ⟨htextual, rfl⟩) ?_
    dsimp only
    split
    · exact ⟨_, rfl⟩
    · rename_i hmembers
      obtain ⟨n, hok⟩ := intArg_ok_iff.mpr (hn hmembers)
      exact bind_succeeds hok ⟨_, rfl⟩

theorem chooseSimilar_ok_iff :
    (∃ action, chooseSimilar py trip arguments = .ok action) ↔
      Textual py (arguments.get? "photo_id") ∧
      (trip.byRef (refText py (arguments.get? "photo_id")) ≠ none →
        Convertible (arguments.get? "k")) := by
  constructor
  · rintro ⟨action, h⟩
    obtain ⟨id, htext, h⟩ := except_bind_eq_ok.mp h
    obtain ⟨htextual, rfl⟩ := ref_eq_ok.mp htext
    refine ⟨htextual, fun hfound => ?_⟩
    split at h
    · contradiction
    · obtain ⟨k, hk, -⟩ := except_bind_eq_ok.mp h
      exact intArg_ok_iff.mp ⟨k, hk⟩
  · rintro ⟨htextual, hk⟩
    refine bind_succeeds (ref_eq_ok.mpr ⟨htextual, rfl⟩) ?_
    split
    · exact ⟨_, rfl⟩
    · rename_i hfound
      obtain ⟨k, hok⟩ := intArg_ok_iff.mpr (hk (by rw [hfound]; exact Option.some_ne_none _))
      exact bind_succeeds hok ⟨_, rfl⟩

theorem choose_ok_iff (htrip : trip.Readable) :
    (∃ action, choose py trip name arguments = .ok action) ↔ Acceptable py trip name arguments := by
  unfold choose
  split_ifs with hphoto hplace hsimilar hpublic hkeyword
  · subst hphoto
    rw [choosePhotos_ok_iff]
    exact ⟨fun h => ⟨fun _ => h, nofun, nofun, nofun⟩, fun h => h.photos rfl⟩
  · subst hplace
    rw [choosePlace_ok_iff]
    exact ⟨fun h => ⟨nofun, fun _ => h, nofun, nofun⟩, fun h => h.place rfl⟩
  · subst hsimilar
    rw [chooseSimilar_ok_iff]
    exact ⟨fun h => ⟨nofun, nofun, fun _ => h, nofun⟩, fun h => h.similar rfl⟩
  · subst hpublic
    rw [chooseSearch_ok_iff htrip]
    exact ⟨fun h => ⟨nofun, nofun, nofun, fun _ => h⟩, fun h => h.search (.inl rfl)⟩
  · subst hkeyword
    rw [chooseSearch_ok_iff htrip]
    exact ⟨fun h => ⟨nofun, nofun, nofun, fun _ => h⟩, fun h => h.search (.inr rfl)⟩
  · constructor
    · intro _
      exact ⟨fun h => absurd h hphoto, fun h => absurd h hplace, fun h => absurd h hsimilar,
        fun h => (h.elim hpublic hkeyword).elim⟩
    · intro _
      exact ⟨_, rfl⟩

theorem similar_succeeds (htrip : trip.Readable) (hservices : services.Searching)
    {photo : PhotoState V} {k : Int} (hphoto : photo ∈ trip.view) :
    ∃ hits, trip.similar services photo k = .ok hits := by
  unfold Trip.similar
  cases hv : photo.embedding with
  | none => exact absurd hv (htrip.embedded photo hphoto)
  | some vector =>
      have hfound : ∀ hit ∈ (services.search (some vector) (trip.view.map PhotoState.id)
          (k + 1).toNat).filter fun hit => hit.1 ≠ photo.id,
          ∃ other, (match current trip.view hit.1 with
            | some other => Except.ok (other, hit.2)
            | none => Except.error Raised.other) = .ok other := by
        intro hit hhit
        have hid := hservices _ _ _ hit (List.mem_filter.mp hhit).1
        obtain ⟨other, hother, hotherid⟩ := List.mem_map.mp hid
        cases hcurrent : current trip.view hit.1 with
        | some found => exact ⟨(found, hit.2), rfl⟩
        | none =>
            have hne := List.find?_eq_none.mp hcurrent other hother
            simp [hotherid] at hne
      obtain ⟨others, hothers⟩ := mapM_succeeds hfound
      exact bind_succeeds hothers ⟨_, rfl⟩

theorem perform_succeeds (htrip : trip.Readable) (hservices : services.Searching)
    (haction : action.Proper trip) :
    ∃ reply, tools.perform py trip services session action = .ok reply := by
  cases action with
  | say text => exact ⟨_, rfl⟩
  | readPhotos refs => exact ⟨_, rfl⟩
  | readPlace members n => exact ⟨_, rfl⟩
  | findSimilar photo k =>
      obtain ⟨hits, hok⟩ := similar_succeeds htrip hservices (k := k) haction.2
      exact bind_succeeds hok ⟨_, rfl⟩
  | searchPublicPlaces query latitude longitude radius =>
      simp only [Tools.perform]
      split <;> exact ⟨_, rfl⟩
  | searchKeyword query latitude longitude radius =>
      simp only [Tools.perform]
      split
      · exact ⟨_, rfl⟩
      · split <;> exact ⟨_, rfl⟩

/-- **The calls that are answered.** A call is answered, by numbers within their bounds,
exactly when it stays clear of the exceptions that `_args`, `_ref` and `_int` do not catch. -/
theorem answer_iff (htrip : trip.Readable) (hservices : services.Searching) :
    ((∃ reply, tools.answer py trip services session name raw = .ok reply) ∧
      ∀ action, choose py trip name (decoded py raw) = .ok action → action.Proper trip) ↔
    Answerable py trip name raw := by
  constructor
  · rintro ⟨⟨reply, h⟩, -⟩
    obtain ⟨arguments, hargs, h⟩ := except_bind_eq_ok.mp h
    obtain ⟨hdecodes, rfl⟩ := args_eq_ok.mp hargs
    obtain ⟨action, hchoose, -⟩ := except_bind_eq_ok.mp h
    exact ⟨hdecodes, (choose_ok_iff htrip).mp ⟨action, hchoose⟩⟩
  · rintro ⟨hdecodes, hacceptable⟩
    refine ⟨?_, fun action => choose_proper⟩
    obtain ⟨action, hchoose⟩ := (choose_ok_iff htrip).mpr hacceptable
    refine bind_succeeds (args_eq_ok.mpr ⟨hdecodes, rfl⟩) (bind_succeeds hchoose ?_)
    exact perform_succeeds htrip hservices (choose_proper hchoose)

end Answers

/-! ### A call with an infinite number -/

/-- `json.loads` reads `1e999` as an infinity. -/
def samplePython : Python where
  loads raw :=
    if raw = .text "\x7b\"photo_id\": \"S1\", \"k\": 1e999\x7d" then
      .value (.record [("photo_id", .ofString "S1"), ("k", .float .inf)])
    else if raw = .text "\x7b\"photo_id\": \"S1\", \"k\": 30\x7d" then
      .value (.record [("photo_id", .ofString "S1"), ("k", .int 30)])
    else if raw = .text "\x7b\"photo_ids\": [\"S1\"]\x7d" then
      .value (.record [("photo_ids", .arr [.ofString "S1"])])
    else .decodeError
  str
    | .str s => some s
    | _ => none
  truncate _ := 0
  round x _ := x
  dumps _ := .text "[]"
  mean xs := xs.headD .nan
  minute _ := ""
  fixed _ := ""
  unicode := { nfkc := id, lower := id, alphanumeric := Char.isAlphanum, alphanumeric_bar := rfl }

def sampleTrip : Trip Unit :=
  { photos := [{ source := ⟨1, "a.jpg", none, none, none, none⟩, embedding := some () }],
    members := [1], fallbackCenter := (.finite "37.5", .finite "127.0") }

def sampleServices : Services Unit :=
  { search := fun _ _ _ => [], publicPlaces := fun _ _ _ _ => none,
    keyword := fun _ _ _ _ => .overLimit }

theorem sampleTrip_readable : sampleTrip.Readable :=
  ⟨by decide, by decide⟩

theorem sampleServices_searching : sampleServices.Searching :=
  fun _ _ _ _ hhit => (List.not_mem_nil hhit).elim

/-- A call of `find_similar` with the number `k`. -/
def similarCall (k : String) : PyStr :=
  .text ("\x7b\"photo_id\": \"S1\", \"k\": " ++ k ++ "\x7d")

/-- `int()` of the infinity is an `OverflowError`, which `_int` does not catch. -/
theorem infinite_not_answered :
    (sampleTrip.Readable ∧ sampleServices.Searching) ∧
    ¬ ∃ reply, Tools.answer samplePython sampleTrip sampleServices {} { imagesUsed := 1 }
      (.text "find_similar") (similarCall "1e999") = .ok reply := by
  refine ⟨⟨sampleTrip_readable, sampleServices_searching⟩, ?_⟩
  rintro ⟨reply, h⟩
  have herror : Tools.answer samplePython sampleTrip sampleServices {} { imagesUsed := 1 }
      (.text "find_similar") (similarCall "1e999") = .error .other := by rfl
  rw [herror] at h
  cases h

/-- A number that is finite but out of bounds is answered, with the bound in its place. -/
theorem answer_iff_large :
    (∃ reply, Tools.answer samplePython sampleTrip sampleServices {} { imagesUsed := 1 }
      (.text "find_similar") (similarCall "30") = .ok reply) ∧
    ∃ photo ∈ sampleTrip.view, choose samplePython sampleTrip (.text "find_similar")
      (decoded samplePython (similarCall "30")) = .ok (.findSimilar photo 10) := by
  have hchoose : ∃ photo ∈ sampleTrip.view, choose samplePython sampleTrip (.text "find_similar")
      (decoded samplePython (similarCall "30")) = .ok (.findSimilar photo 10) :=
    ⟨_, List.mem_singleton.mpr rfl, rfl⟩
  have hcall : Answerable samplePython sampleTrip (.text "find_similar") (similarCall "30") := by
    have hloads : samplePython.loads (jsonText (similarCall "30")) =
        .value (.record [("photo_id", .ofString "S1"), ("k", .int 30)]) := rfl
    refine ⟨fun hraises => ?_, (choose_ok_iff sampleTrip_readable).mp ?_⟩
    · rw [hloads] at hraises
      cases hraises
    · obtain ⟨photo, -, hok⟩ := hchoose
      exact ⟨_, hok⟩
  exact ⟨((answer_iff sampleTrip_readable sampleServices_searching).mpr hcall).1, hchoose⟩

end Yeodam.Pipeline
