/-
The search of the place index against the plain definition (`PlaceIndex.search` in
`app/infra/place_index.py`).

The names that equal the query come first, then those that contain it, then those it contains. Each
place is taken once, with the first distance inside the radius. `naive` says the same of the kept
places without any index, and `search_build` that the results agree where no place within the
radius lies outside the box; on the globe none does (`placeSearch_eq_naive`).
-/

import Yeodam.Infra.PlaceTables
import Yeodam.Lib.Dict

namespace Yeodam.Infra

open Yeodam.Lib

/-! ### The search -/

/-- The distances of the points, the box around a circle and the rounding of a distance. -/
structure Globe (K : Type) where
  distance : K → K → K → K → K
  box : K → K → Int → Box K
  round : K → Int

structure PlaceCandidate (K : Type) where
  candidateId : String
  name : String
  category : String
  source : String
  latitude : K
  longitude : K
  distanceM : Int

/-- A row with its best level and its distance. -/
structure Hit (K : Type) where
  score : Nat
  distance : K
  row : Row K

def maxRadius : Int := 30000

def maxTwoCharRadius : Int := 5000

def maxQueryChars : Nat := 64

section Search

variable {K : Type} [LinearOrder K] [IntCast K]

/-- `normalize(query)[:MAX_QUERY_CHARS]` -/
def queryOf (unicode : Unicode) (query : String) : String :=
  .ofList ((normalize unicode (some query)).toList.take maxQueryChars)

/-- `max(1, min(int(radius_m), cap))` -/
def clampRadius (q : String) (radius : Int) : Int :=
  max 1 (min radius (if q.length = 2 then maxTwoCharRadius else maxRadius))

/-- One row of `collect`. -/
def collectRow (globe : Globe K) (latitude longitude : K) (radius : Int) (best : Dict Nat (Hit K))
    (scored : Nat × Row K) : Dict Nat (Hit K) :=
  if (best.get? scored.2.id).any fun hit => scored.1 ≤ hit.score then best
  else
    let distance := globe.distance latitude longitude scored.2.lat scored.2.lon
    if distance ≤ (radius : K) then best.set scored.2.id ⟨scored.1, distance, scored.2⟩ else best

/-- `collect` -/
def collect (globe : Globe K) (latitude longitude : K) (radius : Int) (best : Dict Nat (Hit K))
    (batch : Nat × List (Row K)) : Dict Nat (Hit K) :=
  batch.2.foldl
    (fun best row => collectRow globe latitude longitude radius best (batch.1, row)) best

/-- `{q[i:j] for i in range(len(q)) for j in range(i + 3, len(q) + 1)} - {q}`, sorted. -/
def parts (q : String) : List String :=
  let n := q.length
  let slices := (List.range n).flatMap fun i =>
    (List.range' (i + 3) (n + 1 - (i + 3))).map fun j => String.ofList ((q.toList.take j).drop i)
  sortOn id (slices.eraseDups.filter fun part => part ≠ q)

/-- The statements of a query with their levels, in the order they are run. -/
def statements (q : String) : List (Nat × Statement) :=
  (3, .name q) ::
    ((if 3 ≤ q.length then [(2, .phrase (phrase q))]
      else if q.length = 2 then [(2, .instr q)] else []) ++
      (parts q).map fun part => (1, .name part))

/-- `(-score, distance, source, source_id)` -/
def hitOrder (hit : Hit K) : Int ×ₗ K ×ₗ String ×ₗ String :=
  toLex (-(hit.score : Int), toLex (hit.distance, toLex (hit.row.source, hit.row.sourceId)))

def candidate (globe : Globe K) (hit : Hit K) : PlaceCandidate K where
  candidateId := "kb:" ++ hit.row.source ++ ":" ++ hit.row.sourceId
  name := hit.row.name
  category := hit.row.category
  source := hit.row.source
  latitude := hit.row.lat
  longitude := hit.row.lon
  distanceM := globe.round hit.distance

/-- `PlaceIndex.search`, of a finite point. -/
def Index.search (index : Index K) (engine : Engine K) (globe : Globe K) (unicode : Unicode)
    (query : String) (latitude longitude : K) (radius limit : Int) : List (PlaceCandidate K) :=
  let q := queryOf unicode query
  if q = "" ∨ limit < 1 then []
  else
    let radius := clampRadius q radius
    let box := globe.box latitude longitude radius
    let best := (statements q).foldl (fun best s =>
      collect globe latitude longitude radius best (s.1, index.query engine s.2 box)) ∅
    ((sortOn hitOrder best.values).take limit.toNat).map (candidate globe)

/-! ### The plain definition -/

/-- The best level at which a query finds a place of these names. -/
def level (q : String) (norms : List String) : Option Nat :=
  if q ∈ norms then some 3
  else if 2 ≤ q.length ∧ ∃ n ∈ norms, q.toList <:+: n.toList then some 2
  else if ∃ n ∈ norms, 3 ≤ n.length ∧ n.toList <:+: q.toList then some 1
  else none

/-- The places within the radius that the query finds, with their levels. -/
def naiveHits (globe : Globe K) (places : List (Kept K)) (q : String) (latitude longitude : K)
    (radius : Int) : List (Hit K) :=
  (places.zipIdx 1).filterMap fun k =>
    let distance := globe.distance latitude longitude k.1.lat k.1.lon
    if distance ≤ (radius : K) then
      (level q k.1.norms).map fun score => ⟨score, distance, k.1.row k.2⟩
    else none

/-- The plain search over the kept places. -/
def naive (globe : Globe K) (unicode : Unicode) (places : List (Kept K)) (query : String)
    (latitude longitude : K) (radius limit : Int) : List (PlaceCandidate K) :=
  let q := queryOf unicode query
  let hits := naiveHits globe places q latitude longitude (clampRadius q radius)
  ((sortOn hitOrder hits).take limit.toNat).map (candidate globe)

/-- A result in the order of the plain search, which says nothing of places of one level, distance,
source and id. -/
def NaiveUpToTies (globe : Globe K) (unicode : Unicode) (places : List (Kept K)) (query : String)
    (latitude longitude : K) (radius limit : Int) (out : List (PlaceCandidate K)) : Prop :=
  let q := queryOf unicode query
  ∃ hits : List (Hit K),
    hits.Perm (naiveHits globe places q latitude longitude (clampRadius q radius)) ∧
    hits.Pairwise (fun hit hit' => hitOrder hit ≤ hitOrder hit') ∧
    out = (hits.take limit.toNat).map (candidate globe)

end Search

/-! ### Substrings -/

/-- A text without the separator is in a part before or behind it. -/
theorem infix_append_cons {α : Type} {c : α} {q a b : List α} (hc : c ∉ q) :
    q <:+: a ++ c :: b ↔ q <:+: a ∨ q <:+: b := by
  constructor
  · rintro ⟨s, t, h⟩
    rw [List.append_assoc, List.append_eq_append_iff] at h
    rcases h with ⟨u, rfl, h⟩ | ⟨u, rfl, h⟩
    · -- The text starts before the separator, and so it ends there.
      rw [List.append_eq_append_iff] at h
      rcases h with ⟨v, rfl, h⟩ | ⟨v, rfl, h⟩
      · exact .inl ⟨s, v, by rw [List.append_assoc]⟩
      · cases v with
        | nil => exact .inl ⟨s, [], by simp⟩
        | cons d v =>
            rw [List.cons_append, List.cons.injEq] at h
            exact absurd (List.mem_append_right u (h.1 ▸ List.mem_cons_self)) hc
    · cases u with
      | nil =>
          cases q with
          | nil => exact .inl ⟨a, [], by simp⟩
          | cons d q =>
              rw [List.nil_append, List.cons_append, List.cons.injEq] at h
              exact absurd (h.1 ▸ List.mem_cons_self) hc
      | cons d u =>
          rw [List.cons_append, List.cons.injEq] at h
          exact .inr ⟨u, t, by rw [h.2, List.append_assoc]⟩
  · rintro (⟨s, t, rfl⟩ | ⟨s, t, rfl⟩)
    · exact ⟨s, t ++ c :: b, by simp⟩
    · exact ⟨a ++ c :: s, t, by simp⟩

/-- No text without the separator stands across two of the joined names. -/
theorem infix_intercalate {α : Type} {c : α} {q : List α} (hne : q ≠ []) (hc : c ∉ q)
    (names : List (List α)) : q <:+: [c].intercalate names ↔ ∃ n ∈ names, q <:+: n := by
  induction names with
  | nil => simp [hne]
  | cons n names ih =>
      cases names with
      | nil => simp
      | cons n' names =>
          rw [List.intercalate_cons_cons, List.append_assoc, List.singleton_append,
            infix_append_cons hc, ih]
          exact (List.exists_mem_cons_iff _ _ _).symm

theorem infix_joined {q : String} (hne : q ≠ "") (hc : '|' ∉ q.toList) (norms : List String) :
    q.toList <:+: (joined norms).toList ↔ ∃ n ∈ norms, q.toList <:+: n.toList := by
  rw [joined, String.toList_ofList, infix_intercalate (by rwa [ne_eq, String.toList_eq_nil_iff]) hc]
  simp

/-- The parts of a query are its substrings of three characters or more, itself apart. -/
theorem mem_parts {q part : String} : part ∈ parts q ↔
    3 ≤ part.length ∧ part.toList <:+: q.toList ∧ part ≠ q := by
  unfold parts
  dsimp only
  rw [mem_sortOn, List.mem_filter, List.mem_eraseDups, decide_eq_true_eq, ← and_assoc]
  apply and_congr_left
  intro _
  simp only [List.mem_flatMap, List.mem_map, List.mem_range, List.mem_range'_1]
  constructor
  · rintro ⟨i, hi, j, ⟨hij, hj⟩, rfl⟩
    have hlength : ((q.toList.take j).drop i).length = min j q.length - i := by
      rw [List.length_drop, List.length_take, String.length_toList]
    refine ⟨?_, ?_⟩
    · rw [String.length_ofList, hlength]
      omega
    · rw [String.toList_ofList]
      exact (List.drop_suffix _ _).isInfix.trans (List.take_prefix _ _).isInfix
  · rintro ⟨hlength, s, t, hq⟩
    have hsum := congrArg List.length hq
    simp only [List.length_append, String.length_toList] at hsum
    refine ⟨s.length, by omega, s.length + part.length, ⟨by omega, by omega⟩, ?_⟩
    rw [← String.toList_inj, String.toList_ofList, ← hq, List.take_append_of_le_length
      (by simp [String.length_toList]), List.take_of_length_le (by simp [String.length_toList]),
      List.drop_left]

/-! ### The levels -/

/-- The query finds a place of these names at this level, maybe at others too. -/
def FindsAt (q : String) (norms : List String) : Nat → Prop
  | 3 => q ∈ norms
  | 2 => 2 ≤ q.length ∧ ∃ n ∈ norms, q.toList <:+: n.toList
  | 1 => ∃ n ∈ norms, 3 ≤ n.length ∧ n.toList <:+: q.toList ∧ n ≠ q
  | _ => False

/-- The level of a place is the best one at which it is found. -/
theorem level_eq_some {q : String} {norms : List String} {score : Nat} :
    level q norms = some score ↔ FindsAt q norms score ∧ ∀ s, FindsAt q norms s → s ≤ score := by
  have hbound : ∀ s, FindsAt q norms s → s ≤ 3 := by
    intro s hs
    match s with
    | 0 | 1 | 2 | 3 => omega
    | s + 4 => exact hs.elim
  have hsame : ∀ {score' : Nat}, FindsAt q norms score' → (∀ s, FindsAt q norms s → s ≤ score') →
      (some score' = some score ↔
        FindsAt q norms score ∧ ∀ s, FindsAt q norms s → s ≤ score) := by
    intro score' hfinds hbest
    constructor
    · intro h
      cases h
      exact ⟨hfinds, hbest⟩
    · rintro ⟨hfinds', hbest'⟩
      exact congrArg some (le_antisymm (hbest' _ hfinds) (hbest _ hfinds'))
  unfold level
  split
  · rename_i h3
    exact hsame h3 hbound
  rename_i h3
  have hbound : ∀ s, FindsAt q norms s → s ≤ 2 := by
    intro s hs
    match s with
    | 0 | 1 | 2 => omega
    | 3 => exact absurd hs h3
    | s + 4 => exact hs.elim
  split
  · rename_i h2
    exact hsame h2 hbound
  rename_i h2
  have hbound : ∀ s, FindsAt q norms s → s ≤ 1 := by
    intro s hs
    match s with
    | 0 | 1 => omega
    | 2 => exact absurd hs h2
    | s + 3 => exact absurd (hbound _ hs) (by omega)
  split
  · rename_i h1
    obtain ⟨n, hn, hlength, hinfix⟩ := h1
    exact hsame ⟨n, hn, hlength, hinfix, fun h => h3 (h ▸ hn)⟩ hbound
  · rename_i h1
    apply iff_of_false (by simp)
    rintro ⟨hfinds, -⟩
    match score with
    | 0 => exact hfinds
    | 1 =>
        obtain ⟨n, hn, hlength, hinfix, -⟩ := hfinds
        exact h1 ⟨n, hn, hlength, hinfix⟩
    | score + 2 => exact absurd (hbound _ hfinds) (by omega)

section Statements

variable {K : Type} [LinearOrder K] {engine : Engine K}

/-- **The statements of a query select the places it finds, level by level.** -/
theorem exists_statement {q : String} (hne : q ≠ "") (hbar : '|' ∉ q.toList) {norms : List String}
    {score : Nat} : (∃ statement, (score, statement) ∈ statements q ∧
      statement.Selects engine norms) ↔ FindsAt q norms score := by
  have hphrase : ∀ {text : String}, 3 ≤ text.length →
      ((Statement.phrase (phrase text)).Selects engine norms ↔
        ∃ n ∈ norms, text.toList <:+: n.toList) := by
    intro text hlength
    constructor
    · rintro ⟨n, hn, -, hfts⟩
      exact ⟨n, hn, (engine.fts_phrase _ _ hlength).mp hfts⟩
    · rintro ⟨n, hn, hinfix⟩
      have hle := hinfix.length_le
      rw [String.length_toList, String.length_toList] at hle
      exact ⟨n, hn, hlength.trans hle, (engine.fts_phrase _ _ hlength).mpr hinfix⟩
  unfold statements
  simp only [List.mem_cons, List.mem_append, List.mem_map, Prod.mk.injEq]
  constructor
  · rintro ⟨statement, ⟨rfl, rfl⟩ | hsecond | ⟨part, hpart, rfl, rfl⟩, hselects⟩
    · exact hselects
    · split at hsecond
      · rename_i hlength
        cases List.mem_singleton.mp hsecond
        exact ⟨by omega, (hphrase hlength).mp hselects⟩
      · split at hsecond
        · rename_i hlength
          cases List.mem_singleton.mp hsecond
          exact ⟨hlength.ge, (infix_joined hne hbar norms).mp hselects⟩
        · cases hsecond
    · obtain ⟨hlength, hinfix, hother⟩ := mem_parts.mp hpart
      exact ⟨part, hselects, hlength, hinfix, hother⟩
  · intro hfinds
    match score with
    | 0 => exact hfinds.elim
    | 1 =>
        obtain ⟨n, hn, hlength, hinfix, hother⟩ := hfinds
        exact ⟨.name n, .inr (.inr ⟨n, mem_parts.mpr ⟨hlength, hinfix, hother⟩, rfl, rfl⟩), hn⟩
    | 2 =>
        obtain ⟨htwo, hinfix⟩ := hfinds
        by_cases hlength : 3 ≤ q.length
        · refine ⟨.phrase (phrase q), .inr (.inl ?_), (hphrase hlength).mpr hinfix⟩
          rw [if_pos hlength]
          exact List.mem_singleton_self _
        · refine ⟨.instr q, .inr (.inl ?_), (infix_joined hne hbar norms).mpr hinfix⟩
          rw [if_neg hlength, if_pos (by omega)]
          exact List.mem_singleton_self _
    | 3 => exact ⟨.name q, .inl ⟨rfl, rfl⟩, hfinds⟩
    | score + 4 => exact hfinds.elim

end Statements

/-- The levels of the statements never rise. -/
theorem statements_falling (q : String) : (statements q).Pairwise fun s s' => s'.1 ≤ s.1 := by
  have hones : ((parts q).map fun part => (1, Statement.name part)).Pairwise
      fun s s' => s'.1 ≤ s.1 :=
    List.pairwise_map.mpr (List.pairwise_of_forall_mem_list fun _ _ _ _ => le_rfl)
  unfold statements
  split
  · simp [hones]
  · split
    · simp [hones]
    · simpa using hones

/-! ### The merge -/

section Merge

variable {K : Type} [LinearOrder K] [IntCast K] {globe : Globe K} {latitude longitude : K}
  {radius : Int}

/-- The hit of a row at a level. -/
def hitOf (globe : Globe K) (latitude longitude : K) (scored : Nat × Row K) : Hit K :=
  ⟨scored.1, globe.distance latitude longitude scored.2.lat scored.2.lon, scored.2⟩

/-- The row is the place of this number, within the radius. -/
def nears (globe : Globe K) (latitude longitude : K) (radius : Int) (id : Nat)
    (scored : Nat × Row K) : Bool :=
  decide (scored.2.id = id) &&
    decide (globe.distance latitude longitude scored.2.lat scored.2.lon ≤ (radius : K))

theorem nears_iff {id : Nat} {scored : Nat × Row K} :
    nears globe latitude longitude radius id scored = true ↔ scored.2.id = id ∧
      globe.distance latitude longitude scored.2.lat scored.2.lon ≤ (radius : K) := by
  rw [nears, Bool.and_eq_true, decide_eq_true_eq, decide_eq_true_eq]

/-- **The merge keeps the first row of each place**, where the levels never rise. -/
theorem get?_foldl_collectRow {xs : List (Nat × Row K)} {best : Dict Nat (Hit K)}
    (hfalling : xs.Pairwise fun x y => y.1 ≤ x.1)
    (hbest : ∀ id hit, best.get? id = some hit → ∀ x ∈ xs, x.1 ≤ hit.score) (id : Nat) :
    (xs.foldl (collectRow globe latitude longitude radius) best).get? id =
      (best.get? id).or ((xs.find? (nears globe latitude longitude radius id)).map
        (hitOf globe latitude longitude)) := by
  induction xs generalizing best with
  | nil => simp
  | cons x xs ih =>
      rw [List.pairwise_cons] at hfalling
      have hrest : ∀ id hit, best.get? id = some hit → ∀ y ∈ xs, y.1 ≤ hit.score :=
        fun id hit hget y hy => hbest id hit hget y (List.mem_cons_of_mem _ hy)
      rw [List.foldl_cons]
      cases hget : best.get? x.2.id with
      | some hit =>
          have hstep : collectRow globe latitude longitude radius best x = best := by
            rw [collectRow, hget, Option.any_some,
              if_pos (decide_eq_true (hbest _ _ hget x List.mem_cons_self))]
          rw [hstep, ih hfalling.2 hrest]
          by_cases hid : x.2.id = id
          · rw [← hid, hget]
            rfl
          · rw [List.find?_cons_of_neg (by simp [nears, hid])]
      | none =>
          have hstep : collectRow globe latitude longitude radius best x =
              if globe.distance latitude longitude x.2.lat x.2.lon ≤ (radius : K) then
                best.set x.2.id (hitOf globe latitude longitude x) else best := by
            rw [collectRow, hget, Option.any_none, if_neg Bool.false_ne_true]
            rfl
          rw [hstep]
          by_cases hnear : globe.distance latitude longitude x.2.lat x.2.lon ≤ (radius : K)
          · rw [if_pos hnear, ih hfalling.2]
            · by_cases hid : x.2.id = id
              · rw [← hid, Dict.get?_set_self, hget,
                  List.find?_cons_of_pos (by simp [nears, hnear])]
                rfl
              · rw [Dict.get?_set_ne (Ne.symm hid), List.find?_cons_of_neg (by simp [nears, hid])]
            · intro id' hit hset y hy
              rw [Dict.get?_set] at hset
              split at hset
              · cases hset
                exact hfalling.1 y hy
              · exact hrest id' hit hset y hy
          · rw [if_neg hnear, ih hfalling.2 hrest,
              List.find?_cons_of_neg (by simp [nears, hnear])]

theorem get?_merge {xs : List (Nat × Row K)}
    (hfalling : xs.Pairwise fun x y => y.1 ≤ x.1) (id : Nat) :
    (xs.foldl (collectRow globe latitude longitude radius) ∅).get? id =
      (xs.find? (nears globe latitude longitude radius id)).map
        (hitOf globe latitude longitude) := by
  rw [get?_foldl_collectRow hfalling, Dict.get?_empty, Option.none_or]
  intro id hit h
  rw [Dict.get?_empty] at h
  cases h

/-- What is found first has the best level. -/
theorem le_of_find?_nears {xs : List (Nat × Row K)} (hfalling : xs.Pairwise fun x y => y.1 ≤ x.1)
    {id : Nat} {x y : Nat × Row K}
    (hx : xs.find? (nears globe latitude longitude radius id) = some x)
    (hy : y ∈ xs) (hnear : nears globe latitude longitude radius id y = true) : y.1 ≤ x.1 := by
  obtain ⟨-, before, after, rfl, hbefore⟩ := List.find?_eq_some_iff_append.mp hx
  rcases List.mem_append.mp hy with hy | hy
  · have hnot := hbefore y hy
    rw [hnear] at hnot
    cases hnot
  rcases List.mem_cons.mp hy with rfl | hy
  · exact le_rfl
  · exact List.rel_of_pairwise_cons (List.pairwise_append.mp hfalling).2.1 hy

/-- The rows of all statements, with their levels. -/
def scoredRows (index : Index K) (engine : Engine K) (q : String) (box : Box K) :
    List (Nat × Row K) :=
  (statements q).flatMap fun s => (index.query engine s.2 box).map fun row => (s.1, row)

variable {engine : Engine K} {places : List (Kept K)} {q : String} {box : Box K}

theorem foldl_collect (index : Index K) :
    (statements q).foldl (fun best s =>
      collect globe latitude longitude radius best (s.1, index.query engine s.2 box)) ∅ =
        (scoredRows index engine q box).foldl (collectRow globe latitude longitude radius) ∅ := by
  rw [scoredRows, List.foldl_flatMap]
  refine congrArg (fun f => List.foldl f _ _) (funext fun best => funext fun s => ?_)
  rw [List.foldl_map]
  rfl

omit [IntCast K] in
theorem scoredRows_falling (index : Index K) :
    (scoredRows index engine q box).Pairwise fun x y => y.1 ≤ x.1 := by
  refine List.pairwise_flatMap.mpr ⟨fun s _ => ?_, (statements_falling q).imp fun {s s'} h => ?_⟩
  · exact List.pairwise_map.mpr (List.pairwise_of_forall_mem_list fun _ _ _ _ => le_rfl)
  · intro x hx y hy
    obtain ⟨-, -, rfl⟩ := List.mem_map.mp hx
    obtain ⟨-, -, rfl⟩ := List.mem_map.mp hy
    exact h

omit [IntCast K] in
theorem mem_scoredRows (hne : q ≠ "") (hbar : '|' ∉ q.toList) {score : Nat} {row : Row K} :
    (score, row) ∈ scoredRows (build places) engine q box ↔ ∃ k ∈ places.zipIdx 1,
      row = k.1.row k.2 ∧ engine.inBox box k.1.lat k.1.lon = true ∧ FindsAt q k.1.norms score := by
  unfold scoredRows
  simp only [List.mem_flatMap, List.mem_map, Prod.mk.injEq]
  constructor
  · rintro ⟨⟨s, statement⟩, hstatement, row, hrow, rfl, rfl⟩
    obtain ⟨k, hk, hrow, hbox, hselects⟩ := mem_query_build.mp hrow
    exact ⟨k, hk, hrow, hbox, (exists_statement hne hbar).mp ⟨statement, hstatement, hselects⟩⟩
  · rintro ⟨k, hk, hrow, hbox, hfinds⟩
    obtain ⟨statement, hstatement, hselects⟩ : ∃ statement, (score, statement) ∈ statements q ∧
        statement.Selects engine k.1.norms := (exists_statement hne hbar).mpr hfinds
    exact ⟨(score, statement), hstatement, row, mem_query_build.mpr ⟨k, hk, hrow, hbox, hselects⟩,
      rfl, rfl⟩

theorem mem_naiveHits {hit : Hit K} : hit ∈ naiveHits globe places q latitude longitude radius ↔
    ∃ k ∈ places.zipIdx 1, ∃ score, level q k.1.norms = some score ∧
      globe.distance latitude longitude k.1.lat k.1.lon ≤ (radius : K) ∧
        hit = hitOf globe latitude longitude (score, k.1.row k.2) := by
  rw [naiveHits, List.mem_filterMap]
  refine exists_congr fun k => and_congr_right fun _ => ?_
  dsimp only
  split
  · rename_i hnear
    rw [Option.map_eq_some_iff]
    constructor
    · rintro ⟨score, hlevel, rfl⟩
      exact ⟨score, hlevel, hnear, rfl⟩
    · rintro ⟨score, hlevel, -, rfl⟩
      exact ⟨score, hlevel, rfl⟩
  · rename_i hfar
    apply iff_of_false nofun
    rintro ⟨score, -, hnear, -⟩
    exact hfar hnear

/-- **The merge finds the places of the plain search.** -/
theorem mem_best (hne : q ≠ "") (hbar : '|' ∉ q.toList)
    (hbox : ∀ k ∈ places, globe.distance latitude longitude k.lat k.lon ≤ (radius : K) →
      box.Has k.lat k.lon) {hit : Hit K} :
    hit ∈ ((scoredRows (build places) engine q box).foldl
        (collectRow globe latitude longitude radius) ∅).values ↔
      hit ∈ naiveHits globe places q latitude longitude radius := by
  have hfalling : (scoredRows (build places) engine q box).Pairwise fun x y => y.1 ≤ x.1 :=
    scoredRows_falling _
  have hin : ∀ k ∈ places.zipIdx 1,
      globe.distance latitude longitude k.1.lat k.1.lon ≤ (radius : K) →
      engine.inBox box k.1.lat k.1.lon = true := fun k hk hnear =>
    engine.inBox_of_has _ _ _ (hbox k.1 (List.fst_mem_of_mem_zipIdx hk) hnear)
  rw [Dict.mem_values_iff, mem_naiveHits]
  constructor
  · rintro ⟨id, hid⟩
    rw [get?_merge hfalling, Option.map_eq_some_iff] at hid
    obtain ⟨⟨score, row⟩, hfind, rfl⟩ := hid
    have hnears := List.find?_some hfind
    obtain ⟨k, hk, rfl, -, hfinds⟩ := (mem_scoredRows hne hbar).mp (List.mem_of_find?_eq_some hfind)
    obtain ⟨-, hnear⟩ := nears_iff.mp hnears
    refine ⟨k, hk, score, level_eq_some.mpr ⟨hfinds, fun s hs => ?_⟩, hnear, rfl⟩
    exact le_of_find?_nears hfalling hfind
      ((mem_scoredRows hne hbar).mpr ⟨k, hk, rfl, hin k hk hnear, hs⟩) hnears
  · rintro ⟨k, hk, score, hlevel, hnear, rfl⟩
    obtain ⟨hfinds, hbest⟩ := level_eq_some.mp hlevel
    have hmem : (score, k.1.row k.2) ∈ scoredRows (build places) engine q box :=
      (mem_scoredRows hne hbar).mpr ⟨k, hk, rfl, hin k hk hnear, hfinds⟩
    have hnears : nears globe latitude longitude radius k.2 (score, k.1.row k.2) = true :=
      nears_iff.mpr ⟨rfl, hnear⟩
    cases hfind : (scoredRows (build places) engine q box).find?
        (nears globe latitude longitude radius k.2) with
    | none => exact absurd hnears (List.find?_eq_none.mp hfind _ hmem)
    | some x =>
        obtain ⟨score', row⟩ := x
        obtain ⟨k', hk', rfl, -, hfinds'⟩ :=
          (mem_scoredRows hne hbar).mp (List.mem_of_find?_eq_some hfind)
        obtain rfl := eq_of_zipIdx hk' hk (nears_iff.mp (List.find?_some hfind)).1
        obtain rfl : score' = score :=
          le_antisymm (hbest _ hfinds') (le_of_find?_nears hfalling hfind hmem hnears)
        exact ⟨k'.2, by rw [get?_merge hfalling, hfind]; rfl⟩

theorem nodup_naiveHits : (naiveHits globe places q latitude longitude radius).Nodup := by
  have hids : (places.zipIdx 1).Pairwise fun k k' => k.2 ≠ k'.2 := by
    rw [← List.pairwise_map, List.zipIdx_map_snd]
    exact List.nodup_range'
  refine List.Pairwise.filterMap _ (fun k k' hne hit hhit hit' hhit' hsame => hne ?_) hids
  have hrow : ∀ {k : Kept K × Nat} {hit : Hit K}, (if globe.distance latitude longitude k.1.lat
      k.1.lon ≤ (radius : K) then (level q k.1.norms).map fun score => (⟨score,
        globe.distance latitude longitude k.1.lat k.1.lon, k.1.row k.2⟩ : Hit K)
        else none) = some hit → hit.row.id = k.2 := by
    intro k hit h
    split at h
    · obtain ⟨score, -, rfl⟩ := Option.map_eq_some_iff.mp h
      rfl
    · cases h
  rw [← hrow hhit, ← hrow hhit', hsame]

theorem perm_best (hne : q ≠ "") (hbar : '|' ∉ q.toList)
    (hbox : ∀ k ∈ places, globe.distance latitude longitude k.lat k.lon ≤ (radius : K) →
      box.Has k.lat k.lon) :
    ((scoredRows (build places) engine q box).foldl
        (collectRow globe latitude longitude radius) ∅).values.Perm
      (naiveHits globe places q latitude longitude radius) := by
  refine (List.perm_ext_iff_of_nodup ?_ nodup_naiveHits).mpr fun hit => mem_best hne hbar hbox
  set best := (scoredRows (build places) engine q box).foldl
    (collectRow globe latitude longitude radius) ∅ with hbest
  -- Each hit stands at the number of its row.
  have hkeys : best.values.map (fun hit => hit.row.id) = best.entries.map Prod.fst := by
    rw [Dict.values, List.map_map]
    apply List.map_congr_left
    intro e he
    have hget := Dict.mem_entries_iff.mp (show (e.1, e.2) ∈ best.entries from he)
    rw [hbest, get?_merge (scoredRows_falling _), Option.map_eq_some_iff] at hget
    obtain ⟨x, hfind, hhit⟩ := hget
    rw [Function.comp_apply, ← hhit]
    exact (nears_iff.mp (List.find?_some hfind)).1
  have hnodup := best.nodup
  rw [← hkeys] at hnodup
  exact hnodup.of_map

end Merge

/-! ### The results -/

section Results

variable {K : Type} [LinearOrder K] [IntCast K] {globe : Globe K} {latitude longitude : K}
  {engine : Engine K} {places : List (Kept K)} {unicode : Unicode} {query : String}
  {radius limit : Int}

theorem bar_not_mem_queryOf (unicode : Unicode) (query : String) :
    '|' ∉ (queryOf unicode query).toList := by
  rw [queryOf, String.toList_ofList]
  exact fun h => bar_not_mem_normalize unicode _ (List.mem_of_mem_take h)

/-- **The index agrees with the plain search**, where its box leaves no place out. -/
theorem search_build (hnamed : ∀ k ∈ places, "" ∉ k.norms)
    (hbox : ∀ k ∈ places, globe.distance latitude longitude k.lat k.lon ≤
        (clampRadius (queryOf unicode query) radius : K) →
      (globe.box latitude longitude (clampRadius (queryOf unicode query) radius)).Has k.lat k.lon) :
    NaiveUpToTies globe unicode places query latitude longitude radius limit
      ((build places).search engine globe unicode query latitude longitude radius limit) := by
  unfold NaiveUpToTies Index.search
  dsimp only
  set q := queryOf unicode query with hq
  split
  · rename_i hnone
    refine ⟨sortOn hitOrder (naiveHits globe places q latitude longitude (clampRadius q radius)),
      sortOn_perm _ _, pairwise_sortOn _ _, ?_⟩
    rcases hnone with hempty | hlimit
    · -- An empty query finds no place.
      have hnil : naiveHits globe places q latitude longitude (clampRadius q radius) = [] := by
        rw [List.eq_nil_iff_forall_not_mem]
        intro hit hhit
        obtain ⟨k, hk, score, hlevel, -⟩ := mem_naiveHits.mp hhit
        have hfinds := (level_eq_some.mp hlevel).1
        rw [hempty] at hfinds
        match score with
        | 0 => exact hfinds
        | 1 =>
            obtain ⟨n, -, hlength, hinfix, -⟩ := hfinds
            have hle := hinfix.length_le
            rw [String.length_toList, String.toList_empty, List.length_nil] at hle
            omega
        | 2 => exact absurd hfinds.1 (by decide)
        | 3 => exact hnamed k.1 (List.fst_mem_of_mem_zipIdx hk) hfinds
        | score + 4 => exact hfinds
      rw [hnil, sortOn_eq_nil.mpr rfl, List.take_nil]
      rfl
    · rw [Int.toNat_of_nonpos (by omega), List.take_zero]
      rfl
  · rename_i hsome
    rw [not_or] at hsome
    rw [foldl_collect]
    exact ⟨_, (sortOn_perm _ _).trans
      (perm_best hsome.1 (bar_not_mem_queryOf unicode query) hbox), pairwise_sortOn _ _, rfl⟩

theorem search_eq_nil {index : Index K} (h : ∀ statement, index.query engine statement
      (globe.box latitude longitude (clampRadius (queryOf unicode query) radius)) = []) :
    index.search engine globe unicode query latitude longitude radius limit = [] := by
  unfold Index.search
  dsimp only
  split
  · rfl
  · have hfixed : ∀ (ss : List (Nat × Statement)) (best : Dict Nat (Hit K)),
        ss.foldl (fun best s => collect globe latitude longitude
          (clampRadius (queryOf unicode query) radius) best (s.1, [])) best = best := by
      intro ss best
      induction ss with
      | nil => rfl
      | cons s ss ih => exact ih
    simp only [h]
    rw [hfixed, show (∅ : Dict Nat (Hit K)).values = [] from rfl, sortOn_eq_nil.mpr rfl,
      List.take_nil]
    rfl

/-- Without two places of one source and one id, the order leaves nothing open. -/
theorem NaiveUpToTies.eq_naive {out : List (PlaceCandidate K)}
    (h : NaiveUpToTies globe unicode places query latitude longitude radius limit out)
    (hids : (places.map fun p => (p.source, p.sourceId)).Nodup) :
    out = naive globe unicode places query latitude longitude radius limit := by
  obtain ⟨hits, hperm, hsorted, rfl⟩ := h
  unfold naive
  dsimp only
  set found := naiveHits globe places (queryOf unicode query) latitude longitude
    (clampRadius (queryOf unicode query) radius)
  have hsame : hits = sortOn hitOrder found := by
    refine List.Perm.eq_of_pairwise ?_ hsorted (pairwise_sortOn _ _)
      (hperm.trans (sortOn_perm _ _).symm)
    intro hit hit' hhit hhit' hle hle'
    obtain ⟨k, hk, score, -, -, rfl⟩ := mem_naiveHits.mp (hperm.mem_iff.mp hhit)
    obtain ⟨k', hk', score', -, -, rfl⟩ := mem_naiveHits.mp (mem_sortOn.mp hhit')
    have hkeys := le_antisymm hle hle'
    simp only [hitOrder, hitOf, Kept.row, toLex_inj, Prod.mk.injEq, neg_inj, Nat.cast_inj] at hkeys
    obtain ⟨rfl, -, hid⟩ := hkeys
    -- One source and one id make one place.
    have hplaces : ((places.zipIdx 1).map fun k => (k.1.source, k.1.sourceId)).Nodup := by
      rw [← List.zipIdx_map_fst 1 places, List.map_map] at hids
      exact hids
    obtain rfl := List.inj_on_of_nodup_map hplaces hk hk' (Prod.ext hid.1 hid.2)
    rfl
  rw [hsame]

end Results

/-! ### On the globe -/

noncomputable def globe : Globe ℝ := ⟨haversine, searchBox, roundEven⟩

theorem clampRadius_range (q : String) (radius : Int) :
    1 ≤ clampRadius q radius ∧ clampRadius q radius ≤ 30000 := by
  unfold clampRadius maxTwoCharRadius maxRadius
  constructor
  · exact le_max_left _ _
  · split
    · omega
    · omega

/-- **The place index agrees with the naive search** at every point of the globe. -/
theorem placeSearch_eq_naive {V I : Type} [DecidableEq I] (unicode : Unicode)
    (float : V → Option (Number ℝ)) (str : I → String) (read : String → List (SourceRow V I))
    (engine : Engine ℝ) (query : String) {latitude longitude : ℝ} (hlatitude : |latitude| ≤ 90)
    (hlongitude : |longitude| ≤ 180) (radius limit : Int) :
    NaiveUpToTies globe unicode (keptPlaces unicode float str read) query latitude longitude radius
        limit ((build (keptPlaces unicode float str read)).search engine globe unicode query
          latitude longitude radius limit) ∧
      (Function.Injective str →
        (build (keptPlaces unicode float str read)).search engine globe unicode query latitude
            longitude radius limit =
          naive globe unicode (keptPlaces unicode float str read) query latitude longitude radius
            limit) := by
  have hties : NaiveUpToTies globe unicode (keptPlaces unicode float str read) query latitude
      longitude radius limit
      ((build (keptPlaces unicode float str read)).search engine globe unicode query latitude
        longitude radius limit) := by
    apply search_build (fun k hk => (mem_keptPlaces hk).2)
    intro k hk hnear
    obtain ⟨hsouth, hnorth, hwest, heast⟩ := (mem_keptPlaces hk).1
    unfold korea at hsouth hnorth hwest heast
    dsimp only at hsouth hnorth hwest heast
    exact mem_searchBox (clampRadius_range _ _) hlatitude hlongitude ⟨hsouth, by linarith⟩
      ⟨by linarith, by linarith⟩ hnear
  exact ⟨hties, fun hstr => hties.eq_naive (nodup_keptPlaces hstr)⟩

/-- A text without the quotes and the doubling of `_phrase`. -/
def unquoted : List Char → List Char
  | '"' :: '"' :: cs => '"' :: unquoted cs
  | c :: cs => c :: unquoted cs
  | [] => []

theorem unquoted_flatMap (cs : List Char) :
    unquoted (cs.flatMap fun c => if c = '"' then ['"', '"'] else [c]) = cs := by
  induction cs with
  | nil => rfl
  | cons c cs ih =>
      rw [List.flatMap_cons]
      split
      · rename_i hquote
        rw [List.cons_append, List.cons_append, List.nil_append, unquoted, ih, hquote]
      · rename_i hplain
        rw [List.singleton_append, unquoted, ih]
        exact fun _ h => absurd h hplain

/-- An engine that selects exactly the points of a box and the texts that contain a phrase. -/
def exactEngine (K : Type) [LinearOrder K] : Engine K where
  order := fun _ rows => rows
  inBox := fun box lat lon => decide (box.south ≤ lat ∧ lat ≤ box.north ∧ box.west ≤ lon ∧
    lon ≤ box.east)
  fts := fun quoted stored => decide (unquoted (quoted.toList.drop 1).dropLast <:+: stored.toList)
  order_perm := fun _ _ => .refl _
  inBox_of_has := fun _ _ _ h => decide_eq_true h
  fts_phrase := by
    intro text stored _
    rw [decide_eq_true_eq, phrase, String.toList_append, String.toList_append]
    simp [unquoted_flatMap]

/-- Unicode, of syllables of Hangul. -/
def hangulUnicode : Unicode where
  nfkc := id
  lower := id
  alphanumeric := fun c => 0xAC00 ≤ c.toNat && c.toNat ≤ 0xD7A3
  alphanumeric_bar := by decide

/-- A place at 37, 127. -/
noncomputable def caveRow (sourceId name : String) : SourceRow ℝ String :=
  ⟨sourceId, 37, 127, [some name], none⟩

theorem koreanPoint_caveRow (sourceId name : String) :
    koreanPoint (fun x : ℝ => some (.finite x)) (caveRow sourceId name) = some (37, 127) := by
  simp only [caveRow, koreanPoint, coordinate, korea]
  norm_num

/-- The cave and its entrance, of two sources, and a place of another name. -/
noncomputable def entranceSources (source : String) : List (SourceRow ℝ String) :=
  if source = "tourapi" then [caveRow "1" "화암동굴입구", caveRow "2" "정선시장"]
  else if source = "osm" then [caveRow "7" "화암동굴"]
  else []

theorem keptPlaces_entranceSources :
    keptPlaces hangulUnicode (fun x => some (.finite x)) id entranceSources =
      [⟨"tourapi", "1", "화암동굴입구", "", 37, 127, ["화암동굴입구"]⟩,
        ⟨"tourapi", "2", "정선시장", "", 37, 127, ["정선시장"]⟩,
        ⟨"osm", "7", "화암동굴", "", 37, 127, ["화암동굴"]⟩] := by
  have hlabels : ∀ name ∈ ["화암동굴입구", "정선시장", "화암동굴"], labels [some name] = [name] ∧
      normsOf hangulUnicode [name] = [name] := by
    decide +kernel
  have hkept : ∀ name ∈ ["화암동굴입구", "정선시장", "화암동굴"], ∀ source sourceId seen,
      sourceId ∉ seen →
      keepRow hangulUnicode (fun x => some (.finite x)) id source seen (caveRow sourceId name) =
        some ⟨source, sourceId, name, "", 37, 127, [name]⟩ := by
    intro name hname source sourceId seen hseen
    obtain ⟨hlabel, hnorm⟩ := hlabels name hname
    rw [keepRow, koreanPoint_caveRow]
    simp [caveRow, hlabel, hnorm, hseen]
  have hid : (caveRow "1" "화암동굴입구").sourceId = "1" := rfl
  simp [keptPlaces, sources, entranceSources, keepRows, hkept, hid]

/-- The distance to the point itself. -/
theorem haversine_self (latitude longitude : ℝ) :
    haversine latitude longitude latitude longitude = 0 := by
  simp [haversine, radians]

/-- The place of the name itself comes before the one whose name only contains it. -/
theorem placeSearch_eq_naive_entranceSources :
    ((build (keptPlaces hangulUnicode (fun x => some (.finite x)) id entranceSources)).search
      (exactEngine ℝ) globe hangulUnicode "화암동굴" 37 127 1000 10).map
        PlaceCandidate.candidateId = ["kb:osm:7", "kb:tourapi:1"] := by
  have heq := (placeSearch_eq_naive hangulUnicode (fun x => some (.finite x)) id entranceSources
    (exactEngine ℝ) "화암동굴" (by norm_num : |(37 : ℝ)| ≤ 90) (by norm_num : |(127 : ℝ)| ≤ 180)
    1000 10).2 Function.injective_id
  rw [heq, keptPlaces_entranceSources]
  have hquery : queryOf hangulUnicode "화암동굴" = "화암동굴" := by decide +kernel
  have hradius : clampRadius "화암동굴" 1000 = 1000 := by decide +kernel
  have hlevels : level "화암동굴" ["화암동굴입구"] = some 2 ∧ level "화암동굴" ["정선시장"] = none ∧
      level "화암동굴" ["화암동굴"] = some 3 := by
    decide +kernel
  obtain ⟨hentrance, hmarket, hcave⟩ := hlevels
  have hdistance : globe.distance 37 127 37 127 = 0 := haversine_self 37 127
  simp [naive, naiveHits, hquery, hradius, hentrance, hmarket, hcave, hdistance, sortOn, hitOrder,
    candidate, Kept.row, Prod.Lex.toLex_le_toLex]

/-- One place of one source. -/
noncomputable def caveSources (source : String) : List (SourceRow ℝ String) :=
  if source = "tourapi" then [caveRow "1" "화암동굴"] else []

theorem keptPlaces_caveSources :
    keptPlaces hangulUnicode (fun x => some (.finite x)) id caveSources =
      [⟨"tourapi", "1", "화암동굴", "", 37, 127, ["화암동굴"]⟩] := by
  have hlabels : labels [some "화암동굴"] = ["화암동굴"] := by decide +kernel
  have hnorms : normsOf hangulUnicode ["화암동굴"] = ["화암동굴"] := by decide +kernel
  have hpoint := koreanPoint_caveRow "1" "화암동굴"
  simp only [caveRow] at hpoint
  simp [keptPlaces, sources, caveSources, caveRow, keepRows, keepRow, hpoint, hlabels, hnorms]

/-- Once around the globe, the naive search finds the place and the box does not. -/
theorem placeSearch_ne_naive :
    ¬ NaiveUpToTies globe hangulUnicode
      (keptPlaces hangulUnicode (fun x => some (.finite x)) id caveSources) "화암동굴"
      37 487 1000 10
      ((build (keptPlaces hangulUnicode (fun x => some (.finite x)) id caveSources)).search
        (exactEngine ℝ) globe hangulUnicode "화암동굴" 37 487 1000 10) := by
  rw [keptPlaces_caveSources]
  set place : Kept ℝ := ⟨"tourapi", "1", "화암동굴", "", 37, 127, ["화암동굴"]⟩
  have hquery : queryOf hangulUnicode "화암동굴" = "화암동굴" := by decide +kernel
  -- The box ends far away from the place.
  have hnone : ∀ statement, (build [place]).query (exactEngine ℝ) statement
      (globe.box 37 487 (clampRadius (queryOf hangulUnicode "화암동굴") 1000)) = [] := by
    intro statement
    rw [List.eq_nil_iff_forall_not_mem]
    intro row hrow
    obtain ⟨k, hk, -, hbox, -⟩ := mem_query_build.mp hrow
    obtain rfl : k = (place, 1) := List.mem_singleton.mp hk
    obtain ⟨-, -, hwest, -⟩ := of_decide_eq_true hbox
    obtain ⟨-, hsmall⟩ := angle_le (clampRadius_range (queryOf hangulUnicode "화암동굴") 1000)
    unfold globe searchBox at hwest
    dsimp only at hwest
    set width := degrees ((clampRadius (queryOf hangulUnicode "화암동굴") 1000 : ℝ) / earthRadius) *
      1.01 with hwidth
    have hle : width / max (Real.cos (radians (min (|37| + width) 89))) 0.01 ≤ 30 := by
      rw [div_le_iff₀ (lt_max_of_lt_right (by norm_num))]
      have hmax := le_max_right (Real.cos (radians (min (|37| + width) 89))) 0.01
      linarith
    have hplace : place.lon = 127 := rfl
    linarith
  rw [search_eq_nil hnone]
  rintro ⟨hits, hperm, -, hnil⟩
  have hempty : hits = [] := by
    rw [eq_comm, List.map_eq_nil_iff] at hnil
    exact (List.take_eq_nil_iff.mp hnil).resolve_left (by decide)
  have hdistance : haversine 37 487 37 127 = 0 := by
    unfold haversine radians
    dsimp only
    rw [show (127 - 487) * (Real.pi / 180) / 2 = -Real.pi by ring]
    simp
  have hhit : hitOf globe 37 487 (3, place.row 1) ∈ naiveHits globe [place]
      (queryOf hangulUnicode "화암동굴") 37 487
      (clampRadius (queryOf hangulUnicode "화암동굴") 1000) := by
    refine mem_naiveHits.mpr ⟨(place, 1), List.mem_singleton_self _, 3, ?_, ?_, rfl⟩
    · rw [hquery]
      exact if_pos (List.mem_singleton_self _)
    · have hpos := (clampRadius_range (queryOf hangulUnicode "화암동굴") 1000).1
      calc globe.distance 37 487 place.lat place.lon = 0 := hdistance
        _ ≤ (clampRadius (queryOf hangulUnicode "화암동굴") 1000 : ℝ) := by
            exact_mod_cast (by omega)
  rw [← hperm.mem_iff, hempty] at hhit
  cases hhit

end Yeodam.Infra
