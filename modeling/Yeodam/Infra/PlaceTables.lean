/-
The tables of the place index (`normalize` and `_query` in `app/infra/place_index.py`, `coordinate`
and `build` in `scripts/build_place_index.py`).

`build` keeps the rows of Korea that have a name, the first of each id of a source, and numbers
them. The texts of the index are normalised names, which have no `|`, so a row may hold them joined.
`mem_query_build` says of each statement which of the kept places it selects.
-/

import Mathlib.Data.Prod.Lex
import Mathlib.Data.String.Basic
import Yeodam.Infra.Haversine
import Yeodam.Lib.Keyed
import Yeodam.Lib.Text

namespace Yeodam.Infra

open Yeodam.Lib

/-! ### Names -/

/-- What `unicodedata` and `str.lower` do. -/
structure Unicode where
  nfkc : String → String
  lower : String → String
  /-- The category is one of letters or numbers. -/
  alphanumeric : Char → Bool
  alphanumeric_bar : alphanumeric '|' = false

/-- `normalize` -/
def normalize (unicode : Unicode) (name : Option String) : String :=
  .ofList ((unicode.lower (unicode.nfkc (name.getD ""))).toList.filter unicode.alphanumeric)

theorem bar_not_mem_normalize (unicode : Unicode) (name : Option String) :
    '|' ∉ (normalize unicode name).toList := by
  rw [normalize, String.toList_ofList]
  intro h
  have hbar := (List.mem_filter.mp h).2
  rw [unicode.alphanumeric_bar] at hbar
  cases hbar

/-! ### The rows of the sources -/

/-- What `float` reads. -/
inductive Number (K : Type) where
  | finite (x : K)
  | infinite
  | nan

/-- A row as a source yields it, with its coordinates as they are written. -/
structure SourceRow (V I : Type) where
  sourceId : I
  lat : V
  lon : V
  names : List (Option String)
  category : Option String

/-- A kept place, with the normalised names it is found by. -/
structure Kept (K : Type) where
  source : String
  sourceId : String
  name : String
  category : String
  lat : K
  lon : K
  norms : List String

/-- The columns a query returns. -/
structure Row (K : Type) where
  id : Nat
  source : String
  sourceId : String
  name : String
  category : String
  lat : K
  lon : K

def Kept.row {K : Type} (place : Kept K) (id : Nat) : Row K :=
  ⟨id, place.source, place.sourceId, place.name, place.category, place.lat, place.lon⟩

section Build

variable {K V I : Type} [LinearOrder K] [Field K] [DecidableEq I]

/-- `coordinate`: a text that is no number and NaN are none. -/
def coordinate (float : V → Option (Number K)) (value : V) : Option (Number K) :=
  match float value with
  | some .nan => none
  | number => number

/-- `LAT`, `LON` -/
def korea : Box K := ⟨33, 387 / 10, 1245 / 10, 1319 / 10⟩

/-- The point of a row, if it is one of Korea. -/
def koreanPoint (float : V → Option (Number K)) (row : SourceRow V I) : Option (K × K) :=
  match coordinate float row.lat, coordinate float row.lon with
  | some (.finite lat), some (.finite lon) =>
      let inside := decide (korea.south ≤ lat) && decide (lat ≤ korea.north) &&
        (decide (korea.west ≤ lon) && decide (lon ≤ korea.east))
      if inside then some (lat, lon) else none
  | _, _ => none

/-- `[n.strip() for n in names if n and n.strip()]`, each once. -/
def labels (names : List (Option String)) : List String :=
  ((names.filterMap id).filterMap fun n => if strip n = "" then none else some (strip n)).eraseDups

def normsOf (unicode : Unicode) (labels : List String) : List String :=
  (labels.map fun label => normalize unicode (some label)).eraseDups.filter fun n => n ≠ ""

/-- One row of a source: it is kept or dropped. -/
def keepRow (unicode : Unicode) (float : V → Option (Number K)) (str : I → String) (source : String)
    (seen : List I) (row : SourceRow V I) : Option (Kept K) :=
  match koreanPoint float row with
  | none => none
  | some (lat, lon) =>
      let labels := labels row.names
      let norms := normsOf unicode labels
      if norms = [] then none
      else if row.sourceId ∈ seen then none
      else some ⟨source, str row.sourceId, labels.headD "", row.category.getD "", lat, lon, norms⟩

def keepRows (unicode : Unicode) (float : V → Option (Number K)) (str : I → String)
    (source : String) : List I → List (SourceRow V I) → List (Kept K)
  | _, [] => []
  | seen, row :: rows =>
      match keepRow unicode float str source seen row with
      | none => keepRows unicode float str source seen rows
      | some place => place :: keepRows unicode float str source (row.sourceId :: seen) rows

/-- `SOURCES` -/
def sources : List String := ["tourapi", "std_tourist", "semas", "wikidata", "overture", "osm"]

/-- The places that `build` keeps. -/
def keptPlaces (unicode : Unicode) (float : V → Option (Number K)) (str : I → String)
    (read : String → List (SourceRow V I)) : List (Kept K) :=
  sources.flatMap fun source => keepRows unicode float str source [] (read source)

end Build

/-! ### Tables -/

variable {K : Type}

/-- The tables that are searched. -/
structure Index (K : Type) where
  /-- A row and the text of its `norms`. -/
  place : List (Row K × String)
  placeRtree : List (Nat × K × K)
  placeName : List (String × Nat)
  placeNameFts : List (String × Nat)

/-- `"|".join(norms)` -/
def joined (norms : List String) : String :=
  .ofList (['|'].intercalate (norms.map String.toList))

/-- The inserts of one place. -/
def Index.insert (index : Index K) (place : Kept K) : Index K :=
  let pid := index.place.length + 1
  { place := index.place ++ [(place.row pid, joined place.norms)]
    placeRtree := index.placeRtree ++ [(pid, place.lat, place.lon)]
    placeName := index.placeName ++ place.norms.map fun n => (n, pid)
    placeNameFts := index.placeNameFts ++
      (place.norms.filter fun n => 3 ≤ n.length).map fun n => (n, pid) }

/-- What `build` writes. -/
def build (places : List (Kept K)) : Index K := places.foldl Index.insert ⟨[], [], [], []⟩

/-- The conditions of the three statements. -/
inductive Statement where
  /-- `n.norm = ?`, joined with `place_name`. -/
  | name (value : String)
  /-- `place_name_fts MATCH ?` -/
  | phrase (value : String)
  /-- `instr(p.norms, ?) > 0` -/
  | instr (value : String)
deriving DecidableEq

/-- `_phrase` -/
def phrase (text : String) : String :=
  "\"" ++ .ofList (text.toList.flatMap fun c => if c = '"' then ['"', '"'] else [c]) ++ "\""

/-- What SQLite leaves open and what it promises: any order of the rows, boxes of the R-tree that
are not too small, and a phrase of trigrams that matches the texts containing it. -/
structure Engine (K : Type) [LE K] where
  order : Statement → List (Row K) → List (Row K)
  inBox : Box K → K → K → Bool
  fts : String → String → Bool
  order_perm : ∀ statement rows, (order statement rows).Perm rows
  inBox_of_has : ∀ box lat lon, box.Has lat lon → inBox box lat lon = true
  fts_phrase : ∀ text stored, 3 ≤ text.length →
    (fts (phrase text) stored = true ↔ text.toList <:+: stored.toList)

section Queries

variable [LE K]

/-- The rows of a place that a statement joins. -/
def Index.joins (index : Index K) (engine : Engine K) (p : Row K × String) :
    Statement → List (Row K)
  | .name value => (index.placeName.filter fun n => n.2 = p.1.id ∧ n.1 = value).map fun _ => p.1
  | .phrase value =>
      (index.placeNameFts.filter fun n => n.2 = p.1.id ∧ engine.fts value n.1).map fun _ => p.1
  | .instr value => if value.toList <:+: p.2.toList then [p.1] else []

/-- `_query` -/
def Index.query (index : Index K) (engine : Engine K) (statement : Statement) (box : Box K) :
    List (Row K) :=
  let rows := index.placeRtree.filter fun r => engine.inBox box r.2.1 r.2.2
  engine.order statement <| rows.flatMap fun r =>
    (index.place.filter fun p => p.1.id = r.1).flatMap fun p => index.joins engine p statement

end Queries

/-! ### The tables of the kept places -/

theorem build_eq (places : List (Kept K)) : build places =
    { place := (places.zipIdx 1).map fun k => (k.1.row k.2, joined k.1.norms)
      placeRtree := (places.zipIdx 1).map fun k => (k.2, k.1.lat, k.1.lon)
      placeName := (places.zipIdx 1).flatMap fun k => k.1.norms.map fun n => (n, k.2)
      placeNameFts := (places.zipIdx 1).flatMap fun k =>
        (k.1.norms.filter fun n => 3 ≤ n.length).map fun n => (n, k.2) } := by
  unfold build
  induction places using List.reverseRecOn with
  | nil => rfl
  | append_singleton places place ih =>
      rw [List.foldl_append, ih, List.zipIdx_append]
      simp [Index.insert, Nat.add_comm]

/-- Two numbered places of one number are one place. -/
theorem eq_of_zipIdx {places : List (Kept K)} {k k' : Kept K × Nat} (hk : k ∈ places.zipIdx 1)
    (hk' : k' ∈ places.zipIdx 1) (h : k.2 = k'.2) : k = k' := by
  have hnodup : ((places.zipIdx 1).map Prod.snd).Nodup := by
    rw [List.zipIdx_map_snd]
    exact List.nodup_range'
  exact List.inj_on_of_nodup_map hnodup hk hk' h

/-- The condition of a statement, of the names of a place. -/
def Statement.Selects [LE K] (engine : Engine K) (norms : List String) : Statement → Prop
  | .name value => value ∈ norms
  | .phrase value => ∃ n ∈ norms, 3 ≤ n.length ∧ engine.fts value n = true
  | .instr value => value.toList <:+: (joined norms).toList

variable [LE K] {engine : Engine K} {places : List (Kept K)} {statement : Statement} {box : Box K}

theorem mem_joins_build {k : Kept K × Nat} (hk : k ∈ places.zipIdx 1) {row : Row K} :
    row ∈ (build places).joins engine (k.1.row k.2, joined k.1.norms) statement ↔
      row = k.1.row k.2 ∧ statement.Selects engine k.1.norms := by
  have hid : (k.1.row k.2).id = k.2 := rfl
  rw [build_eq]
  cases statement with
  | name value =>
      simp only [Index.joins, Statement.Selects, List.mem_map, List.mem_filter, List.mem_flatMap,
        decide_eq_true_eq, hid]
      constructor
      · rintro ⟨n, ⟨⟨k', hk', m, hm, rfl⟩, hsame, rfl⟩, rfl⟩
        obtain rfl := eq_of_zipIdx hk' hk hsame
        exact ⟨rfl, hm⟩
      · rintro ⟨rfl, hvalue⟩
        exact ⟨(value, k.2), ⟨⟨k, hk, value, hvalue, rfl⟩, rfl, rfl⟩, rfl⟩
  | phrase value =>
      simp only [Index.joins, Statement.Selects, List.mem_map, List.mem_filter, List.mem_flatMap,
        decide_eq_true_eq, hid]
      constructor
      · rintro ⟨n, ⟨⟨k', hk', m, ⟨hm, hlength⟩, rfl⟩, hsame, hfts⟩, rfl⟩
        obtain rfl := eq_of_zipIdx hk' hk hsame
        exact ⟨rfl, m, hm, hlength, hfts⟩
      · rintro ⟨rfl, n, hn, hlength, hfts⟩
        exact ⟨(n, k.2), ⟨⟨k, hk, n, ⟨hn, hlength⟩, rfl⟩, rfl, hfts⟩, rfl⟩
  | instr value =>
      simp only [Index.joins, Statement.Selects]
      split
      · rename_i h
        simp [h]
      · rename_i h
        simp [h]

/-- **What a statement selects of the kept places.** -/
theorem mem_query_build {row : Row K} : row ∈ (build places).query engine statement box ↔
    ∃ k ∈ places.zipIdx 1, row = k.1.row k.2 ∧ engine.inBox box k.1.lat k.1.lon = true ∧
      statement.Selects engine k.1.norms := by
  unfold Index.query
  rw [(engine.order_perm _ _).mem_iff, List.mem_flatMap]
  simp only [List.mem_filter, List.mem_flatMap, decide_eq_true_eq]
  constructor
  · rintro ⟨r, ⟨hr, hbox⟩, p, ⟨hp, hid⟩, hjoins⟩
    rw [build_eq] at hr hp
    obtain ⟨k, hk, rfl⟩ := List.mem_map.mp hr
    obtain ⟨k', hk', rfl⟩ := List.mem_map.mp hp
    obtain rfl := eq_of_zipIdx hk' hk hid
    obtain ⟨hrow, hselects⟩ := (mem_joins_build hk').mp hjoins
    exact ⟨k', hk', hrow, hbox, hselects⟩
  · rintro ⟨k, hk, hrow, hbox, hselects⟩
    refine ⟨(k.2, k.1.lat, k.1.lon), ⟨?_, hbox⟩, (k.1.row k.2, joined k.1.norms), ⟨?_, rfl⟩,
      (mem_joins_build hk).mpr ⟨hrow, hselects⟩⟩
    · rw [build_eq]
      exact List.mem_map_of_mem hk
    · rw [build_eq]
      exact List.mem_map_of_mem hk

/-! ### The kept places -/

section KeptPlaces

variable {K V I : Type} [LinearOrder K] [Field K] [DecidableEq I] {unicode : Unicode}
  {float : V → Option (Number K)} {str : I → String} {source : String} {seen : List I}
  {place : Kept K}

/-- What `build` checks of a row that it keeps. -/
structure KeptFrom (str : I → String) (source : String) (seen : List I) (id : I) (place : Kept K) :
    Prop where
  point : korea.Has place.lat place.lon
  named : "" ∉ place.norms
  source_eq : place.source = source
  sourceId_eq : place.sourceId = str id
  fresh : id ∉ seen

theorem keepRow_eq_some {row : SourceRow V I}
    (h : keepRow unicode float str source seen row = some place) :
    KeptFrom str source seen row.sourceId place := by
  unfold keepRow at h
  split at h
  · cases h
  rename_i lat lon hpoint
  dsimp only at h
  split at h
  · cases h
  split at h
  · cases h
  rename_i hfresh
  cases h
  refine ⟨?_, ?_, rfl, rfl, hfresh⟩
  · unfold koreanPoint at hpoint
    split at hpoint
    · dsimp only at hpoint
      split at hpoint
      · rename_i hinside
        cases hpoint
        simp only [Bool.and_eq_true, decide_eq_true_eq] at hinside
        exact ⟨hinside.1.1, hinside.1.2, hinside.2.1, hinside.2.2⟩
      · cases hpoint
    · cases hpoint
  · intro hmem
    have hne := (List.mem_filter.mp hmem).2
    simp at hne

/-- The rows kept of a source have ids of their own, none of those seen before. -/
theorem mem_keepRows {rows : List (SourceRow V I)}
    (h : place ∈ keepRows unicode float str source seen rows) :
    ∃ id, KeptFrom str source seen id place := by
  induction rows generalizing seen with
  | nil => cases h
  | cons row rows ih =>
      rw [keepRows] at h
      split at h
      · exact ih h
      · rename_i kept hkept
        rcases List.mem_cons.mp h with rfl | h
        · exact ⟨row.sourceId, keepRow_eq_some hkept⟩
        · obtain ⟨id, hid⟩ := ih h
          exact ⟨id, { hid with fresh := fun hseen => hid.fresh (List.mem_cons_of_mem _ hseen) }⟩

theorem nodup_keepRows (hstr : Function.Injective str) (rows : List (SourceRow V I)) :
    ((keepRows unicode float str source seen rows).map Kept.sourceId).Nodup := by
  induction rows generalizing seen with
  | nil => exact .nil
  | cons row rows ih =>
      rw [keepRows]
      split
      · exact ih
      · rename_i kept hkept
        rw [List.map_cons, List.nodup_cons]
        refine ⟨fun hmem => ?_, ih⟩
        obtain ⟨other, hother, hsame⟩ := List.mem_map.mp hmem
        obtain ⟨id, hid⟩ := mem_keepRows hother
        rw [hid.sourceId_eq, (keepRow_eq_some hkept).sourceId_eq] at hsame
        exact hid.fresh (hstr hsame ▸ List.mem_cons_self)

variable {read : String → List (SourceRow V I)}

theorem mem_keptPlaces (h : place ∈ keptPlaces unicode float str read) :
    korea.Has place.lat place.lon ∧ "" ∉ place.norms := by
  obtain ⟨source, -, hplace⟩ := List.mem_flatMap.mp h
  obtain ⟨id, hid⟩ := mem_keepRows hplace
  exact ⟨hid.point, hid.named⟩

/-- Where ids that differ are written differently, no two places have one source and one id. -/
theorem nodup_keptPlaces (hstr : Function.Injective str) :
    ((keptPlaces unicode float str read).map fun p => (p.source, p.sourceId)).Nodup := by
  unfold keptPlaces
  rw [List.map_flatMap, List.nodup_flatMap]
  constructor
  · intro source _
    have hids : ((keepRows unicode float str source [] (read source)).map Kept.sourceId).Nodup :=
      nodup_keepRows hstr _
    rw [show Kept.sourceId = Prod.snd ∘ fun p : Kept K => (p.source, p.sourceId) from rfl,
      ← List.map_map] at hids
    exact hids.of_map
  · refine (show sources.Nodup by decide).imp fun {a b} hne => ?_
    rw [Function.onFun, List.disjoint_left]
    intro pair ha hb
    obtain ⟨p, hp, rfl⟩ := List.mem_map.mp ha
    obtain ⟨p', hp', hsame⟩ := List.mem_map.mp hb
    obtain ⟨id, hid⟩ := mem_keepRows hp
    obtain ⟨id', hid'⟩ := mem_keepRows hp'
    rw [Prod.mk.injEq, hid.source_eq, hid'.source_eq] at hsame
    exact hne hsame.1.symm

end KeptPlaces

end Yeodam.Infra
