/-
Place names of a question as names of the region catalog (`app/search/regions.py`).

The backend keeps the trips whose regions are named exactly, so a name that is in no catalog would
leave nothing to search. `toCatalogNames_subset`: whatever is asked for, what is passed on are names
of the catalog, each once, and never an empty list.
-/

import Yeodam.Lib.Keyed
import Yeodam.Lib.Text

namespace Yeodam.Search

open Yeodam.Lib

def aliases : List (String × List String) :=
  [("경북", ["경상북도"]), ("경남", ["경상남도"]), ("충북", ["충청북도"]), ("충남", ["충청남도"]),
    ("전북", ["전북특별자치도"]), ("전라북도", ["전북특별자치도"]),
    ("전라남도", ["전남광주통합특별시"]), ("전남", ["전남광주통합특별시"]),
    ("광주광역시", ["전남광주통합특별시"]),
    ("전라도", ["전북특별자치도", "전남광주통합특별시"])]

def unitSuffixes : List String := ["시", "도", "군", "구"]

def districts : List (String × List String) :=
  [("서울특별시", ["종로", "중", "용산", "성동", "광진", "동대문", "중랑", "성북",
      "강북", "도봉", "노원", "은평", "서대문", "마포", "양천", "강서",
      "구로", "금천", "영등포", "동작", "관악", "서초", "강남", "송파", "강동"]),
    ("부산광역시", ["중", "서", "동", "영도", "부산진", "동래", "남", "북",
      "해운대", "사하", "금정", "강서", "연제", "수영", "사상"]),
    ("대구광역시", ["중", "동", "서", "남", "북", "수성", "달서"]),
    ("인천광역시", ["중", "동", "서", "미추홀", "연수", "남동", "부평", "계양",
      "제물포", "영종", "검단", "서해"]),
    ("전남광주통합특별시", ["동", "서", "남", "북", "광산"]),
    ("대전광역시", ["동", "중", "서", "유성", "대덕"]),
    ("울산광역시", ["중", "남", "동", "북"])]

def districtOnlyWithSuffix : List String := ["서해", "수영"]

/-- `_districts().get(key)`: the cities with a district of that name. -/
def citiesOf (key : String) : List String :=
  districts.flatMap fun (city, bases) =>
    bases.filterMap fun base =>
      if base ++ "구" = key ∨
          (2 ≤ base.length ∧ base ∉ districtOnlyWithSuffix ∧ base = key) then some city
      else none

/-- `s.replace(" ", "")` -/
def withoutBlanks (s : String) : String := .ofList (s.toList.filter fun c => c ≠ ' ')

/-- `s.split(" ")` -/
def splitBlanks (s : String) : List String := (s.toList.splitOn ' ').map String.ofList

/-- `_contains` -/
def containsUnit (region key : String) : Bool :=
  let units := splitBlanks region
  units.any (fun unit => key.toList.isPrefixOf unit.toList) ||
    units.getLast?.any fun unit => decide (key.toList <:+: unit.toList)

/-- The name and the name without the unit behind it, from two letters on. -/
def nameKeys (key : String) : List String :=
  let shortened :=
    if unitSuffixes.any fun suffix => suffix.toList.isSuffixOf key.toList then
      String.ofList key.toList.dropLast
    else key
  [key, shortened].eraseDups.filter fun k => 2 ≤ k.length

variable (catalog : List String)

/-- `_matches`. The two keys come in any order; the name itself is tried first. -/
def regionMatches (name : String) : List String :=
  let key := withoutBlanks name
  match aliases.lookup key with
  | some names => catalog.filter fun region =>
      (splitBlanks region).head?.any fun unit => unit ∈ names
  | none =>
      let exact := catalog.filter fun region =>
        key = withoutBlanks region ∨ key ∈ splitBlanks region
      if exact ≠ [] then exact
      else
        let found := catalog.filter fun region => (nameKeys key).any fun k => containsUnit region k
        if found ≠ [] then found
        else
          match (key :: nameKeys key).find? fun k => citiesOf k ≠ [] with
          | some k => catalog.filter fun region => region ∈ citiesOf k
          | none => []

/-- `_parent` -/
def parentRegion (region : String) : Option String :=
  match (splitBlanks region) with
  | head :: rest => if rest ≠ [] ∧ rest ≠ [""] ∧ head ∈ catalog then some head else none
  | [] => none

/-- `to_catalog_names` -/
def toCatalogNames (names : List String) : Option (List String) :=
  let matched := names.flatMap fun name =>
    let found := regionMatches catalog name
    if found = [] ∧ ' ' ∈ (strip name).toList then (splitSpace name).flatMap (regionMatches catalog)
    else found
  let all := (matched ++ matched.filterMap (parentRegion catalog)).eraseDups
  if all = [] then none else some all

variable {catalog}

theorem regionMatches_subset (name : String) : regionMatches catalog name ⊆ catalog := by
  unfold regionMatches
  dsimp only
  split
  · exact fun _ => List.mem_of_mem_filter
  split
  · exact fun _ => List.mem_of_mem_filter
  split
  · exact fun _ => List.mem_of_mem_filter
  split
  · exact fun _ => List.mem_of_mem_filter
  · exact List.nil_subset _

/-- **What is passed on are catalog names**, each once, and at least one. -/
theorem toCatalogNames_subset {names result : List String}
    (h : toCatalogNames catalog names = some result) :
    result ⊆ catalog ∧ result.Nodup ∧ result ≠ [] := by
  unfold toCatalogNames at h
  dsimp only at h
  split at h
  · cases h
  rename_i hne
  cases h
  refine ⟨fun region hregion => ?_, nodup_eraseDups _, hne⟩
  rcases List.mem_append.mp (List.mem_eraseDups.mp hregion) with hmatched | hparent
  · obtain ⟨name, -, hfound⟩ := List.mem_flatMap.mp hmatched
    split at hfound
    · obtain ⟨part, -, hpart⟩ := List.mem_flatMap.mp hfound
      exact regionMatches_subset part hpart
    · exact regionMatches_subset name hfound
  · obtain ⟨child, -, hparent⟩ := List.mem_filterMap.mp hparent
    unfold parentRegion at hparent
    split at hparent
    · split at hparent
      · rename_i hguard
        cases hparent
        exact hguard.2.2
      · cases hparent
    · cases hparent

end Yeodam.Search
