/-
Dictionaries in insertion order.

A `Dict κ ν` maps keys to values and lists its entries in the order their keys were first
set, as Python's `dict` does: setting a key that is there replaces its value in place.
That every key is listed once is a field.

Reads are specified through `get?`; `count` counts the values with a property, and
`count_set` says what setting a key makes of it.
-/

import Mathlib.Data.List.Nodup

namespace Yeodam.Lib

universe u v

structure Dict (κ : Type u) (ν : Type v) where
  entries : List (κ × ν)
  nodup : (entries.map Prod.fst).Nodup

namespace Dict

variable {κ : Type u} {ν : Type v} [DecidableEq κ]

def empty : Dict κ ν := ⟨[], .nil⟩

instance : EmptyCollection (Dict κ ν) := ⟨empty⟩

def get? (d : Dict κ ν) (k : κ) : Option ν := (d.entries.find? fun e => e.1 = k).map Prod.snd

def values (d : Dict κ ν) : List ν := d.entries.map Prod.snd

/-- Replace the value of `k` where it is listed. -/
def replaceEntry (k : κ) (v : ν) (xs : List (κ × ν)) : List (κ × ν) :=
  xs.map fun e => if e.1 = k then (k, v) else e

theorem keys_replaceEntry (k : κ) (v : ν) (xs : List (κ × ν)) :
    (replaceEntry k v xs).map Prod.fst = xs.map Prod.fst := by
  rw [replaceEntry, List.map_map]
  apply List.map_congr_left
  intro e _
  simp only [Function.comp_apply]
  split
  · rename_i h
    exact h.symm
  · rfl

/-- `d[k] = v`. -/
def set (d : Dict κ ν) (k : κ) (v : ν) : Dict κ ν :=
  if h : k ∈ d.entries.map Prod.fst then
    ⟨replaceEntry k v d.entries, by rw [keys_replaceEntry]; exact d.nodup⟩
  else
    ⟨d.entries ++ [(k, v)], by
      rw [List.map_append]
      apply d.nodup.append (List.nodup_singleton _)
      simpa [List.disjoint_left] using h⟩

/-- The number of values with a property. -/
def count (d : Dict κ ν) (p : ν → Bool) : Nat := d.values.countP p

variable {d : Dict κ ν} {k k' : κ} {v w : ν}

theorem mem_entries_iff : (k, v) ∈ d.entries ↔ d.get? k = some v := by
  unfold get?
  have hnodup := d.nodup
  generalize d.entries = xs at hnodup
  induction xs with
  | nil => simp
  | cons e xs ih =>
      obtain ⟨k₀, v₀⟩ := e
      rw [List.map_cons, List.nodup_cons] at hnodup
      by_cases hk : k₀ = k
      · subst hk
        have hnot : (k₀, v) ∉ xs := fun h => hnodup.1 (List.mem_map.mpr ⟨_, h, rfl⟩)
        simp [hnot, eq_comm]
      · have hne : k ≠ k₀ := fun h => hk h.symm
        simp [hk, hne, ih hnodup.2]

theorem get?_of_mem (h : (k, v) ∈ d.entries) : d.get? k = some v := mem_entries_iff.mp h

theorem mem_of_get? (h : d.get? k = some v) : (k, v) ∈ d.entries := mem_entries_iff.mpr h

theorem mem_keys_iff : k ∈ d.entries.map Prod.fst ↔ (d.get? k).isSome = true := by
  rw [Option.isSome_iff_exists]
  constructor
  · intro h
    obtain ⟨⟨k₀, v⟩, hmem, rfl⟩ := List.mem_map.mp h
    exact ⟨v, get?_of_mem hmem⟩
  · rintro ⟨v, hv⟩
    exact List.mem_map.mpr ⟨(k, v), mem_of_get? hv, rfl⟩

theorem mem_values_iff : v ∈ d.values ↔ ∃ k, d.get? k = some v := by
  constructor
  · intro h
    obtain ⟨⟨k, v'⟩, hmem, rfl⟩ := List.mem_map.mp h
    exact ⟨k, get?_of_mem hmem⟩
  · rintro ⟨k, hk⟩
    exact List.mem_map.mpr ⟨(k, v), mem_of_get? hk, rfl⟩

@[simp] theorem get?_empty : (∅ : Dict κ ν).get? k = none := rfl

theorem mem_set_iff : (k', w) ∈ (d.set k v).entries ↔
    (k' = k ∧ w = v) ∨ (k' ≠ k ∧ (k', w) ∈ d.entries) := by
  unfold set
  split
  · rename_i hk
    simp only [replaceEntry, List.mem_map]
    constructor
    · rintro ⟨e, he, heq⟩
      split at heq
      · cases heq
        exact .inl ⟨rfl, rfl⟩
      · rename_i hne
        subst heq
        exact .inr ⟨hne, he⟩
    · rintro (⟨rfl, rfl⟩ | ⟨hne, hmem⟩)
      · obtain ⟨e, he, rfl⟩ := List.mem_map.mp hk
        exact ⟨e, he, by simp⟩
      · exact ⟨_, hmem, by simp [hne]⟩
  · rename_i hk
    simp only [List.mem_append, List.mem_singleton, Prod.mk.injEq]
    constructor
    · rintro (hmem | h)
      · refine .inr ⟨?_, hmem⟩
        rintro rfl
        exact hk (List.mem_map.mpr ⟨_, hmem, rfl⟩)
      · exact .inl h
    · rintro (h | ⟨-, hmem⟩)
      · exact .inr h
      · exact .inl hmem

@[simp] theorem get?_set_self : (d.set k v).get? k = some v :=
  get?_of_mem (mem_set_iff.mpr (.inl ⟨rfl, rfl⟩))

theorem get?_set_ne (h : k' ≠ k) : (d.set k v).get? k' = d.get? k' := by
  apply Option.ext
  intro w
  rw [← mem_entries_iff, ← mem_entries_iff, mem_set_iff]
  simp [h]

theorem get?_set : (d.set k v).get? k' = if k' = k then some v else d.get? k' := by
  split
  · rename_i h
    rw [h, get?_set_self]
  · rename_i h
    exact get?_set_ne h

/-- A key that is new is listed last. -/
theorem entries_set_of_absent (h : d.get? k = none) :
    (d.set k v).entries = d.entries ++ [(k, v)] := by
  have hk : k ∉ d.entries.map Prod.fst := by
    rw [mem_keys_iff, h]
    exact nofun
  unfold set
  rw [dif_neg hk]

theorem length_set_of_absent (h : d.get? k = none) :
    (d.set k v).entries.length = d.entries.length + 1 := by
  rw [entries_set_of_absent h, List.length_append, List.length_singleton]

/-- Setting a key to the value it has changes nothing. -/
theorem set_of_get? (h : d.get? k = some v) : d.set k v = d := by
  have hk : k ∈ d.entries.map Prod.fst := by
    rw [mem_keys_iff, h]
    rfl
  obtain ⟨entries, hnodup⟩ := d
  unfold set
  rw [dif_pos hk, mk.injEq, replaceEntry]
  refine List.map_congr_left (g := id) (fun e he => ?_) |>.trans (List.map_id entries)
  split
  · rename_i hek
    obtain ⟨k', w⟩ := e
    obtain rfl : k' = k := hek
    rw [get?_of_mem he, Option.some.injEq] at h
    rw [h]
    rfl
  · rfl

/-! ### From a list -/

section Collect

variable {α : Type*} {key : α → κ} {value : α → ν} {xs : List α} {x : α}

/-- `{key(x): value(x) for x in xs}` -/
def collect (key : α → κ) (value : α → ν) (xs : List α) : Dict κ ν :=
  xs.foldl (fun d x => d.set (key x) (value x)) ∅

theorem get?_foldl_set : (xs.foldl (fun d x => d.set (key x) (value x)) d).get? k =
    ((xs.reverse.find? fun x => key x = k).map value).or (d.get? k) := by
  induction xs generalizing d with
  | nil => rfl
  | cons x xs ih =>
      rw [List.foldl_cons, ih, List.reverse_cons, List.find?_append, get?_set]
      cases hfind : xs.reverse.find? fun x => key x = k with
      | some y => rfl
      | none =>
          by_cases hk : key x = k
          · simp [hk]
          · have hk' : ¬ k = key x := fun h => hk h.symm
            simp [hk, hk']

/-- Elements of one key having one value, it is the value of the key. -/
theorem get?_collect (hone : ∀ y ∈ xs, key y = key x → value y = value x) (hx : x ∈ xs) :
    (collect key value xs).get? (key x) = some (value x) := by
  rw [collect, get?_foldl_set]
  cases hfind : xs.reverse.find? fun y => key y = key x with
  | none =>
      have hno := List.find?_eq_none.mp hfind x (List.mem_reverse.mpr hx)
      simp at hno
  | some y =>
      have hkey : key y = key x := of_decide_eq_true (List.find?_some hfind :)
      rw [Option.map_some, hone y (List.mem_reverse.mp (List.mem_of_find?_eq_some hfind)) hkey]
      rfl

/-- The keys are those of the elements. -/
theorem mem_keys_collect :
    k ∈ (collect key value xs).entries.map Prod.fst ↔ ∃ x ∈ xs, key x = k := by
  rw [mem_keys_iff, collect, get?_foldl_set]
  cases hfind : xs.reverse.find? fun x => key x = k with
  | none =>
      apply iff_of_false (by simp)
      rintro ⟨x, hx, hk⟩
      have hno := List.find?_eq_none.mp hfind x (List.mem_reverse.mpr hx)
      simp [hk] at hno
  | some x =>
      refine iff_of_true rfl ⟨x, ?_, of_decide_eq_true (List.find?_some hfind :)⟩
      exact List.mem_reverse.mp (List.mem_of_find?_eq_some hfind)

end Collect

/-! ### Counting -/

omit [DecidableEq κ] in
theorem nodup_entries (d : Dict κ ν) : d.entries.Nodup := .of_map _ d.nodup

/-- The entries of the other keys. -/
def others (d : Dict κ ν) (k : κ) : List (κ × ν) := d.entries.filter fun e => e.1 ≠ k

theorem nodup_cons_others : ((k, v) :: d.others k).Nodup := by
  refine List.nodup_cons.mpr ⟨fun h => ?_, d.nodup_entries.filter _⟩
  simpa using (List.mem_filter.mp h).2

theorem perm_of_get? (h : d.get? k = some v) : d.entries.Perm ((k, v) :: d.others k) := by
  rw [List.perm_ext_iff_of_nodup d.nodup_entries nodup_cons_others]
  rintro ⟨k', w⟩
  simp only [others, List.mem_cons, List.mem_filter, Prod.mk.injEq]
  constructor
  · intro hmem
    by_cases hk : k' = k
    · subst hk
      rw [mem_entries_iff, h] at hmem
      exact .inl ⟨rfl, (Option.some.inj hmem).symm⟩
    · exact .inr ⟨hmem, by simpa using hk⟩
  · rintro (⟨rfl, rfl⟩ | ⟨hmem, -⟩)
    · exact mem_of_get? h
    · exact hmem

theorem perm_set : (d.set k v).entries.Perm ((k, v) :: d.others k) := by
  rw [List.perm_ext_iff_of_nodup (d.set k v).nodup_entries nodup_cons_others]
  rintro ⟨k', w⟩
  rw [mem_set_iff]
  simp only [others, List.mem_cons, List.mem_filter, Prod.mk.injEq]
  constructor
  · rintro (h | ⟨hne, hmem⟩)
    · exact .inl h
    · exact .inr ⟨hmem, by simpa using hne⟩
  · rintro (h | ⟨hmem, hne⟩)
    · exact .inl h
    · exact .inr ⟨by simpa using hne, hmem⟩

/-- The part of a value in a count. -/
def weight (p : ν → Bool) (o : Option ν) : Nat := if o.any p then 1 else 0

@[simp] theorem weight_none (p : ν → Bool) : weight p none = 0 := rfl

@[simp] theorem weight_some (p : ν → Bool) (v : ν) : weight p (some v) = if p v then 1 else 0 := rfl

/-- A count is the part of one key and that of the others. -/
theorem count_eq (p : ν → Bool) (k : κ) :
    d.count p = weight p (d.get? k) + ((d.others k).map Prod.snd).countP p := by
  cases h : d.get? k with
  | some v =>
      have hperm := ((perm_of_get? h).map Prod.snd).countP_eq p
      rw [count, values, hperm, List.map_cons, List.countP_cons, weight_some, Nat.add_comm]
  | none =>
      have hsame : d.others k = d.entries := by
        apply List.filter_eq_self.mpr
        intro e he
        simp only [ne_eq, decide_not, Bool.not_eq_true', decide_eq_false_iff_not]
        rintro rfl
        rw [get?_of_mem (show (e.1, e.2) ∈ d.entries from he)] at h
        cases h
      rw [hsame, weight_none, Nat.zero_add]
      rfl

theorem count_set (p : ν → Bool) :
    (d.set k v).count p = weight p (some v) + ((d.others k).map Prod.snd).countP p := by
  have hperm := (perm_set (d := d) (k := k) (v := v)).map Prod.snd
  rw [count, values, hperm.countP_eq p, List.map_cons, List.countP_cons, weight_some, Nat.add_comm]

/-- Counting two properties that agree but on the value of one key. -/
theorem count_congr {p q : ν → Bool} (k : κ)
    (h : ∀ k' w, k' ≠ k → d.get? k' = some w → p w = q w) :
    d.count p + weight q (d.get? k) = d.count q + weight p (d.get? k) := by
  have hothers : ((d.others k).map Prod.snd).countP p = ((d.others k).map Prod.snd).countP q := by
    apply List.countP_congr
    intro w hw
    obtain ⟨⟨k', w'⟩, hmem, rfl⟩ := List.mem_map.mp hw
    obtain ⟨hentry, hne⟩ := List.mem_filter.mp hmem
    rw [h k' w' (by simpa using hne) (get?_of_mem hentry)]
  rw [count_eq p k, count_eq q k, hothers]
  omega

end Dict

end Yeodam.Lib
