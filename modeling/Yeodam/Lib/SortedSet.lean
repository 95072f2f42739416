/-
Scored sets kept in order: the sorted set of a key-value store.

A `SortedSet α β` maps members of `α` to scores of `β` and keeps its entries by
increasing score, equal scores by member. `add` replaces the score of a member
that is already there. The two invariants (strictly ordered, each member once) are
fields, so no operation can build an unordered set.

Every operation is specified through `score?`, the score a member has; `first?`
and `below` are the two reads that depend on the order, `countAbove` the one that counts.
-/

import Mathlib.Data.List.Perm.Subperm
import Mathlib.Order.Lattice

namespace Yeodam.Lib

universe u v

variable {α : Type u} {β : Type v} [LinearOrder α] [LinearOrder β]

/-- Entry order: by score, equal scores by member. -/
def EntryLt (a b : α × β) : Prop :=
  a.2 < b.2 ∨ (a.2 = b.2 ∧ a.1 < b.1)

instance : DecidableRel (EntryLt (α := α) (β := β)) :=
  fun a b => inferInstanceAs (Decidable (a.2 < b.2 ∨ (a.2 = b.2 ∧ a.1 < b.1)))

theorem EntryLt.trans {a b c : α × β} (hab : EntryLt a b) (hbc : EntryLt b c) : EntryLt a c := by
  rcases hab with hab | ⟨hab, hab'⟩ <;> rcases hbc with hbc | ⟨hbc, hbc'⟩
  · exact .inl (hab.trans hbc)
  · exact .inl (hbc ▸ hab)
  · exact .inl (hab ▸ hbc)
  · exact .inr ⟨hab.trans hbc, hab'.trans hbc'⟩

/-- Two entries of different members are ordered one way or the other. -/
theorem EntryLt.of_not {a b : α × β} (hne : a.1 ≠ b.1) (h : ¬ EntryLt a b) : EntryLt b a := by
  rcases lt_trichotomy a.2 b.2 with hlt | heq | hgt
  · exact absurd (Or.inl hlt) h
  · rcases lt_or_gt_of_ne hne with hlt | hgt
    · exact absurd (Or.inr ⟨heq, hlt⟩) h
    · exact .inr ⟨heq.symm, hgt⟩
  · exact .inl hgt

theorem EntryLt.score_le {a b : α × β} (h : EntryLt a b) : a.2 ≤ b.2 := by
  rcases h with h | ⟨h, -⟩
  · exact h.le
  · exact h.le

/-- Insert an entry before the first one it precedes. -/
def insertEntry (e : α × β) : List (α × β) → List (α × β)
  | [] => [e]
  | x :: xs => if EntryLt e x then e :: x :: xs else x :: insertEntry e xs

theorem mem_insertEntry {e a : α × β} {xs : List (α × β)} :
    a ∈ insertEntry e xs ↔ a = e ∨ a ∈ xs := by
  induction xs with
  | nil => simp [insertEntry]
  | cons x xs ih =>
      rw [insertEntry]
      split
      · simp
      · simp only [List.mem_cons, ih]
        exact or_left_comm

theorem perm_insertEntry (e : α × β) (xs : List (α × β)) :
    (insertEntry e xs).Perm (e :: xs) := by
  induction xs with
  | nil => exact .refl _
  | cons a xs ih =>
      rw [insertEntry]
      split
      · exact .refl _
      · exact (ih.cons a).trans (.swap _ _ _)

theorem pairwise_insertEntry {e : α × β} {xs : List (α × β)} (fresh : ∀ a ∈ xs, e.1 ≠ a.1)
    (h : xs.Pairwise EntryLt) : (insertEntry e xs).Pairwise EntryLt := by
  induction xs with
  | nil => simp [insertEntry]
  | cons x xs ih =>
      obtain ⟨hx, hxs⟩ := List.pairwise_cons.mp h
      rw [insertEntry]
      split
      · rename_i hlt
        refine List.pairwise_cons.mpr ⟨?_, h⟩
        intro a ha
        rcases List.mem_cons.mp ha with rfl | ha
        · exact hlt
        · exact hlt.trans (hx a ha)
      · rename_i hnot
        refine List.pairwise_cons.mpr ⟨?_, ih (fun a ha => fresh a (List.mem_cons_of_mem _ ha)) hxs⟩
        intro a ha
        rcases mem_insertEntry.mp ha with rfl | ha
        · exact EntryLt.of_not (fresh x List.mem_cons_self) hnot
        · exact hx a ha

/-- A set of scored members, its entries in order. -/
structure SortedSet (α : Type u) (β : Type v) [LinearOrder α] [LinearOrder β] where
  entries : List (α × β)
  sorted : entries.Pairwise EntryLt
  unique : entries.Pairwise fun a b => a.1 ≠ b.1

namespace SortedSet

variable (s : SortedSet α β) (m m' : α) (x y : β)

def empty : SortedSet α β := ⟨[], .nil, .nil⟩

instance : EmptyCollection (SortedSet α β) := ⟨empty⟩

/-- The score of a member, if it is in the set. -/
def score? : Option β :=
  (s.entries.find? fun e => e.1 = m).map Prod.snd

instance : Membership α (SortedSet α β) := ⟨fun s m => (s.score? m).isSome = true⟩

/-- Keep the entries that satisfy `p`. -/
def filter (p : α × β → Bool) : SortedSet α β where
  entries := s.entries.filter p
  sorted := s.sorted.filter p
  unique := s.unique.filter p

/-- Remove a member. -/
def remove : SortedSet α β := s.filter fun e => e.1 ≠ m

theorem fresh_remove : ∀ a ∈ (s.remove m).entries, m ≠ a.1 := by
  intro a ha heq
  have hne := (List.mem_filter.mp ha).2
  rw [heq] at hne
  exact absurd rfl (of_decide_eq_true hne)

/-- Add a member, replacing the score it had. -/
def add : SortedSet α β where
  entries := insertEntry (m, x) (s.remove m).entries
  sorted := pairwise_insertEntry (s.fresh_remove m) (s.remove m).sorted
  unique := ((perm_insertEntry _ _).pairwise_iff fun h => h.symm).mpr
    (List.pairwise_cons.mpr ⟨s.fresh_remove m, (s.remove m).unique⟩)

/-- The entry with the smallest score, ties to the smallest member. -/
def first? : Option (α × β) := s.entries.head?

/-- The members whose score is at most `x`, in order, at most `n` of them. -/
def below (n : Nat) : List α :=
  ((s.entries.filter fun e => e.2 ≤ x).take n).map Prod.fst

/-- Remove every member whose score is at most `x`. -/
def removeBelow : SortedSet α β := s.filter fun e => ¬ e.2 ≤ x

/-- The number of members whose score is above `x`. -/
def countAbove : Nat := (s.entries.filter fun e => x < e.2).length

variable {s m m' x y}

theorem mem_iff : m ∈ s ↔ ∃ x, s.score? m = some x := Option.isSome_iff_exists

theorem mem_entries_iff : (m, x) ∈ s.entries ↔ s.score? m = some x := by
  unfold score?
  have hu := s.unique
  generalize s.entries = xs at hu
  induction xs with
  | nil => simp
  | cons e xs ih =>
      obtain ⟨he, hxs⟩ := List.pairwise_cons.mp hu
      obtain ⟨m₀, x₀⟩ := e
      by_cases hm : m₀ = m
      · subst hm
        have hnot : (m₀, x) ∉ xs := fun h => he _ h rfl
        simp [hnot, eq_comm]
      · have hne : m ≠ m₀ := fun h => hm h.symm
        simp [hm, hne, ih hxs]

theorem score?_of_mem (h : (m, x) ∈ s.entries) : s.score? m = some x := mem_entries_iff.mp h

theorem mem_of_score? (h : s.score? m = some x) : (m, x) ∈ s.entries := mem_entries_iff.mpr h

theorem score?_eq_none_iff : s.score? m = none ↔ ∀ x, (m, x) ∉ s.entries := by
  constructor
  · intro h x hx
    rw [mem_entries_iff, h] at hx
    cases hx
  · intro h
    cases hs : s.score? m with
    | none => rfl
    | some x => exact absurd (mem_of_score? hs) (h x)

/-- Two sets that give every member the same entries give it the same score. -/
theorem score?_congr {t : SortedSet α β} (h : ∀ x, (m, x) ∈ s.entries ↔ (m, x) ∈ t.entries) :
    s.score? m = t.score? m := by
  cases ht : t.score? m with
  | none => exact score?_eq_none_iff.mpr fun x hx =>
      score?_eq_none_iff.mp ht x ((h x).mp hx)
  | some x => exact score?_of_mem ((h x).mpr (mem_of_score? ht))

@[simp] theorem score?_empty : (∅ : SortedSet α β).score? m = none := rfl

theorem score?_filter_some {p : α × β → Bool} :
    (s.filter p).score? m = some x ↔ s.score? m = some x ∧ p (m, x) = true := by
  rw [← mem_entries_iff, ← mem_entries_iff]
  exact List.mem_filter

@[simp] theorem score?_remove_self : (s.remove m).score? m = none := by
  rw [score?_eq_none_iff]
  intro x hx
  simpa using (List.mem_filter.mp hx).2

theorem score?_remove_ne (h : m' ≠ m) : (s.remove m).score? m' = s.score? m' := by
  refine score?_congr fun x => ?_
  simp [remove, filter, List.mem_filter, h]

theorem score?_remove : (s.remove m).score? m' = if m' = m then none else s.score? m' := by
  split
  · rename_i h
    rw [h, score?_remove_self]
  · rename_i h
    exact score?_remove_ne h

@[simp] theorem score?_add_self : (s.add m x).score? m = some x :=
  score?_of_mem (mem_insertEntry.mpr (.inl rfl))

theorem score?_add_ne (h : m' ≠ m) : (s.add m x).score? m' = s.score? m' := by
  refine score?_congr fun y => ?_
  simp [add, mem_insertEntry, remove, filter, List.mem_filter, h]

theorem score?_add : (s.add m x).score? m' = if m' = m then some x else s.score? m' := by
  split
  · rename_i h
    rw [h, score?_add_self]
  · rename_i h
    exact score?_add_ne h

theorem score?_removeBelow :
    (s.removeBelow x).score? m = (s.score? m).filter fun y => ¬ y ≤ x := by
  cases hs : s.score? m with
  | none =>
      refine score?_eq_none_iff.mpr fun y hy => ?_
      exact score?_eq_none_iff.mp hs y (List.mem_filter.mp hy).1
  | some y =>
      by_cases hy : y ≤ x
      · rw [Option.filter_some_neg (by simpa using hy)]
        refine score?_eq_none_iff.mpr fun z hz => ?_
        have hz' := score?_filter_some.mp (score?_of_mem hz)
        rw [hs] at hz'
        obtain ⟨rfl, hz'⟩ := (Option.some.injEq .. ▸ hz'.1 : y = z), hz'.2
        simp [hy] at hz'
      · rw [Option.filter_some_pos (by simpa using hy)]
        exact score?_filter_some.mpr ⟨hs, by simpa using hy⟩

theorem first?_mem (h : s.first? = some (m, x)) : s.score? m = some x :=
  score?_of_mem (List.mem_of_mem_head? h)

/-- The first entry has the smallest score of the set. -/
theorem first?_le (h : s.first? = some (m, x)) (hm : s.score? m' = some y) : x ≤ y := by
  have hmem := mem_of_score? hm
  have hs := s.sorted
  unfold first? at h
  cases he : s.entries with
  | nil => simp [he] at h
  | cons e xs =>
      rw [he] at h hmem hs
      obtain rfl : e = (m, x) := by simpa using h
      rcases List.mem_cons.mp hmem with heq | hmem
      · simp only [Prod.mk.injEq] at heq
        exact heq.2.ge
      · exact ((List.pairwise_cons.mp hs).1 _ hmem).score_le

theorem mem_below {n : Nat} (h : m ∈ s.below x n) : ∃ y, s.score? m = some y ∧ y ≤ x := by
  obtain ⟨⟨m₀, y⟩, hmem, rfl⟩ := List.mem_map.mp h
  have hf := List.mem_filter.mp (List.mem_of_mem_take hmem)
  exact ⟨y, score?_of_mem hf.1, by simpa using hf.2⟩

theorem members_nodup : (s.entries.map Prod.fst).Nodup :=
  List.pairwise_map.mpr s.unique

theorem below_nodup {n : Nat} : (s.below x n).Nodup :=
  s.members_nodup.sublist (((List.take_sublist n _).trans List.filter_sublist).map Prod.fst)

/-- A page as long as the set leaves nothing out. -/
theorem mem_below_iff {n : Nat} (hn : s.entries.length ≤ n) :
    m ∈ s.below x n ↔ ∃ y, s.score? m = some y ∧ y ≤ x := by
  refine ⟨mem_below, ?_⟩
  rintro ⟨y, hy, hle⟩
  unfold below
  rw [List.take_of_length_le ((List.length_filter_le _ _).trans hn)]
  exact List.mem_map.mpr ⟨(m, y), List.mem_filter.mpr ⟨mem_of_score? hy, by simpa using hle⟩,
    rfl⟩

/-! ### Scores determine the set -/

theorem EntryLt.asymm {a b : α × β} (h : EntryLt a b) (h' : EntryLt b a) : a = b := by
  rcases h with h | ⟨h, hm⟩ <;> rcases h' with h' | ⟨h', hm'⟩
  · exact absurd (h.trans h') (lt_irrefl _)
  · exact absurd (h' ▸ h) (lt_irrefl _)
  · exact absurd (h ▸ h') (lt_irrefl _)
  · exact absurd (hm.trans hm') (lt_irrefl _)

/-- The entries are in the one order their scores allow. -/
theorem ext_score {t : SortedSet α β} (h : ∀ m, s.score? m = t.score? m) : s = t := by
  have hnodup : ∀ u : SortedSet α β, u.entries.Nodup := fun u =>
    u.unique.imp fun hne heq => hne (congrArg Prod.fst heq)
  have hperm : s.entries.Perm t.entries := by
    apply (List.perm_ext_iff_of_nodup (hnodup s) (hnodup t)).mpr
    rintro ⟨m, x⟩
    rw [mem_entries_iff, mem_entries_iff, h m]
  have hentries : s.entries = t.entries :=
    hperm.eq_of_pairwise (fun _ _ _ _ hab hba => EntryLt.asymm hab hba) s.sorted t.sorted
  cases s
  cases t
  cases hentries
  rfl

theorem add_remove (h : s.score? m = some x) : (s.remove m).add m x = s := by
  apply ext_score
  intro m'
  rw [score?_add, score?_remove]
  split
  · rename_i heq
    rw [heq, h]
  · rfl

theorem remove_add (h : s.score? m = none) : (s.add m x).remove m = s := by
  apply ext_score
  intro m'
  rw [score?_remove, score?_add]
  split
  · rename_i heq
    rw [heq, h]
  · rfl

/-! ### Counting -/

theorem countAbove_anti (h : x ≤ y) : s.countAbove y ≤ s.countAbove x := by
  refine (List.monotone_filter_right _ fun e he => ?_).length_le
  exact decide_eq_true (h.trans_lt (of_decide_eq_true he))

theorem countAbove_filter_le (p : α × β → Bool) : (s.filter p).countAbove x ≤ s.countAbove x := by
  exact (List.filter_sublist.filter _).length_le

theorem countAbove_add_le : (s.add m y).countAbove x ≤ s.countAbove x + 1 := by
  have hperm := (perm_insertEntry (m, y) (s.remove m).entries).filter fun e => decide (x < e.2)
  have hremove : (s.remove m).countAbove x ≤ s.countAbove x := countAbove_filter_le _
  have hlength : (s.add m y).countAbove x ≤ (s.remove m).countAbove x + 1 := by
    unfold countAbove add
    rw [hperm.length_eq, List.filter_cons]
    split
    · exact le_rfl
    · exact Nat.le_succ _
  omega

/-- Different members with scores above `x` are at most `countAbove x`. -/
theorem length_le_countAbove {ms : List α} (hms : ms.Nodup)
    (h : ∀ m ∈ ms, ∃ y, s.score? m = some y ∧ x < y) : ms.length ≤ s.countAbove x := by
  have hsub : ms ⊆ (s.entries.filter fun e => x < e.2).map Prod.fst := by
    intro m hm
    obtain ⟨y, hy, hlt⟩ := h m hm
    exact List.mem_map.mpr ⟨(m, y), List.mem_filter.mpr ⟨mem_of_score? hy, by simpa using hlt⟩,
      rfl⟩
  have hle := (hms.subperm hsub).length_le
  rwa [List.length_map] at hle

end SortedSet

end Yeodam.Lib
