/-
Lists ordered and grouped by a key, as Python's `sorted` and `defaultdict(list)` do it.

`sortOn` is stable. `groupOn` lists the keys in the order they first appear, each with its
members in the order of the list. Both keep every element: `mem_sortOn`, `mem_of_mem_groupOn`
and `exists_group` say where an element of the list is found again.
-/

import Mathlib.Algebra.GroupWithZero.Nat
import Mathlib.Data.List.Sort
import Mathlib.Data.List.Nodup

namespace Yeodam.Lib

universe u v

variable {α : Type u} {κ : Type v}

/-! ### Sorting -/

namespace IntKeys

/-- The order of integer keys, whatever other orders of the integers are in scope. -/
scoped instance (priority := high) preorder : Preorder Int := Int.instLinearOrder.toPreorder

end IntKeys

section Sorting

variable [LinearOrder κ]

/-- `sorted(xs, key=key)`. -/
def sortOn (key : α → κ) (xs : List α) : List α :=
  xs.insertionSort fun a b => key a ≤ key b

theorem sortOn_perm (key : α → κ) (xs : List α) : (sortOn key xs).Perm xs :=
  List.perm_insertionSort _ xs

@[simp] theorem mem_sortOn {key : α → κ} {xs : List α} {x : α} : x ∈ sortOn key xs ↔ x ∈ xs :=
  (sortOn_perm key xs).mem_iff

@[simp] theorem sortOn_eq_nil {key : α → κ} {xs : List α} : sortOn key xs = [] ↔ xs = [] := by
  rw [← List.length_eq_zero_iff, (sortOn_perm key xs).length_eq, List.length_eq_zero_iff]

theorem pairwise_sortOn (key : α → κ) (xs : List α) :
    (sortOn key xs).Pairwise fun a b => key a ≤ key b := by
  have htotal : Std.Total fun a b : α => key a ≤ key b := ⟨fun a b => le_total (key a) (key b)⟩
  have htrans : IsTrans α fun a b => key a ≤ key b := ⟨fun _ _ _ h h' => h.trans h'⟩
  exact List.pairwise_insertionSort (fun a b => key a ≤ key b) xs

/-- Without ties, the order is strict. -/
theorem pairwise_lt_sortOn {key : α → κ} {xs : List α} (hkeys : (xs.map key).Nodup) :
    (sortOn key xs).Pairwise fun a b => key a < key b := by
  have hne : (sortOn key xs).Pairwise fun a b => key a ≠ key b :=
    List.pairwise_map.mp (((sortOn_perm key xs).map key).nodup_iff.mpr hkeys)
  exact (pairwise_sortOn key xs).and hne |>.imp fun h => lt_of_le_of_ne h.1 h.2

theorem nodup_map_sortOn {β : Type*} {key : α → κ} {f : α → β} {xs : List α}
    (h : (xs.map f).Nodup) : ((sortOn key xs).map f).Nodup :=
  ((sortOn_perm key xs).map f).nodup_iff.mpr h

variable {key : α → κ} {xs : List α} {x : α}

/-- The last element of a sorted list is the greatest one. -/
theorem getLast?_eq_some_iff_greatest (hsorted : xs.Pairwise fun a b => key a < key b) :
    xs.getLast? = some x ↔ x ∈ xs ∧ ∀ y ∈ xs, key y ≤ key x := by
  constructor
  · intro h
    obtain ⟨init, rfl⟩ := List.getLast?_eq_some_iff.mp h
    refine ⟨List.mem_append_right _ (List.mem_singleton_self _), fun y hy => ?_⟩
    rcases List.mem_append.mp hy with hy | hy
    · exact ((List.pairwise_append.mp hsorted).2.2 y hy x (List.mem_singleton_self _)).le
    · rw [List.mem_singleton.mp hy]
  · rintro ⟨hx, hgreatest⟩
    cases hlast : xs.getLast? with
    | none =>
        rw [List.getLast?_eq_none_iff.mp hlast] at hx
        cases hx
    | some z =>
        obtain ⟨init, rfl⟩ := List.getLast?_eq_some_iff.mp hlast
        rcases List.mem_append.mp hx with hx | hx
        · have hlt := (List.pairwise_append.mp hsorted).2.2 x hx z (List.mem_singleton_self _)
          exact absurd (hgreatest z (List.mem_append_right _ (List.mem_singleton_self _)))
            (not_le.mpr hlt)
        · rw [List.mem_singleton.mp hx]

/-- The first element of a sorted list is the least one. -/
theorem head?_eq_some_iff_least (hsorted : xs.Pairwise fun a b => key a < key b) :
    xs.head? = some x ↔ x ∈ xs ∧ ∀ y ∈ xs, key x ≤ key y := by
  cases xs with
  | nil => simp
  | cons z xs =>
      obtain ⟨hfirst, -⟩ := List.pairwise_cons.mp hsorted
      rw [List.head?_cons, Option.some.injEq]
      constructor
      · rintro rfl
        refine ⟨List.mem_cons_self, fun y hy => ?_⟩
        rcases List.mem_cons.mp hy with rfl | hy
        · exact le_rfl
        · exact (hfirst y hy).le
      · rintro ⟨hx, hleast⟩
        rcases List.mem_cons.mp hx with rfl | hx
        · rfl
        · exact absurd (hleast z List.mem_cons_self) (not_le.mpr (hfirst x hx))

end Sorting

/-! ### Grouping -/

section Grouping

variable [DecidableEq κ]

/-- Append each element to the group of its key, a new key opening a new group. -/
def groupOn (key : α → κ) (xs : List α) : List (κ × List α) :=
  (xs.map key).eraseDups.map fun k => (k, xs.filter fun x => key x = k)

variable {key : α → κ} {xs : List α} {g : κ × List α} {x : α}

theorem mem_groupOn : g ∈ groupOn key xs ↔
    (∃ x ∈ xs, key x = g.1) ∧ g.2 = xs.filter fun x => key x = g.1 := by
  constructor
  · intro h
    obtain ⟨k, hk, rfl⟩ := List.mem_map.mp h
    obtain ⟨x, hx, rfl⟩ := List.mem_map.mp (List.mem_eraseDups.mp hk)
    exact ⟨⟨x, hx, rfl⟩, rfl⟩
  · rintro ⟨⟨x, hx, hkey⟩, hmembers⟩
    refine List.mem_map.mpr ⟨g.1, List.mem_eraseDups.mpr ?_, ?_⟩
    · exact List.mem_map.mpr ⟨x, hx, hkey⟩
    · exact Prod.ext rfl hmembers.symm

/-- A member of a group is an element of the list with the key of the group. -/
theorem mem_of_mem_groupOn (hg : g ∈ groupOn key xs) : x ∈ g.2 ↔ x ∈ xs ∧ key x = g.1 := by
  rw [(mem_groupOn.mp hg).2, List.mem_filter, decide_eq_true_eq]

theorem exists_group (hx : x ∈ xs) : ∃ g ∈ groupOn key xs, g.1 = key x ∧ x ∈ g.2 := by
  refine ⟨(key x, xs.filter fun y => key y = key x), ?_, rfl, ?_⟩
  · exact mem_groupOn.mpr ⟨⟨x, hx, rfl⟩, rfl⟩
  · exact List.mem_filter.mpr ⟨hx, decide_eq_true rfl⟩

/-- No group is empty. -/
theorem groupOn_ne_nil (hg : g ∈ groupOn key xs) : g.2 ≠ [] := by
  obtain ⟨x, hx, hkey⟩ := (mem_groupOn.mp hg).1
  exact List.ne_nil_of_mem ((mem_of_mem_groupOn hg).mpr ⟨hx, hkey⟩)

theorem nodup_eraseDups (ks : List κ) : ks.eraseDups.Nodup := by
  have hbound : ∀ n (ks : List κ), ks.length ≤ n → ks.eraseDups.Nodup := by
    intro n
    induction n with
    | zero =>
        intro ks hn
        rw [List.length_eq_zero_iff.mp (Nat.le_zero.mp hn)]
        exact .nil
    | succ n ih =>
        intro ks hn
        cases ks with
        | nil => exact .nil
        | cons k ks =>
            rw [List.eraseDups_cons, List.nodup_cons]
            constructor
            · intro hmem
              have h := (List.mem_filter.mp (List.mem_eraseDups.mp hmem)).2
              simp at h
            · apply ih _
              have hlen := List.length_filter_le (fun b => !b == k) ks
              simp only [List.length_cons] at hn
              omega
  exact hbound _ _ le_rfl

/-- Each key has one group. -/
theorem nodup_groupOn_keys (key : α → κ) (xs : List α) : ((groupOn key xs).map Prod.fst).Nodup := by
  have hkeys : (groupOn key xs).map Prod.fst = (xs.map key).eraseDups := by
    rw [groupOn, List.map_map]
    exact List.map_id' _
  rw [hkeys]
  exact nodup_eraseDups _

theorem eraseDups_map {κ' : Type*} [DecidableEq κ'] {e : κ → κ'} (he : Function.Injective e)
    (ks : List κ) : (ks.map e).eraseDups = ks.eraseDups.map e := by
  have hbound : ∀ n (ks : List κ), ks.length ≤ n → (ks.map e).eraseDups = ks.eraseDups.map e := by
    intro n
    induction n with
    | zero =>
        intro ks hn
        rw [List.length_eq_zero_iff.mp (Nat.le_zero.mp hn)]
        rfl
    | succ n ih =>
        intro ks hn
        cases ks with
        | nil => rfl
        | cons k ks =>
            have hfilter : (ks.map e).filter (fun b => !b == e k) =
                (ks.filter fun b => !b == k).map e := by
              rw [List.filter_map]
              refine congrArg _ (List.filter_congr fun b _ => ?_)
              rw [Function.comp_apply, beq_eq_decide, beq_eq_decide, decide_eq_decide.mpr he.eq_iff]
            rw [List.map_cons, List.eraseDups_cons, hfilter, ih, List.eraseDups_cons, List.map_cons]
            have hlen := List.length_filter_le (fun b => !b == k) ks
            simp only [List.length_cons] at hn
            omega
  exact hbound _ _ le_rfl

/-- **The groups of the images are the images of the groups**, where the keys stay apart. -/
theorem groupOn_map {β κ' : Type*} [DecidableEq κ'] (key' : β → κ') (f : α → β) {e : κ → κ'}
    (he : Function.Injective e) (hkey : ∀ x, key' (f x) = e (key x)) (xs : List α) :
    groupOn key' (xs.map f) = (groupOn key xs).map fun g => (e g.1, g.2.map f) := by
  have hkeys : (xs.map f).map key' = (xs.map key).map e := by
    rw [List.map_map, List.map_map]
    exact List.map_congr_left fun x _ => hkey x
  rw [groupOn, groupOn, hkeys, eraseDups_map he, List.map_map, List.map_map]
  apply List.map_congr_left
  intro k _
  rw [Function.comp_apply, Function.comp_apply, List.filter_map]
  refine congrArg (fun ys : List α => (e k, ys.map f)) (List.filter_congr fun x _ => ?_)
  rw [Function.comp_apply, hkey, decide_eq_decide, he.eq_iff]

end Grouping

/-! ### Labelled lists -/

section Labelled

variable {β : Type*} {parts : List (κ × List α)} {k : κ} {x : α} {part : List α}

/-- The members of all parts, each with the label of its part. -/
def labelled (parts : List (κ × List α)) : List (κ × α) :=
  parts.flatMap fun e => e.2.map (Prod.mk e.1)

theorem mem_labelled : (k, x) ∈ labelled parts ↔ ∃ part, (k, part) ∈ parts ∧ x ∈ part := by
  simp only [labelled, List.mem_flatMap, List.mem_map, Prod.mk.injEq]
  constructor
  · rintro ⟨e, he, y, hy, rfl, rfl⟩
    exact ⟨e.2, he, hy⟩
  · rintro ⟨part, hpart, hx⟩
    exact ⟨(k, part), hpart, x, hx, rfl, rfl⟩

theorem length_labelled : (labelled parts).length = (parts.map fun e => e.2.length).sum := by
  simp [labelled, List.length_flatMap]

theorem nodup_labelled (hkeys : (parts.map Prod.fst).Nodup) (heach : ∀ e ∈ parts, e.2.Nodup) :
    (labelled parts).Nodup := by
  rw [labelled, List.nodup_flatMap]
  refine ⟨fun e he => (heach e he).map fun _ _ h => congrArg Prod.snd h, ?_⟩
  refine (List.pairwise_map.mp hkeys).imp fun {e e'} hne x hx hx' => ?_
  obtain ⟨y, -, rfl⟩ := List.mem_map.mp hx
  obtain ⟨y', -, heq⟩ := List.mem_map.mp hx'
  exact hne (congrArg Prod.fst heq).symm

/-- One part under each label. -/
theorem filter_labelled [DecidableEq κ] (hkeys : (parts.map Prod.fst).Nodup)
    (hpart : (k, part) ∈ parts) :
    (labelled parts).filter (fun e => e.1 = k) = part.map (Prod.mk k) := by
  induction parts with
  | nil => cases hpart
  | cons e parts ih =>
      rw [List.map_cons, List.nodup_cons] at hkeys
      rw [labelled, List.flatMap_cons, ← labelled, List.filter_append]
      rcases List.mem_cons.mp hpart with rfl | hpart
      · have hothers : (labelled parts).filter (fun e => e.1 = k) = [] := by
          rw [List.filter_eq_nil_iff]
          rintro ⟨k', y⟩ hy hk
          obtain rfl : k = k' := (of_decide_eq_true hk).symm
          obtain ⟨part', hpart', -⟩ := mem_labelled.mp hy
          exact hkeys.1 (List.mem_map.mpr ⟨_, hpart', rfl⟩)
        have hself : (part.map (Prod.mk k)).filter (fun e => e.1 = k) = part.map (Prod.mk k) := by
          rw [List.filter_eq_self]
          intro e he
          obtain ⟨y, -, rfl⟩ := List.mem_map.mp he
          exact decide_eq_true rfl
        rw [hothers, hself, List.append_nil]
      · have hne : e.1 ≠ k := fun h => hkeys.1 (h ▸ List.mem_map_of_mem hpart)
        have hnone : (e.2.map (Prod.mk e.1)).filter (fun e => e.1 = k) = [] := by
          rw [List.filter_eq_nil_iff]
          intro e' he'
          obtain ⟨y, -, rfl⟩ := List.mem_map.mp he'
          simpa using hne
        rw [hnone, ih hkeys.2 hpart, List.nil_append]

end Labelled

/-! ### Distinct keys -/

section Distinct

variable {β : Type*} [DecidableEq β] {f : α → β} {xs : List α} {x : α}

/-- Where keys are distinct, an element stands where its key first does. -/
theorem getElem?_findIdx (hnodup : (xs.map f).Nodup) (hx : x ∈ xs) :
    xs[xs.findIdx fun y => f y = f x]? = some x := by
  have hexists : ∃ y ∈ xs, decide (f y = f x) = true := ⟨x, hx, decide_eq_true rfl⟩
  have hlt := List.findIdx_lt_length_of_exists hexists
  have hkey := of_decide_eq_true (List.findIdx_getElem (w := hlt))
  rw [List.getElem?_eq_getElem hlt, Option.some.injEq]
  exact List.inj_on_of_nodup_map hnodup (List.getElem_mem hlt) hx hkey

end Distinct

end Yeodam.Lib
