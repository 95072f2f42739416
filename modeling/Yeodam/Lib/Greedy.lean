/-
Keeping, in order, what is not near anything kept before.

`greedy skip near retained xs` walks over `xs`: an element that `skip` rejects is skipped, one
that is near something retained is `like` the first such thing, and any other is kept and
retained. Nearness need not be transitive, so what is kept depends on the order.

What is skipped is read off by `skip_iff`; a list with an element that is not skipped keeps one
(`exists_kept`).
-/

import Mathlib.Data.List.Forall2
import Mathlib.Data.List.Nodup
import Mathlib.Order.Lattice

namespace Yeodam.Lib

universe u

variable {α : Type u}

inductive Verdict (α : Type u) where
  | skipped
  | kept
  | like (original : α)

section Greedy

variable (skip : α → Bool) (near : α → α → Bool)

def greedy : List α → List α → List (α × Verdict α)
  | _, [] => []
  | retained, x :: xs =>
      if skip x then (x, .skipped) :: greedy retained xs
      else
        match retained.find? fun original => near original x with
        | some original => (x, .like original) :: greedy retained xs
        | none => (x, .kept) :: greedy (retained ++ [x]) xs

variable {skip near} {retained xs : List α} {x original : α} {v w : Verdict α}

variable (skip near retained) in
/-- What one element meets. -/
theorem greedy_cons (x : α) (xs : List α) :
    (skip x = true ∧ greedy skip near retained (x :: xs) =
        (x, .skipped) :: greedy skip near retained xs) ∨
      (skip x = false ∧ ∃ original ∈ retained, near original x = true ∧
        greedy skip near retained (x :: xs) =
          (x, .like original) :: greedy skip near retained xs) ∨
      (skip x = false ∧ greedy skip near retained (x :: xs) =
        (x, .kept) :: greedy skip near (retained ++ [x]) xs) := by
  cases hskip : skip x with
  | true => exact .inl ⟨rfl, by rw [greedy, if_pos hskip]⟩
  | false =>
      refine .inr ?_
      have hne : ¬skip x = true := by rw [hskip]; exact Bool.false_ne_true
      cases hfind : retained.find? fun original => near original x with
      | some original =>
          refine .inl ⟨rfl, original, List.mem_of_find?_eq_some hfind, ?_, ?_⟩
          · simpa using List.find?_some hfind
          · rw [greedy, if_neg hne, hfind]
      | none =>
          refine .inr ⟨rfl, ?_⟩
          rw [greedy, if_neg hne, hfind]

/-- Every element gets a verdict, in the order of the list. -/
theorem map_fst_greedy (skip : α → Bool) (near : α → α → Bool) (retained xs : List α) :
    (greedy skip near retained xs).map Prod.fst = xs := by
  induction xs generalizing retained with
  | nil => rfl
  | cons x xs ih =>
      rcases greedy_cons skip near retained x xs with
        ⟨-, heq⟩ | ⟨-, _, -, -, heq⟩ | ⟨-, heq⟩ <;> rw [heq, List.map_cons, ih]

theorem mem_of_mem_greedy (h : (x, v) ∈ greedy skip near retained xs) : x ∈ xs := by
  have hmem := List.mem_map_of_mem (f := Prod.fst) h
  rwa [map_fst_greedy] at hmem

variable (skip near retained) in
theorem exists_verdict (h : x ∈ xs) : ∃ v, (x, v) ∈ greedy skip near retained xs := by
  rw [← map_fst_greedy skip near retained xs] at h
  obtain ⟨⟨y, v⟩, hmem, rfl⟩ := List.mem_map.mp h
  exact ⟨v, hmem⟩

/-- Distinct elements have one verdict each. -/
theorem verdict_unique (hnodup : xs.Nodup) (h : (x, v) ∈ greedy skip near retained xs)
    (h' : (x, w) ∈ greedy skip near retained xs) : v = w := by
  rw [← map_fst_greedy skip near retained xs] at hnodup
  exact congrArg Prod.snd (List.inj_on_of_nodup_map hnodup h h' rfl)

/-- The skipped elements are those that `skip` rejects. -/
theorem skip_iff (h : (x, v) ∈ greedy skip near retained xs) : skip x = true ↔ v = .skipped := by
  induction xs generalizing retained with
  | nil => cases h
  | cons y xs ih =>
      rcases greedy_cons skip near retained y xs with
        ⟨hskip, heq⟩ | ⟨hskip, _, -, -, heq⟩ | ⟨hskip, heq⟩ <;>
      · rw [heq] at h
        rcases List.mem_cons.mp h with hhead | h
        · cases hhead
          simp [hskip]
        · exact ih h

/-- The first element that is not skipped is kept. -/
theorem exists_kept (near : α → α → Bool) (hx : x ∈ xs) (h : skip x = false) :
    ∃ y, (y, .kept) ∈ greedy skip near [] xs := by
  induction xs with
  | nil => cases hx
  | cons y xs ih =>
      rcases greedy_cons skip near [] y xs with
        ⟨hskip, heq⟩ | ⟨-, _, hnone, -, -⟩ | ⟨-, heq⟩
      · rw [heq]
        rcases List.mem_cons.mp hx with rfl | hx
        · rw [h] at hskip
          cases hskip
        · obtain ⟨z, hz⟩ := ih hx
          exact ⟨z, List.mem_cons_of_mem _ hz⟩
      · cases hnone
      · rw [heq]
        exact ⟨y, List.mem_cons_self⟩

/-! ### What is kept -/

/-- The elements kept, in order. -/
def keptOf (verdicts : List (α × Verdict α)) : List α :=
  verdicts.filterMap fun v =>
    match v.2 with
    | .kept => some v.1
    | _ => none

theorem mem_keptOf {verdicts : List (α × Verdict α)} :
    x ∈ keptOf verdicts ↔ (x, .kept) ∈ verdicts := by
  rw [keptOf, List.mem_filterMap]
  constructor
  · rintro ⟨⟨y, v⟩, hmem, h⟩
    cases v <;> cases h
    exact hmem
  · intro hmem
    exact ⟨(x, .kept), hmem, rfl⟩

theorem keptOf_sublist (verdicts : List (α × Verdict α)) :
    (keptOf verdicts).Sublist (verdicts.map Prod.fst) := by
  induction verdicts with
  | nil => exact .slnil
  | cons v verdicts ih =>
      obtain ⟨x, v⟩ := v
      cases v with
      | kept => exact ih.cons_cons x
      | skipped => exact ih.cons x
      | like original => exact ih.cons x

/-- What is kept, selected from the images of all elements. -/
theorem filter_map_verdicts {β : Type*} {verdicts : List (α × Verdict α)} {f : α × Verdict α → β}
    {p : β → Bool} (h : ∀ v ∈ verdicts, p (f v) = true ↔ v.2 = .kept) :
    (verdicts.map f).filter p = (keptOf verdicts).map fun x => f (x, .kept) := by
  induction verdicts with
  | nil => rfl
  | cons v verdicts ih =>
      obtain ⟨hv, hrest⟩ := List.forall_mem_cons.mp h
      rw [List.map_cons, List.filter_cons, ih hrest]
      obtain ⟨x, w⟩ := v
      cases w with
      | kept => rw [if_pos (hv.mpr rfl)]; rfl
      | skipped => rw [if_neg fun hp => absurd (hv.mp hp) nofun]; rfl
      | like y => rw [if_neg fun hp => absurd (hv.mp hp) nofun]; rfl

variable (skip near) in
/-- The verdict of an element after what is retained. -/
def verdictOf (retained : List α) (x : α) : Verdict α :=
  if skip x then .skipped
  else
    match retained.find? fun original => near original x with
    | some original => .like original
    | none => .kept

variable (skip near retained) in
theorem greedy_cons_eq (x : α) (xs : List α) :
    greedy skip near retained (x :: xs) = (x, verdictOf skip near retained x) ::
      greedy skip near (retained ++ keptOf [(x, verdictOf skip near retained x)]) xs := by
  unfold verdictOf
  cases hskip : skip x with
  | true =>
      rw [greedy, if_pos hskip, if_pos rfl]
      simp [keptOf]
  | false =>
      have hne : ¬skip x = true := by rw [hskip]; exact Bool.false_ne_true
      rw [if_neg Bool.false_ne_true, greedy, if_neg hne]
      cases retained.find? fun original => near original x with
      | some original => simp [keptOf]
      | none => rfl

theorem keptOf_cons (v : α × Verdict α) (verdicts : List (α × Verdict α)) :
    keptOf (v :: verdicts) = keptOf [v] ++ keptOf verdicts := by
  rw [keptOf, keptOf, keptOf, ← List.filterMap_append]
  rfl

theorem keptOf_append (vs ws : List (α × Verdict α)) : keptOf (vs ++ ws) = keptOf vs ++ keptOf ws :=
  List.filterMap_append

variable (skip near retained) in
/-- A list may be judged in pieces. -/
theorem greedy_append (xs ys : List α) :
    greedy skip near retained (xs ++ ys) = greedy skip near retained xs ++
      greedy skip near (retained ++ keptOf (greedy skip near retained xs)) ys := by
  induction xs generalizing retained with
  | nil =>
      rw [List.nil_append, greedy, List.nil_append, keptOf, List.filterMap_nil, List.append_nil]
  | cons x xs ih =>
      rw [List.cons_append, greedy_cons_eq, greedy_cons_eq, ih, List.cons_append,
        keptOf_cons _ (greedy skip near _ xs), List.append_assoc]

/-- The verdict of an element depends on what was kept before it. -/
theorem greedy_split (h : (x, v) ∈ greedy skip near retained xs) : ∃ before after,
    xs = before ++ x :: after ∧
      v = verdictOf skip near (retained ++ keptOf (greedy skip near retained before)) x ∧
      greedy skip near retained before ⊆ greedy skip near retained xs := by
  induction xs generalizing retained with
  | nil => cases h
  | cons y xs ih =>
      rw [greedy_cons_eq] at h
      rcases List.mem_cons.mp h with hhead | hrest
      · cases hhead
        refine ⟨[], xs, rfl, ?_, List.nil_subset _⟩
        rw [greedy, keptOf, List.filterMap_nil, List.append_nil]
      · obtain ⟨before, after, rfl, hv, hsub⟩ := ih hrest
        refine ⟨y :: before, after, rfl, ?_, ?_⟩
        · rw [greedy_cons_eq, keptOf_cons, ← List.append_assoc]
          exact hv
        · rw [greedy_cons_eq, greedy_cons_eq]
          exact List.cons_subset_cons _ hsub

/-- **What a verdict says**, of elements in the order of a key without ties. -/
structure Verdict.Spec {κ : Type*} [LinearOrder κ] (key : α → κ) (skip : α → Bool)
    (near : α → α → Bool) (isKept : α → Prop) (x : α) (v : Verdict α) : Prop where
  skipped : v = .skipped ↔ skip x = true
  kept : v = .kept ↔ skip x = false ∧ ∀ k, isKept k → key k < key x → near k x = false
  /-- The original is the first of those kept before that are near. -/
  like : ∀ original, v = .like original → isKept original ∧ key original < key x ∧
    near original x = true ∧ ∀ k, isKept k → key k < key x → near k x = true → key original ≤ key k

theorem greedy_spec {κ : Type*} [LinearOrder κ] {key : α → κ}
    (hsorted : xs.Pairwise fun a b => key a < key b) (h : (x, v) ∈ greedy skip near [] xs) :
    v.Spec key skip near (fun k => (k, .kept) ∈ greedy skip near [] xs) x := by
  have hnodup : xs.Nodup := hsorted.imp fun hlt heq => absurd (heq ▸ hlt) (lt_irrefl _)
  obtain ⟨before, after, hxs, hv, hsub⟩ := greedy_split h
  rw [List.nil_append] at hv
  have hparts := hsorted
  rw [hxs] at hparts
  obtain ⟨hbefore, hafter, hlt⟩ := List.pairwise_append.mp hparts
  -- What is kept before `x` in the order is kept among the elements before it.
  have hmem : ∀ k, k ∈ keptOf (greedy skip near [] before) ↔
      (k, .kept) ∈ greedy skip near [] xs ∧ key k < key x := by
    intro k
    rw [mem_keptOf]
    constructor
    · intro hk
      exact ⟨hsub hk, hlt k (mem_of_mem_greedy hk) x List.mem_cons_self⟩
    · rintro ⟨hk, hkx⟩
      have hkmem := mem_of_mem_greedy hk
      rw [hxs] at hkmem
      have hfirst : k ∈ before := by
        rcases List.mem_append.mp hkmem with hkmem | hkmem
        · exact hkmem
        · rcases List.mem_cons.mp hkmem with rfl | hkmem
          · exact absurd hkx (lt_irrefl _)
          · exact absurd hkx (lt_asymm (List.rel_of_pairwise_cons hafter hkmem))
      obtain ⟨w, hw⟩ := exists_verdict skip near [] hfirst
      rwa [verdict_unique hnodup hk (hsub hw)]
  have hkept : (keptOf (greedy skip near [] before)).Pairwise fun a b => key a < key b := by
    rw [keptOf, List.pairwise_filterMap]
    have hpairs : (greedy skip near [] before).Pairwise fun a b => key a.1 < key b.1 := by
      rw [← map_fst_greedy skip near [] before, List.pairwise_map] at hbefore
      exact hbefore
    apply hpairs.imp
    rintro ⟨a, va⟩ ⟨b, vb⟩ hab a' ha' b' hb'
    cases va <;> cases ha'
    cases vb <;> cases hb'
    exact hab
  unfold verdictOf at hv
  cases hskip : skip x with
  | true =>
      rw [if_pos hskip] at hv
      subst hv
      refine ⟨iff_of_true rfl hskip, iff_of_false nofun fun hk => ?_, nofun⟩
      rw [hskip] at hk
      cases hk.1
  | false =>
      have hne : ¬skip x = true := by rw [hskip]; exact Bool.false_ne_true
      rw [if_neg hne] at hv
      cases hfind : (keptOf (greedy skip near [] before)).find? fun original => near original x with
      | none =>
          rw [hfind] at hv
          subst hv
          refine ⟨iff_of_false nofun hne, iff_of_true rfl ⟨hskip, fun k hk hkx => ?_⟩, nofun⟩
          have hfar := List.find?_eq_none.mp hfind k ((hmem k).mpr ⟨hk, hkx⟩)
          exact Bool.eq_false_iff.mpr hfar
      | some original =>
          rw [hfind] at hv
          subst hv
          have hnear : near original x = true := by simpa using List.find?_some hfind
          obtain ⟨hok, hox⟩ := (hmem original).mp (List.mem_of_find?_eq_some hfind)
          refine ⟨iff_of_false nofun hne, iff_of_false nofun fun hk => ?_, fun other hother => ?_⟩
          · rw [hk.2 original hok hox] at hnear
            cases hnear
          · cases hother
            refine ⟨hok, hox, hnear, fun k hk hkx hknear => ?_⟩
            obtain ⟨-, earlier, later, hsplit, hfar⟩ := List.find?_eq_some_iff_append.mp hfind
            have hkmem := (hmem k).mpr ⟨hk, hkx⟩
            rw [hsplit] at hkept hkmem
            rcases List.mem_append.mp hkmem with hkmem | hkmem
            · have hkfar := hfar k hkmem
              rw [hknear] at hkfar
              cases hkfar
            · rcases List.mem_cons.mp hkmem with rfl | hkmem
              · exact le_rfl
              · exact le_of_lt (List.rel_of_pairwise_cons (List.pairwise_append.mp hkept).2.1 hkmem)

end Greedy

/-! ### Related lists -/

section Related

variable {β : Type u} {R : α → β → Prop} {skip : α → Bool} {near : α → α → Bool} {skip' : β → Bool}
  {near' : β → β → Bool} {retained xs : List α} {retained' ys : List β}

/-- Verdicts on related elements. -/
inductive Verdict.Rel (R : α → β → Prop) : Verdict α → Verdict β → Prop where
  | skipped : Verdict.Rel R .skipped .skipped
  | kept : Verdict.Rel R .kept .kept
  | like {a : α} {b : β} (h : R a b) : Verdict.Rel R (.like a) (.like b)

theorem find?_rel {p : α → Bool} {q : β → Bool} (hpq : ∀ a b, R a b → p a = q b)
    (h : List.Forall₂ R xs ys) : (xs.find? p = none ∧ ys.find? q = none) ∨
      ∃ a b, R a b ∧ xs.find? p = some a ∧ ys.find? q = some b := by
  induction h with
  | nil => exact .inl ⟨rfl, rfl⟩
  | @cons a b xs ys hR _ ih =>
      rw [List.find?_cons, List.find?_cons, hpq a b hR]
      cases q b with
      | true => exact .inr ⟨a, b, hR, rfl, rfl⟩
      | false => exact ih

theorem verdictOf_rel (hskip : ∀ a b, R a b → skip a = skip' b)
    (hnear : ∀ a b a' b', R a b → R a' b' → near a a' = near' b b')
    (hretained : List.Forall₂ R retained retained') {x : α} {y : β} (hxy : R x y) :
    Verdict.Rel R (verdictOf skip near retained x) (verdictOf skip' near' retained' y) := by
  unfold verdictOf
  rw [hskip x y hxy]
  cases skip' y with
  | true => exact .skipped
  | false =>
      rcases find?_rel (p := fun original => near original x)
        (q := fun original => near' original y)
        (fun a b hab => hnear a b x y hab hxy) hretained with ⟨hnone, hnone'⟩ | ⟨a, b, hab, ha, hb⟩
      · rw [hnone, hnone']
        exact .kept
      · rw [ha, hb]
        exact .like hab

theorem keptOf_rel {vs : List (α × Verdict α)} {ws : List (β × Verdict β)}
    (h : List.Forall₂ (fun v w => R v.1 w.1 ∧ Verdict.Rel R v.2 w.2) vs ws) :
    List.Forall₂ R (keptOf vs) (keptOf ws) := by
  induction h with
  | nil => exact .nil
  | @cons v w vs ws hvw _ ih =>
      obtain ⟨x, v⟩ := v
      obtain ⟨y, w⟩ := w
      obtain ⟨hxy, hrel⟩ := hvw
      dsimp only at hxy hrel
      cases hrel with
      | skipped => exact ih
      | kept => exact .cons hxy ih
      | like _ => exact ih

/-- **Related lists meet related verdicts.** -/
theorem greedy_rel (hskip : ∀ a b, R a b → skip a = skip' b)
    (hnear : ∀ a b a' b', R a b → R a' b' → near a a' = near' b b')
    (hretained : List.Forall₂ R retained retained') (h : List.Forall₂ R xs ys) :
    List.Forall₂ (fun v w => R v.1 w.1 ∧ Verdict.Rel R v.2 w.2) (greedy skip near retained xs)
      (greedy skip' near' retained' ys) := by
  induction h generalizing retained retained' with
  | nil => exact .nil
  | @cons x y xs ys hxy _ ih =>
      have hv := verdictOf_rel hskip hnear hretained hxy
      rw [greedy_cons_eq, greedy_cons_eq]
      refine .cons ⟨hxy, hv⟩ (ih ?_)
      exact List.rel_append hretained (keptOf_rel (.cons ⟨hxy, hv⟩ .nil))

end Related

/-! ### Up to a number -/

section Pick

variable (near : α → α → Bool) (n : Nat)

/-- Keep what is not near anything kept before, and stop at `n`. -/
def pick : List α → List α → List α
  | chosen, [] => chosen
  | chosen, x :: xs =>
      if chosen.length = n then chosen
      else if chosen.any fun original => near original x then pick chosen xs
      else pick (chosen ++ [x]) xs

/-- What is picked under a key: the first `n` kept. -/
structure Picked {κ : Type*} [LinearOrder κ] (key : α → κ) (xs chosen : List α) : Prop where
  sublist : chosen.Sublist xs
  length : chosen.length ≤ n
  nonempty : xs ≠ [] → 0 < n → chosen ≠ []
  apart : ∀ x ∈ chosen, ∀ y ∈ chosen, key y < key x → near y x = false
  /-- What is not picked is near something picked before it, or comes after `n` others. -/
  left : ∀ x ∈ xs, x ∉ chosen → (∃ y ∈ chosen, key y < key x ∧ near y x = true) ∨
    chosen.length = n ∧ ∀ y ∈ chosen, key y < key x

variable {near n} {chosen xs : List α}

theorem pick_eq_take (h : chosen.length ≤ n) :
    pick near n chosen xs = (chosen ++ keptOf (greedy (fun _ => false) near chosen xs)).take n := by
  induction xs generalizing chosen with
  | nil => rw [pick, greedy, keptOf, List.filterMap_nil, List.append_nil, List.take_of_length_le h]
  | cons x xs ih =>
      rw [pick]
      split
      · rename_i hfull
        rw [List.take_append_of_le_length (Nat.le_of_eq hfull.symm), List.take_of_length_le h]
      rename_i hroom
      rw [greedy_cons_eq, verdictOf, if_neg Bool.false_ne_true]
      cases hfind : chosen.find? fun original => near original x with
      | some original =>
          have hany : (chosen.any fun original => near original x) = true :=
            List.any_eq_true.mpr ⟨original, List.mem_of_find?_eq_some hfind,
              (List.find?_some hfind :)⟩
          rw [if_pos hany, ih h]
          simp [keptOf]
      | none =>
          have hany : ¬ (chosen.any fun original => near original x) = true := by
            rw [List.any_eq_true]
            rintro ⟨original, horiginal, hnear⟩
            exact List.find?_eq_none.mp hfind original horiginal hnear
          have hlength : (chosen ++ [x]).length ≤ n := by
            rw [List.length_append, List.length_singleton]
            omega
          rw [if_neg hany, ih hlength, keptOf_cons]
          simp [keptOf]

theorem pick_spec {κ : Type*} [LinearOrder κ] {key : α → κ}
    (hsorted : xs.Pairwise fun a b => key a < key b) :
    Picked near n key xs (pick near n [] xs) := by
  have htake : pick near n [] xs = (keptOf (greedy (fun _ => false) near [] xs)).take n :=
    pick_eq_take (Nat.zero_le n)
  have hsub : (keptOf (greedy (fun _ => false) near [] xs)).Sublist xs := by
    have hkept := keptOf_sublist (greedy (fun _ => false) near [] xs)
    rwa [map_fst_greedy] at hkept
  have hkept : (keptOf (greedy (fun _ => false) near [] xs)).Pairwise fun a b => key a < key b :=
    hsorted.sublist hsub
  have hmem : ∀ {x}, x ∈ keptOf (greedy (fun _ => false) near [] xs) ↔
      (x, .kept) ∈ greedy (fun _ => false) near [] xs := mem_keptOf
  rw [htake]
  generalize keptOf (greedy (fun _ => false) near [] xs) = kept at hsub hkept hmem
  -- What is kept and not picked comes after `n` others.
  have hlate : ∀ {x}, x ∈ kept → x ∉ kept.take n →
      (kept.take n).length = n ∧ ∀ y ∈ kept.take n, key y < key x := by
    intro x hx hno
    have hdrop : x ∈ kept.drop n := by
      rw [← List.take_append_drop n kept, List.mem_append] at hx
      exact hx.resolve_left hno
    rw [← List.take_append_drop n kept, List.pairwise_append] at hkept
    have hlong : n ≤ kept.length := by
      by_contra hshort
      rw [List.drop_of_length_le (by omega)] at hdrop
      cases hdrop
    exact ⟨List.length_take_of_le hlong, fun y hy => hkept.2.2 y hy x hdrop⟩
  constructor
  case sublist => exact (List.take_sublist n kept).trans hsub
  case length => exact List.length_take_le n kept
  case nonempty =>
    intro hne hn hnone
    obtain ⟨x, hx⟩ := List.exists_mem_of_ne_nil xs hne
    have hkeeps : ∃ y, (y, .kept) ∈ greedy (fun _ => false) near [] xs := exists_kept near hx rfl
    obtain ⟨y, hy⟩ := hkeeps
    rw [List.take_eq_nil_iff] at hnone
    rcases hnone with hzero | hnone
    · omega
    · have hy := hmem.mpr hy
      rw [hnone] at hy
      cases hy
  case apart =>
    intro x hx y hy hlt
    have hxkept := hmem.mp (List.mem_of_mem_take hx)
    exact ((greedy_spec hsorted hxkept).kept.mp rfl).2 y (hmem.mp (List.mem_of_mem_take hy)) hlt
  case left =>
    intro x hx hno
    obtain ⟨v, hv⟩ := exists_verdict (fun _ => false) near [] hx
    cases v with
    | skipped => exact absurd ((skip_iff hv).mpr rfl) Bool.false_ne_true
    | kept => exact .inr (hlate (hmem.mpr hv) hno)
    | like original =>
        obtain ⟨horiginal, hlt, hnear, -⟩ := (greedy_spec hsorted hv).like original rfl
        by_cases hpicked : original ∈ kept.take n
        · exact .inl ⟨original, hpicked, hlt, hnear⟩
        · -- The picking stopped before the original already.
          obtain ⟨hfull, hbefore⟩ := hlate (hmem.mpr horiginal) hpicked
          exact .inr ⟨hfull, fun y hy => lt_trans (hbefore y hy) hlt⟩

end Pick

end Yeodam.Lib
