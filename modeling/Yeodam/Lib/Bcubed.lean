/-
B-cubed scores of a clustering against the true one.

An item is a pair of its true and its predicted label. `bcubedPrecision` is the mean share of the
items of its predicted group that have the label of an item, `bcubedRecall` is the same with the
sides exchanged, and `harmonicMean` is their mean. `precision_eq_one_iff` and `recall_eq_one_iff`
say when a score is full; neither order nor names of labels matter (`precision_perm`,
`precision_rename`).

Where a prediction is missing, `fresh` puts a label of its own in its place. Another order of the
items is another choice of these labels (`fresh_perm`).
-/

import Mathlib

namespace Yeodam.Lib

/-! ### Means -/

/-- What a mean is, a share in each place. -/
theorem mean_of_shares {xs : List ℚ} (hne : xs ≠ []) (h : ∀ x ∈ xs, 0 < x ∧ x ≤ 1) :
    0 < xs.sum / xs.length ∧ xs.sum / xs.length ≤ 1 ∧
      (xs.sum / xs.length = 1 ↔ ∀ x ∈ xs, x = 1) := by
  have hlength : (0 : ℚ) < xs.length := by exact_mod_cast List.length_pos_of_ne_nil hne
  have hsum : ∀ ys : List ℚ, (∀ y ∈ ys, 0 < y ∧ y ≤ 1) →
      0 ≤ ys.sum ∧ ys.sum ≤ ys.length ∧ (ys.sum = ys.length → ∀ y ∈ ys, y = 1) := by
    intro ys
    induction ys with
    | nil => simp
    | cons y ys ih =>
        intro hys
        obtain ⟨⟨hpos, hle⟩, hrest⟩ := List.forall_mem_cons.mp hys
        obtain ⟨hnonneg, hbound, hfull⟩ := ih hrest
        rw [List.sum_cons, List.length_cons, Nat.cast_succ]
        refine ⟨by linarith, by linarith, fun heq => List.forall_mem_cons.mpr ⟨by linarith, ?_⟩⟩
        exact hfull (by linarith)
  obtain ⟨-, hbound, hfull⟩ := hsum xs h
  have hpos : 0 < xs.sum := List.sum_pos xs (fun x hx => (h x hx).1) hne
  refine ⟨div_pos hpos hlength, (div_le_one hlength).mpr hbound, ?_⟩
  rw [div_eq_one_iff_eq hlength.ne']
  refine ⟨hfull, fun hall => ?_⟩
  rw [List.eq_replicate_of_mem hall, List.sum_replicate, List.length_replicate,
    nsmul_eq_mul, mul_one]

/-- The harmonic mean of precision and recall. -/
def harmonicMean (p r : ℚ) : ℚ := 2 * p * r / (p + r)

theorem harmonicMean_of_shares {p r : ℚ} (hp : 0 < p ∧ p ≤ 1) (hr : 0 < r ∧ r ≤ 1) :
    0 < harmonicMean p r ∧ harmonicMean p r ≤ 1 ∧ (harmonicMean p r = 1 ↔ p = 1 ∧ r = 1) := by
  have hsum : 0 < p + r := add_pos hp.1 hr.1
  have hpr : p * r ≤ p := mul_le_of_le_one_right hp.1.le hr.2
  have hrp : p * r ≤ r := mul_le_of_le_one_left hr.1.le hp.2
  unfold harmonicMean
  refine ⟨div_pos (by have := mul_pos hp.1 hr.1; linarith) hsum, ?_, ?_⟩
  · rw [div_le_one hsum]
    linarith
  · rw [div_eq_one_iff_eq hsum.ne']
    constructor
    · intro heq
      have hpeq : p * r = p := by linarith
      have hreq : p * r = r := by linarith
      exact ⟨by rwa [mul_eq_right₀ hr.1.ne'] at hreq, by rwa [mul_eq_left₀ hp.1.ne'] at hpeq⟩
    · rintro ⟨rfl, rfl⟩
      norm_num

/-! ### Missing predictions -/

/-- A label, or one of the item's own. -/
inductive Label (β : Type*) where
  | named (b : β)
  | own (i : Nat)
deriving DecidableEq

def Label.map {β δ : Type*} (f : β → δ) (σ : Nat → Nat) : Label β → Label δ
  | .named b => .named (f b)
  | .own i => .own (σ i)

theorem Label.map_injective {β δ : Type*} {f : β → δ} {σ : Nat → Nat} (hf : Function.Injective f)
    (hσ : Function.Injective σ) : Function.Injective (Label.map f σ) := by
  intro x y h
  cases x with
  | named b =>
      cases y with
      | named b' => rw [hf (Label.named.inj h)]
      | own j => cases h
  | own i =>
      cases y with
      | named b' => cases h
      | own j => rw [hσ (Label.own.inj h)]

variable {α β γ δ : Type*}

/-- The items with a label of their own where the prediction is missing, counted from `n`. -/
def fresh : Nat → List (α × Option β) → List (α × Label β)
  | _, [] => []
  | n, x :: xs => (x.1, x.2.elim (.own n) .named) :: fresh (n + 1) xs

variable {items items' : List (α × Option β)} {n : Nat}

theorem length_fresh (n : Nat) (items : List (α × Option β)) :
    (fresh n items).length = items.length := by
  induction items generalizing n with
  | nil => rfl
  | cons x xs ih => rw [fresh, List.length_cons, ih, List.length_cons]

theorem fresh_rename (g : α → γ) (f : β → δ) (n : Nat) (items : List (α × Option β)) :
    fresh n (items.map (Prod.map g (Option.map f))) =
      (fresh n items).map (Prod.map g (Label.map f id)) := by
  induction items generalizing n with
  | nil => rfl
  | cons x xs ih =>
      obtain ⟨a, b⟩ := x
      rw [List.map_cons, fresh, fresh, List.map_cons, ih]
      cases b <;> rfl

/-- **Another order is another choice of fresh labels.** The renaming keeps the numbers below. -/
theorem fresh_perm (h : items.Perm items') (n : Nat) :
    ∃ σ : Nat → Nat, Function.Injective σ ∧ (∀ i < n, σ i = i) ∧
      (fresh n items').Perm ((fresh n items).map (Prod.map id (Label.map id σ))) := by
  induction h generalizing n with
  | nil => exact ⟨id, Function.injective_id, fun _ _ => rfl, .nil⟩
  | @cons x xs ys _ ih =>
      obtain ⟨σ, hσ, hfix, hperm⟩ := ih (n + 1)
      refine ⟨σ, hσ, fun i hi => hfix i (by omega), ?_⟩
      rw [fresh, fresh, List.map_cons]
      refine (List.Perm.cons _ hperm).trans (List.Perm.of_eq (congrArg (· :: _) ?_))
      obtain ⟨a, b⟩ := x
      cases b with
      | none => simp [Label.map, hfix n (by omega)]
      | some b => rfl
  | swap x y xs =>
      -- The two first numbers are exchanged.
      refine ⟨Equiv.swap n (n + 1), (Equiv.swap n (n + 1)).injective,
        fun i hi => Equiv.swap_apply_of_ne_of_ne (by omega) (by omega), ?_⟩
      have hrest : ∀ (m : Nat) (zs : List (α × Option β)), n + 1 < m →
          (fresh m zs).map (Prod.map id (Label.map id (Equiv.swap n (n + 1)))) = fresh m zs := by
        intro m zs
        induction zs generalizing m with
        | nil => exact fun _ => rfl
        | cons z zs ih =>
            intro hm
            obtain ⟨a, b⟩ := z
            rw [fresh, List.map_cons, ih (m + 1) (by omega)]
            cases b with
            | none =>
                simp [Label.map,
                  Equiv.swap_apply_of_ne_of_ne (by omega : m ≠ n) (by omega : m ≠ n + 1)]
            | some b => rfl
      obtain ⟨a, b⟩ := x
      obtain ⟨a', b'⟩ := y
      simp only [fresh, List.map_cons, hrest (n + 1 + 1) xs (by omega)]
      refine (List.Perm.swap _ _ _).trans (List.Perm.of_eq ?_)
      cases b <;> cases b' <;> simp [Label.map]
  | trans _ _ ih ih' =>
      obtain ⟨σ, hσ, hfix, hperm⟩ := ih n
      obtain ⟨σ', hσ', hfix', hperm'⟩ := ih' n
      refine ⟨σ' ∘ σ, hσ'.comp hσ, fun i hi => ?_, hperm'.trans ((hperm.map _).trans (.of_eq ?_))⟩
      · rw [Function.comp_apply, hfix i hi, hfix' i hi]
      · rw [List.map_map]
        apply List.map_congr_left
        intro p _
        obtain ⟨a, b⟩ := p
        cases b <;> rfl

/-- Two items have one prediction; a missing one is that of its item only. -/
def SamePrediction (x y : α × Option β) : Prop := x.2 = y.2 ∧ x.2 ≠ none

/-- Of any two items, what their labels say. -/
theorem forall_fresh_iff {Q : (α × Label β) → (α × Label β) → Prop}
    {P : α × Option β → α × Option β → Prop} (hrefl : ∀ x, Q x x) (hsymm : ∀ x y, Q x y → Q y x)
    (hsome : ∀ a a' b b', Q (a, .named b) (a', .named b') ↔ P (a, some b) (a', some b'))
    (hleft : ∀ a a' i b', Q (a, .own i) (a', .named b') ↔ P (a, none) (a', some b'))
    (hright : ∀ a a' b i, Q (a, .named b) (a', .own i) ↔ P (a, some b) (a', none))
    (hnone : ∀ a a' i j, i ≠ j → (Q (a, .own i) (a', .own j) ↔ P (a, none) (a', none)))
    (n : Nat) (items : List (α × Option β)) :
    (∀ x ∈ fresh n items, ∀ y ∈ fresh n items, Q x y) ↔ items.Pairwise P := by
  have hpairwise : (∀ x ∈ fresh n items, ∀ y ∈ fresh n items, Q x y) ↔ (fresh n items).Pairwise Q :=
    ⟨fun h => List.pairwise_of_forall_mem_list h, fun h x hx y hy => by
      have hsymm : Std.Symm Q := ⟨hsymm⟩
      exact h.forall_of_forall (fun x _ => hrefl x) hx hy⟩
  rw [hpairwise]
  -- The labels of the later items have greater numbers.
  have hhead : ∀ (zs : List (α × Option β)) (x : α × Option β) (k m : Nat), k < m →
      ((∀ y ∈ fresh m zs, Q (x.1, x.2.elim (.own k) .named) y) ↔ ∀ z ∈ zs, P x z) := by
    intro zs x k
    induction zs with
    | nil => simp [fresh]
    | cons z zs ih =>
        intro m hkm
        rw [fresh, List.forall_mem_cons, List.forall_mem_cons, ih (m + 1) (by omega)]
        apply and_congr_left
        intro _
        obtain ⟨a, b⟩ := x
        obtain ⟨a', b'⟩ := z
        cases b with
        | none =>
            cases b' with
            | none => exact hnone a a' k m (by omega)
            | some b' => exact hleft a a' k b'
        | some b =>
            cases b' with
            | none => exact hright a a' b m
            | some b' => exact hsome a a' b b'
  clear hpairwise
  induction items generalizing n with
  | nil => simp [fresh]
  | cons x xs ih =>
      rw [fresh, List.pairwise_cons, List.pairwise_cons]
      exact and_congr (hhead xs x n (n + 1) (by omega)) (ih (n + 1))

/-! ### Precision and recall -/

variable [DecidableEq α] [DecidableEq β] [DecidableEq γ] [DecidableEq δ]

/-- The share of an item in its predicted group. -/
def share (pairs : List (α × β)) (x : α × β) : ℚ :=
  (pairs.count x : ℚ) / (pairs.countP fun y => y.2 = x.2)

def bcubedPrecision (pairs : List (α × β)) : ℚ := (pairs.map (share pairs)).sum / pairs.length

def bcubedRecall (pairs : List (α × β)) : ℚ := bcubedPrecision (pairs.map Prod.swap)

variable {pairs pairs' : List (α × β)} {x : α × β}

theorem share_spec (hx : x ∈ pairs) :
    (0 < share pairs x ∧ share pairs x ≤ 1) ∧
      (share pairs x = 1 ↔ ∀ y ∈ pairs, y.2 = x.2 → y.1 = x.1) := by
  have hcount : 0 < pairs.count x := List.count_pos_iff.mpr hx
  have hle : pairs.count x ≤ pairs.countP fun y => y.2 = x.2 := by
    rw [List.count]
    refine List.countP_mono_left fun y _ hy => decide_eq_true ?_
    rw [eq_of_beq hy]
  have hgroup : (0 : ℚ) < pairs.countP fun y => y.2 = x.2 := by exact_mod_cast hcount.trans_le hle
  unfold share
  refine ⟨⟨div_pos (by exact_mod_cast hcount) hgroup, ?_⟩, ?_⟩
  · rw [div_le_one hgroup]
    exact_mod_cast hle
  rw [div_eq_one_iff_eq hgroup.ne', Nat.cast_inj]
  constructor
  · intro heq y hy hsame
    by_contra hne
    -- Another item of the group is not counted on the left.
    have hlt : pairs.countP (fun y => y == x) < pairs.countP fun y => y.2 = x.2 := by
      have hsplit :=
        List.countP_eq_countP_filter_add pairs (fun y => decide (y.2 = x.2)) (fun y => y == x)
      have hfirst : (pairs.filter fun y => y == x).countP (fun y => decide (y.2 = x.2)) =
          pairs.countP fun y => y == x := by
        rw [List.countP_filter]
        apply List.countP_congr
        intro z _
        rw [Bool.and_eq_true, decide_eq_true_eq]
        exact ⟨fun h => h.2, fun h => ⟨by rw [eq_of_beq h], h⟩⟩
      have hsecond : 0 < (pairs.filter fun y => !(y == x)).countP
          (fun y => decide (y.2 = x.2)) := by
        rw [List.countP_pos_iff]
        refine ⟨y, List.mem_filter.mpr ⟨hy, ?_⟩, decide_eq_true hsame⟩
        rw [Bool.not_eq_true', beq_eq_false_iff_ne]
        exact fun h => hne (congrArg Prod.fst h)
      omega
    exact hlt.ne heq
  · intro hall
    rw [List.count]
    apply List.countP_congr
    intro y hy
    rw [decide_eq_true_eq, beq_iff_eq]
    exact ⟨fun h => by rw [h], fun h => Prod.ext (hall y hy h) h⟩

/-- The share of an item in its true group. -/
theorem share_swap (pairs : List (α × β)) (x : α × β) :
    share (pairs.map Prod.swap) x.swap =
      (pairs.count x : ℚ) / (pairs.countP fun y => y.1 = x.1) := by
  rw [share, List.count_map_of_injective _ _ Prod.swap_injective, List.countP_map]
  rfl

theorem precision_spec (hne : pairs ≠ []) :
    (0 < bcubedPrecision pairs ∧ bcubedPrecision pairs ≤ 1) ∧
      (bcubedPrecision pairs = 1 ↔ ∀ x ∈ pairs, ∀ y ∈ pairs, y.2 = x.2 → y.1 = x.1) := by
  obtain ⟨hpos, hle, hfull⟩ := @mean_of_shares (pairs.map (share pairs))
    (by simpa using hne) fun s hs => by
      obtain ⟨x, hx, rfl⟩ := List.mem_map.mp hs
      exact (share_spec hx).1
  rw [List.length_map] at hpos hle hfull
  refine ⟨⟨hpos, hle⟩, hfull.trans ?_⟩
  rw [List.forall_mem_map]
  exact forall₂_congr fun x hx => (share_spec hx).2

theorem recall_spec (hne : pairs ≠ []) :
    (0 < bcubedRecall pairs ∧ bcubedRecall pairs ≤ 1) ∧
      (bcubedRecall pairs = 1 ↔ ∀ x ∈ pairs, ∀ y ∈ pairs, y.1 = x.1 → y.2 = x.2) := by
  obtain ⟨hbounds, hfull⟩ := @precision_spec _ _ _ _ (pairs.map Prod.swap)
    (by simpa using hne)
  refine ⟨hbounds, hfull.trans ?_⟩
  rw [List.forall_mem_map]
  apply forall₂_congr
  intro x _
  rw [List.forall_mem_map]
  rfl

/-- **The order of the items does not matter.** -/
theorem precision_perm (h : pairs.Perm pairs') :
    bcubedPrecision pairs = bcubedPrecision pairs' := by
  have hshare : share pairs = share pairs' := by
    funext x
    rw [share, share, h.count_eq, h.countP_eq]
  rw [bcubedPrecision, bcubedPrecision, hshare, (h.map _).sum_eq, h.length_eq]

theorem recall_perm (h : pairs.Perm pairs') : bcubedRecall pairs = bcubedRecall pairs' :=
  precision_perm (h.map _)

/-- **The names of the labels do not matter.** -/
theorem precision_rename {g : α → γ} {f : β → δ} (hg : Function.Injective g)
    (hf : Function.Injective f) (pairs : List (α × β)) :
    bcubedPrecision (pairs.map (Prod.map g f)) = bcubedPrecision pairs := by
  have hshare : ∀ x, share (pairs.map (Prod.map g f)) (Prod.map g f x) = share pairs x := by
    intro x
    rw [share, share, List.count_map_of_injective _ _ (hg.prodMap hf), List.countP_map]
    refine congrArg (fun n : Nat => (pairs.count x : ℚ) / n) (List.countP_congr fun y _ => ?_)
    rw [Function.comp_apply, decide_eq_true_eq, decide_eq_true_eq]
    exact hf.eq_iff
  rw [bcubedPrecision, bcubedPrecision, List.map_map, List.length_map]
  exact congrArg (fun ss : List ℚ => ss.sum / pairs.length)
    (List.map_congr_left fun x _ => hshare x)

theorem recall_rename {g : α → γ} {f : β → δ} (hg : Function.Injective g)
    (hf : Function.Injective f) (pairs : List (α × β)) :
    bcubedRecall (pairs.map (Prod.map g f)) = bcubedRecall pairs := by
  rw [bcubedRecall, bcubedRecall, ← precision_rename hf hg, List.map_map, List.map_map]
  rfl

/-! ### Scores with missing predictions -/

/-- **Precision is full** where one prediction means one true label. -/
theorem precision_fresh_eq_one_iff (hne : items ≠ []) :
    bcubedPrecision (fresh n items) = 1 ↔
      items.Pairwise fun x y => SamePrediction x y → x.1 = y.1 := by
  have hfresh : fresh n items ≠ [] := by
    rw [ne_eq, ← List.length_eq_zero_iff, length_fresh, List.length_eq_zero_iff]
    exact hne
  rw [(precision_spec hfresh).2]
  refine forall_fresh_iff (Q := fun x y => y.2 = x.2 → y.1 = x.1) (fun x _ => rfl)
    (fun x y h heq => (h heq.symm).symm) ?_ ?_ ?_ ?_ n items
  · intro a a' b b'
    simp [SamePrediction, eq_comm]
  · intro a a' i b'
    simp [SamePrediction]
  · intro a a' b i
    simp [SamePrediction]
  · intro a a' i j hij
    simp [SamePrediction, hij.symm]

/-- **Recall is full** where one true label means one prediction. -/
theorem recall_fresh_eq_one_iff (hne : items ≠ []) :
    bcubedRecall (fresh n items) = 1 ↔
      items.Pairwise fun x y => x.1 = y.1 → SamePrediction x y := by
  have hfresh : fresh n items ≠ [] := by
    rw [ne_eq, ← List.length_eq_zero_iff, length_fresh, List.length_eq_zero_iff]
    exact hne
  rw [(recall_spec hfresh).2]
  refine forall_fresh_iff (Q := fun x y => y.1 = x.1 → y.2 = x.2) (fun x _ => rfl)
    (fun x y h heq => (h heq.symm).symm) ?_ ?_ ?_ ?_ n items
  · intro a a' b b'
    simp [SamePrediction, eq_comm]
  · intro a a' i b'
    simp [SamePrediction, eq_comm]
  · intro a a' b i
    simp [SamePrediction, eq_comm]
  · intro a a' i j hij
    have hlabels : (Label.own j : Label β) ≠ .own i := fun h => hij (Label.own.inj h).symm
    simp only [SamePrediction, hlabels, ne_eq, not_true_eq_false, and_false]
    exact imp_congr_left eq_comm

/-- **Neither the order of the items nor the names of their labels matter.** -/
theorem scores_fresh_congr {g : α → γ} {f : β → δ} {items' : List (γ × Option δ)}
    (hg : Function.Injective g) (hf : Function.Injective f)
    (h : items'.Perm (items.map (Prod.map g (Option.map f)))) :
    bcubedPrecision (fresh n items') = bcubedPrecision (fresh n items) ∧
      bcubedRecall (fresh n items') = bcubedRecall (fresh n items) := by
  obtain ⟨σ, hσ, -, hperm⟩ := fresh_perm h.symm n
  have hid : Function.Injective (Label.map (id : δ → δ) σ) :=
    Label.map_injective Function.injective_id hσ
  have hfid : Function.Injective (Label.map f (id : Nat → Nat)) :=
    Label.map_injective hf Function.injective_id
  constructor
  · rw [precision_perm hperm, precision_rename Function.injective_id hid, fresh_rename,
      precision_rename hg hfid]
  · rw [recall_perm hperm, recall_rename Function.injective_id hid, fresh_rename,
      recall_rename hg hfid]

end Yeodam.Lib
