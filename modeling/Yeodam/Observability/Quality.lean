/-
The quality of `process` against a known answer (`evaluate` in `app/observability/quality.py`).

A photo without a predicted place is a group of its own, or left out. `evaluate_sound`: where an
evaluation is made, nothing is divided by zero, the B-cubed scores are shares, full exactly where
one partition is finer than the other, and they depend on the two partitions only.
-/

import Yeodam.Lib.Bcubed
import Yeodam.Lib.Except
import Yeodam.Lib.Json
import Yeodam.Lib.Pointwise
import Yeodam.Schemas.Rendering

namespace Yeodam.Observability

open Yeodam.Lib

/-! ### `evaluate` -/

inductive UnclassifiedPolicy where
  | singleton
  | exclude
deriving DecidableEq

/-- `EvaluationInput` of the feature `process`. -/
structure EvaluationInput where
  items : List Value
  unclassifiedPolicy : Option UnclassifiedPolicy

inductive EvaluateRaised where
  /-- `ValueError(message)` -/
  | value (message : String)
  | key
  | zeroDivision
deriving DecidableEq

structure ProcessScores where
  bcubedPrecision : ℚ
  bcubedRecall : ℚ
  bcubedF1 : ℚ
  ari : ℚ
  coverage : ℚ

/-- What the report says of the photos. -/
structure ProcessReport where
  samples : Nat
  totalSamples : Nat
  unclassifiedPolicy : Option UnclassifiedPolicy
  metrics : ProcessScores

/-- A predicted label: a string, or the marker `("unclassified", i)`. -/
abbrev PredictedLabel := Label PyStr

/-- `a / b` -/
def divide (a b : ℚ) : Except EvaluateRaised ℚ :=
  if b = 0 then .error .zeroDivision else .ok (a / b)

/-- `item[name]` -/
def itemField (name : String) (item : Value) : Except EvaluateRaised Value :=
  match item.get? name with
  | some v => .ok v
  | none => .error .key

def isNone : Value → Bool
  | .null => true
  | _ => false

/-- A string that is not empty. -/
def truthLabel : Value → Except EvaluateRaised PyStr
  | .str s =>
      if s = .text "" then .error (.value "정리 정답 장소는 비어 있지 않은 문자열이어야 합니다.")
      else .ok s
  | _ => .error (.value "정리 정답 장소는 비어 있지 않은 문자열이어야 합니다.")

def predictedLabel : Value × Nat → Except EvaluateRaised PredictedLabel
  | (.null, i) => .ok (.own i)
  | (.str s, _) => .ok (.named s)
  | _ => .error (.value "예측 장소는 문자열 또는 null이어야 합니다.")

/-- B-cubed precision, recall and their harmonic mean. -/
def bcubed (truth : List PyStr) (predicted : List PredictedLabel) :
    Except EvaluateRaised (ℚ × ℚ × ℚ) := do
  let pairs := truth.zip predicted
  let precisions ← pairs.mapM fun (t, p) => divide (pairs.count (t, p)) (predicted.count p)
  let precision ← divide precisions.sum truth.length
  let recalls ← pairs.mapM fun (t, p) => divide (pairs.count (t, p)) (truth.count t)
  let recalled ← divide recalls.sum truth.length
  let f1 ← divide (2 * precision * recalled) (precision + recalled)
  return (precision, recalled, f1)

/-- `evaluate` of the feature `process`. `adjustedRand` is `adjusted_rand_score`, which numbers the
predicted labels. -/
def evaluate (adjustedRand : List PyStr → List PredictedLabel → ℚ) (data : EvaluationInput) :
    Except EvaluateRaised ProcessReport := do
  let totalSamples := data.items.length
  let places ← data.items.mapM (itemField "predicted_place")
  let missing := places.countP isNone
  let coverage := 1 - (← divide missing totalSamples)
  if missing ≠ 0 ∧ data.unclassifiedPolicy = none then
    .error (.value "미분류 평가 방식은 singleton 또는 exclude로 명시해야 합니다.")
  else
    let items :=
      if data.unclassifiedPolicy = some .exclude then
        data.items.filter fun item => !(item.get? "predicted_place").any isNone
      else data.items
    if data.unclassifiedPolicy = some .exclude ∧ items = [] then
      .error (.value "미분류 제외 후 평가할 사진이 없습니다.")
    else
      let expected ← items.mapM (itemField "expected_place")
      let places ← items.mapM (itemField "predicted_place")
      let truth ← expected.mapM truthLabel
      let predicted ← places.zipIdx.mapM predictedLabel
      let (precision, recalled, f1) ← bcubed truth predicted
      return {
        samples := items.length
        totalSamples := totalSamples
        unclassifiedPolicy := data.unclassifiedPolicy
        metrics := ⟨precision, recalled, f1, adjustedRand truth predicted, coverage⟩ }

/-! ### The scores of a list of labels -/

/-- An item with a true label and a predicted one, or none. -/
structure Reads (item : Value) (x : PyStr × Option PyStr) : Prop where
  expected : item.get? "expected_place" = some (.str x.1)
  predicted : item.get? "predicted_place" = some (x.2.elim .null .str)

/-- The items that are scored. -/
def considered (policy : Option UnclassifiedPolicy) (xs : List (PyStr × Option PyStr)) :
    List (PyStr × Option PyStr) :=
  if policy = some .exclude then xs.filter fun x => x.2.isSome else xs

variable {items : List Value} {xs xs' : List (PyStr × Option PyStr)}
  {policy : Option UnclassifiedPolicy} {pairs : List (PyStr × PredictedLabel)}

theorem divide_of_ne {a b : ℚ} (h : b ≠ 0) : divide a b = .ok (a / b) := if_neg h

/-- **Nothing is divided by zero** where there is an item. -/
theorem bcubed_eq (hne : pairs ≠ []) : bcubed (pairs.map Prod.fst) (pairs.map Prod.snd) =
    .ok (bcubedPrecision pairs, bcubedRecall pairs,
      harmonicMean (bcubedPrecision pairs) (bcubedRecall pairs)) := by
  have hzip : (pairs.map Prod.fst).zip (pairs.map Prod.snd) = pairs :=
    (List.zip_of_prod rfl rfl).symm
  have hlength : ((pairs.map Prod.fst).length : ℚ) ≠ 0 := by
    rw [List.length_map, Nat.cast_ne_zero]
    exact fun h => hne (List.length_eq_zero_iff.mp h)
  have hsum : bcubedPrecision pairs + bcubedRecall pairs ≠ 0 :=
    (add_pos (precision_spec hne).1.1 (recall_spec hne).1.1).ne'
  have hcount : ∀ {β : Type} [BEq β] [LawfulBEq β] [DecidableEq β] (f : PyStr × PredictedLabel → β)
      (b : β), (pairs.map f).count b = pairs.countP fun y => f y = b := by
    intro β _ _ _ f b
    rw [List.count, List.countP_map]
    apply List.countP_congr
    intro y _
    rw [Function.comp_apply, beq_iff_eq, decide_eq_true_eq]
  have hprecisions : pairs.mapM (fun x => divide (pairs.count (x.1, x.2))
      ((pairs.map Prod.snd).count x.2)) = .ok (pairs.map (share pairs)) := by
    refine mapM_eq_ok.mpr (forall₂_map _ fun x hx => ?_)
    rw [divide_of_ne, hcount]
    · rfl
    · rw [Nat.cast_ne_zero, ← Nat.pos_iff_ne_zero, List.count_pos_iff]
      exact List.mem_map_of_mem hx
  have hrecalls : pairs.mapM (fun x => divide (pairs.count (x.1, x.2))
      ((pairs.map Prod.fst).count x.1)) =
        .ok ((pairs.map Prod.swap).map (share (pairs.map Prod.swap))) := by
    rw [List.map_map]
    refine mapM_eq_ok.mpr (forall₂_map _ fun x hx => ?_)
    rw [divide_of_ne, hcount, Function.comp_apply, share_swap]
    rw [Nat.cast_ne_zero, ← Nat.pos_iff_ne_zero, List.count_pos_iff]
    exact List.mem_map_of_mem hx
  unfold bcubed
  dsimp only
  rw [hzip, hprecisions, except_ok_bind, divide_of_ne hlength, except_ok_bind, hrecalls,
    except_ok_bind, divide_of_ne hlength, except_ok_bind]
  rw [bcubedRecall, bcubedPrecision, bcubedPrecision, List.length_map] at hsum
  rw [bcubedRecall, bcubedPrecision, bcubedPrecision, harmonicMean, List.length_map,
    List.length_map, divide_of_ne hsum]
  rfl

theorem itemField_eq {name : String} {item v : Value} (h : item.get? name = some v) :
    itemField name item = .ok v := by
  rw [itemField, h]

/-- What is read of the items. -/
theorem mapM_itemField {name : String} {f : PyStr × Option PyStr → Value}
    (hreads : List.Forall₂ Reads items xs)
    (hfield : ∀ item x, Reads item x → item.get? name = some (f x)) :
    items.mapM (itemField name) = .ok (xs.map f) := by
  rw [mapM_eq_ok]
  refine List.forall₂_map_right_iff.mpr (hreads.imp fun item x h => ?_)
  exact itemField_eq (hfield item x h)

theorem mapM_truthLabel (htruth : ∀ x ∈ xs, x.1 ≠ .text "") :
    (xs.map fun x => Value.str x.1).mapM truthLabel = .ok (xs.map Prod.fst) := by
  rw [List.mapM_map, mapM_eq_ok]
  apply forall₂_map _
  intro x hx
  rw [Function.comp_apply, truthLabel, if_neg (htruth x hx)]

/-- The labels of the source are the names that are there and fresh ones. -/
theorem mapM_predictedLabel (n : Nat) (xs : List (PyStr × Option PyStr)) :
    ((xs.map fun x => x.2.elim Value.null .str).zipIdx n).mapM predictedLabel =
      .ok ((fresh n xs).map Prod.snd) := by
  induction xs generalizing n with
  | nil => rfl
  | cons x xs ih =>
      obtain ⟨t, p⟩ := x
      rw [List.map_cons, List.zipIdx_cons, List.mapM_cons, ih, fresh, List.map_cons]
      cases p <;> rfl

theorem map_fst_fresh (n : Nat) (xs : List (PyStr × Option PyStr)) :
    (fresh n xs).map Prod.fst = xs.map Prod.fst := by
  induction xs generalizing n with
  | nil => rfl
  | cons x xs ih => rw [fresh, List.map_cons, ih, List.map_cons]

/-- The report on some labels. -/
def reportOn (adjustedRand : List PyStr → List PredictedLabel → ℚ)
    (policy : Option UnclassifiedPolicy) (xs : List (PyStr × Option PyStr)) : ProcessReport :=
  let labels := fresh 0 (considered policy xs)
  { samples := (considered policy xs).length
    totalSamples := xs.length
    unclassifiedPolicy := policy
    metrics :=
      { bcubedPrecision := bcubedPrecision labels
        bcubedRecall := bcubedRecall labels
        bcubedF1 := harmonicMean (bcubedPrecision labels) (bcubedRecall labels)
        ari := adjustedRand (labels.map Prod.fst) (labels.map Prod.snd)
        coverage := 1 - (xs.countP fun x => x.2.isNone) / xs.length } }

/-- A policy is given where it is needed, and leaves something to score. -/
def Scorable (policy : Option UnclassifiedPolicy) (xs : List (PyStr × Option PyStr)) : Prop :=
  (policy = none → ∀ x ∈ xs, x.2 ≠ none) ∧ considered policy xs ≠ []

variable {adjustedRand : List PyStr → List PredictedLabel → ℚ} {data : EvaluationInput}

variable (adjustedRand) in
/-- **What `evaluate` makes of its items.** -/
theorem evaluate_cases (hreads : List.Forall₂ Reads data.items xs) (hne : data.items ≠ [])
    (htruth : ∀ x ∈ xs, x.1 ≠ .text "") :
    (Scorable data.unclassifiedPolicy xs ∧
        evaluate adjustedRand data = .ok (reportOn adjustedRand data.unclassifiedPolicy xs)) ∨
      (¬ Scorable data.unclassifiedPolicy xs ∧
        ∃ message, evaluate adjustedRand data = .error (.value message)) := by
  have hlength : data.items.length = xs.length := hreads.length_eq
  have hxs : xs ≠ [] := fun h => hne (List.length_eq_zero_iff.mp (by rw [hlength, h]; rfl))
  have htotal : ((data.items.length : ℕ) : ℚ) ≠ 0 := by
    rw [Nat.cast_ne_zero]
    exact fun h => hne (List.length_eq_zero_iff.mp h)
  have hplaces := mapM_itemField hreads fun _ _ h => h.predicted
  have hmissing : (xs.map fun x => x.2.elim Value.null .str).countP isNone =
      xs.countP fun x => x.2.isNone := by
    rw [List.countP_map]
    apply List.countP_congr
    intro x _
    obtain ⟨t, p⟩ := x
    cases p <;> simp [isNone]
  have hnone : (xs.countP fun x => x.2.isNone) ≠ 0 ↔ ∃ x ∈ xs, x.2 = none := by
    rw [← Nat.pos_iff_ne_zero, List.countP_pos_iff]
    simp only [Option.isNone_iff_eq_none]
  unfold evaluate
  dsimp only
  rw [hplaces, except_ok_bind, divide_of_ne htotal, except_ok_bind, hmissing]
  split
  · rename_i hguard
    refine .inr ⟨fun hscorable => ?_, _, rfl⟩
    obtain ⟨x, hx, hxnone⟩ := hnone.mp hguard.1
    exact hscorable.1 hguard.2 x hx hxnone
  rename_i hgiven
  -- The items left are those that are scored.
  have hkept : List.Forall₂ Reads
      (if data.unclassifiedPolicy = some .exclude then
        data.items.filter fun item => !(item.get? "predicted_place").any isNone
      else data.items) (considered data.unclassifiedPolicy xs) := by
    unfold considered
    split
    · refine List.rel_filter (fun item x h => ?_) hreads
      dsimp only
      rw [h.predicted]
      obtain ⟨t, p⟩ := x
      cases p <;> simp [isNone]
    · exact hreads
  generalize hitems : (if data.unclassifiedPolicy = some .exclude then
    data.items.filter fun item => !(item.get? "predicted_place").any isNone else data.items) =
      items at hkept
  have hnil : items = [] ↔ considered data.unclassifiedPolicy xs = [] := by
    rw [← List.length_eq_zero_iff, hkept.length_eq, List.length_eq_zero_iff]
  split
  · rename_i hguard
    exact .inr ⟨fun hscorable => hscorable.2 (hnil.mp hguard.2), _, rfl⟩
  rename_i hsome
  have hconsidered : considered data.unclassifiedPolicy xs ≠ [] := by
    intro h
    by_cases hpolicy : data.unclassifiedPolicy = some .exclude
    · exact hsome ⟨hpolicy, hnil.mpr h⟩
    · rw [considered, if_neg hpolicy] at h
      exact hxs h
  refine .inl ⟨⟨fun hpolicy x hx hxnone => hgiven ⟨hnone.mpr ⟨x, hx, hxnone⟩, hpolicy⟩,
    hconsidered⟩, ?_⟩
  have htruth' : ∀ x ∈ considered data.unclassifiedPolicy xs, x.1 ≠ .text "" := by
    unfold considered
    split
    · exact fun x hx => htruth x (List.mem_of_mem_filter hx)
    · exact htruth
  have hfresh : fresh 0 (considered data.unclassifiedPolicy xs) ≠ [] := by
    rw [ne_eq, ← List.length_eq_zero_iff, length_fresh, List.length_eq_zero_iff]
    exact hconsidered
  rw [mapM_itemField hkept fun _ _ h => h.expected, except_ok_bind,
    mapM_itemField hkept fun _ _ h => h.predicted, except_ok_bind, mapM_truthLabel htruth',
    except_ok_bind, mapM_predictedLabel, except_ok_bind, ← map_fst_fresh 0, bcubed_eq hfresh,
    except_ok_bind, hkept.length_eq, hlength]
  rfl

/-! ### The scores as a measure of partitions -/

/-- The three scores of a report. -/
def ProcessScores.bcubed (s : ProcessScores) : ℚ × ℚ × ℚ :=
  (s.bcubedPrecision, s.bcubedRecall, s.bcubedF1)

/-- Shares that are full exactly where one partition of the items is finer than the other. -/
structure SoundScores (xs : List (PyStr × Option PyStr)) (s : ProcessScores) : Prop where
  precision : 0 < s.bcubedPrecision ∧ s.bcubedPrecision ≤ 1
  recalled : 0 < s.bcubedRecall ∧ s.bcubedRecall ≤ 1
  f1 : 0 < s.bcubedF1 ∧ s.bcubedF1 ≤ 1
  pure : s.bcubedPrecision = 1 ↔ xs.Pairwise fun x y => SamePrediction x y → x.1 = y.1
  whole : s.bcubedRecall = 1 ↔ xs.Pairwise fun x y => x.1 = y.1 → SamePrediction x y
  equal : s.bcubedF1 = 1 ↔ xs.Pairwise fun x y => SamePrediction x y ↔ x.1 = y.1

/-- The same partitions: another order, other names. -/
def Regrouped (xs xs' : List (PyStr × Option PyStr)) : Prop :=
  ∃ g f : PyStr → PyStr, Function.Injective g ∧ Function.Injective f ∧
    (∀ x ∈ xs, g x.1 ≠ .text "") ∧ xs'.Perm (xs.map (Prod.map g (Option.map f)))

theorem considered_map (policy : Option UnclassifiedPolicy) (g f : PyStr → PyStr)
    (xs : List (PyStr × Option PyStr)) : considered policy (xs.map (Prod.map g (Option.map f))) =
      (considered policy xs).map (Prod.map g (Option.map f)) := by
  unfold considered
  split
  · rw [List.filter_map]
    refine congrArg _ (List.filter_congr fun x _ => ?_)
    obtain ⟨t, p⟩ := x
    cases p <;> rfl
  · rfl

theorem considered_perm (policy : Option UnclassifiedPolicy) (h : xs.Perm xs') :
    (considered policy xs).Perm (considered policy xs') := by
  unfold considered
  split
  · exact h.filter _
  · exact h

/-- **The scores of a report are sound.** -/
theorem soundScores_reportOn (h : considered policy xs ≠ []) :
    SoundScores (considered policy xs) (reportOn adjustedRand policy xs).metrics := by
  have hfresh : fresh 0 (considered policy xs) ≠ [] := by
    rw [ne_eq, ← List.length_eq_zero_iff, length_fresh, List.length_eq_zero_iff]
    exact h
  obtain ⟨hprecision, -⟩ := precision_spec hfresh
  obtain ⟨hrecall, -⟩ := recall_spec hfresh
  obtain ⟨hpos, hle, hfull⟩ := harmonicMean_of_shares hprecision hrecall
  refine ⟨hprecision, hrecall, ⟨hpos, hle⟩, precision_fresh_eq_one_iff h, recall_fresh_eq_one_iff h,
    ?_⟩
  apply hfull.trans
  rw [precision_fresh_eq_one_iff h, recall_fresh_eq_one_iff h, ← List.pairwise_and_iff]
  simp only [iff_iff_implies_and_implies]

variable (adjustedRand) in
/-- **The quality of `process` is a sound measure of partitions.** -/
theorem evaluate_sound (hreads : List.Forall₂ Reads data.items xs) (hne : data.items ≠ [])
    (htruth : ∀ x ∈ xs, x.1 ≠ .text "") :
    evaluate adjustedRand data ≠ .error .zeroDivision ∧
      ∀ report, evaluate adjustedRand data = .ok report →
        SoundScores (considered data.unclassifiedPolicy xs) report.metrics ∧
          ∀ (data' : EvaluationInput) (xs' : List (PyStr × Option PyStr)),
            data'.unclassifiedPolicy = data.unclassifiedPolicy →
            List.Forall₂ Reads data'.items xs' → Regrouped xs xs' →
              ∃ report', evaluate adjustedRand data' = .ok report' ∧
                report'.metrics.bcubed = report.metrics.bcubed := by
  rcases evaluate_cases adjustedRand hreads hne htruth with
    ⟨hscorable, hok⟩ | ⟨-, message, herror⟩
  swap
  · refine ⟨?_, fun report hreport => ?_⟩
    · rw [herror]
      exact nofun
    · rw [herror] at hreport
      cases hreport
  refine ⟨by rw [hok]; exact nofun, fun report hreport => ?_⟩
  rw [hok] at hreport
  cases hreport
  refine ⟨soundScores_reportOn hscorable.2, ?_⟩
  rintro data' xs' hpolicy hreads' ⟨g, f, hg, hf, htruthy, hperm⟩
  have hconsidered := considered_perm data.unclassifiedPolicy hperm
  rw [considered_map] at hconsidered
  have hscorable' : Scorable data'.unclassifiedPolicy xs' := by
    rw [hpolicy]
    refine ⟨fun hnone x' hx' => ?_, fun hnil => ?_⟩
    · obtain ⟨x, hx, rfl⟩ := List.mem_map.mp (hperm.mem_iff.mp hx')
      have hsome := hscorable.1 hnone x hx
      rw [Prod.map_snd, ne_eq, Option.map_eq_none_iff]
      exact hsome
    · rw [hnil] at hconsidered
      exact hscorable.2 (List.map_eq_nil_iff.mp hconsidered.nil_eq.symm)
  have hne' : data'.items ≠ [] := by
    intro hnil
    have hlength := hreads'.length_eq
    rw [hnil, hperm.length_eq, List.length_map, ← hreads.length_eq] at hlength
    exact hne (List.length_eq_zero_iff.mp hlength.symm)
  have htruth' : ∀ x' ∈ xs', x'.1 ≠ .text "" := by
    intro x' hx'
    obtain ⟨x, hx, rfl⟩ := List.mem_map.mp (hperm.mem_iff.mp hx')
    exact htruthy x hx
  rcases evaluate_cases adjustedRand hreads' hne' htruth' with
    ⟨-, hok'⟩ | ⟨hno, -⟩
  · refine ⟨_, hok', ?_⟩
    obtain ⟨hprecision, hrecall⟩ := scores_fresh_congr (n := 0) hg hf hconsidered
    simp only [ProcessScores.bcubed, reportOn, hpolicy, hprecision, hrecall]
  · exact absurd hscorable' hno

/-! ### Two photos of one place, one of them in no group, and a photo of another place -/

def sampleItem (expected : String) (predicted : Value) : Value :=
  .record [("expected_place", .ofString expected), ("predicted_place", predicted)]

def sampleEvaluation : EvaluationInput :=
  { items := [sampleItem "a" (.ofString "p1"), sampleItem "a" .null,
      sampleItem "b" (.ofString "p1")]
    unclassifiedPolicy := some .singleton }

/-- The same photos in another order, with other names of places and groups. -/
def renamedEvaluation : EvaluationInput :=
  { items := [sampleItem "y" (.ofString "q"), sampleItem "x" .null, sampleItem "x" (.ofString "q")]
    unclassifiedPolicy := some .singleton }

def sampleGroups : List (PyStr × Option PyStr) :=
  [(.text "a", some (.text "p1")), (.text "a", none), (.text "b", some (.text "p1"))]

def renamedGroups : List (PyStr × Option PyStr) :=
  [(.text "y", some (.text "q")), (.text "x", none), (.text "x", some (.text "q"))]

theorem regrouped_renamedGroups : Regrouped sampleGroups renamedGroups := by
  refine ⟨(Equiv.swap (.text "a") (.text "x")).trans (Equiv.swap (.text "b") (.text "y")),
    Equiv.swap (.text "p1") (.text "q"), Equiv.injective _, Equiv.injective _, ?_, ?_⟩
  · decide +kernel
  · decide +kernel

theorem evaluate_sound_sampleEvaluation :
    evaluate (fun _ _ => 0) sampleEvaluation ≠ .error .zeroDivision ∧
      ∃ report, evaluate (fun _ _ => 0) sampleEvaluation = .ok report ∧
        SoundScores sampleGroups report.metrics ∧
        ∃ report', evaluate (fun _ _ => 0) renamedEvaluation = .ok report' ∧
          report'.metrics.bcubed = report.metrics.bcubed := by
  have hreads : List.Forall₂ Reads sampleEvaluation.items sampleGroups :=
    .cons ⟨rfl, rfl⟩ (.cons ⟨rfl, rfl⟩ (.cons ⟨rfl, rfl⟩ .nil))
  have hreads' : List.Forall₂ Reads renamedEvaluation.items renamedGroups :=
    .cons ⟨rfl, rfl⟩ (.cons ⟨rfl, rfl⟩ (.cons ⟨rfl, rfl⟩ .nil))
  have hok : (evaluate (fun _ _ => 0) sampleEvaluation).toOption.isSome = true := by decide +kernel
  obtain ⟨hzero, hreport⟩ := evaluate_sound (fun _ _ => 0) hreads (List.cons_ne_nil _ _) (by decide)
  cases heval : evaluate (fun _ _ => 0) sampleEvaluation with
  | error e =>
      rw [heval] at hok
      cases hok
  | ok report =>
      obtain ⟨hsound, hregrouped⟩ := hreport report heval
      exact ⟨nofun, report, rfl, hsound,
        hregrouped renamedEvaluation renamedGroups rfl hreads' regrouped_renamedGroups⟩

end Yeodam.Observability
