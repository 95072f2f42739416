/-
Regular expressions as a backtracking matcher runs them.

`Regex.runs` lists the places where a match can end, in the order the matcher tries them, and the
first of them ends the match. `Regex.scan` searches a text for matches from left to right. Where
the matches of an expression are whole blocks of a division of the text, the search is a pass over
the blocks (`scan_eq_cut`): what a search finds and keeps is then read off the division.
-/

import Mathlib

namespace Yeodam.Lib

/-! ### Pieces of a text -/

variable {α : Type}

/-- A match, or a letter that is in none. -/
inductive Piece (α : Type) where
  | kept (x : α)
  | found (start : Nat) (run group : List α)

/-- The pieces of a text in blocks, some of which are matches with a group. -/
def cut (known : List α → Option (List α)) : Nat → List (List α) → List (Piece α)
  | _, [] => []
  | n, block :: blocks =>
      (match known block with
      | some group => [.found n block group]
      | none => block.map .kept) ++ cut known (n + block.length) blocks

/-- The letters outside the matches. -/
def keptOfPieces (pieces : List (Piece α)) : List α :=
  pieces.filterMap fun
    | .kept x => some x
    | .found .. => none

/-- The matches: where they start, their text and their group. -/
def foundOfPieces (pieces : List (Piece α)) : List (Nat × List α × List α) :=
  pieces.filterMap fun
    | .kept _ => none
    | .found start run group => some (start, run, group)

variable {known : List α → Option (List α)}

theorem keptOfPieces_append (ps qs : List (Piece α)) :
    keptOfPieces (ps ++ qs) = keptOfPieces ps ++ keptOfPieces qs :=
  List.filterMap_append

theorem keptOfPieces_cut (n : Nat) (blocks : List (List α)) :
    keptOfPieces (cut known n blocks) = (blocks.filter fun b => (known b).isNone).flatten := by
  induction blocks generalizing n with
  | nil => rfl
  | cons block blocks ih =>
      rw [cut, keptOfPieces_append, ih]
      cases hknown : known block with
      | some group => simp [hknown, keptOfPieces]
      | none => simp [hknown, keptOfPieces, List.filterMap_map]

theorem foundOfPieces_cut (n : Nat) (block : List α) (blocks : List (List α)) :
    foundOfPieces (cut known n (block :: blocks)) =
      ((known block).map fun group => (n, block, group)).toList ++
        foundOfPieces (cut known (n + block.length) blocks) := by
  rw [cut, foundOfPieces, List.filterMap_append]
  refine congrArg (· ++ _) ?_
  cases known block with
  | some group => rfl
  | none => simp

theorem groups_cut (n : Nat) (blocks : List (List α)) :
    (foundOfPieces (cut known n blocks)).map (fun m => m.2.2) = blocks.filterMap known := by
  induction blocks generalizing n with
  | nil => rfl
  | cons block blocks ih =>
      rw [foundOfPieces_cut, List.map_append, ih]
      cases hknown : known block with
      | some group => simp [hknown]
      | none => simp [hknown]

/-- The matches are the known blocks where they stand. -/
theorem mem_foundOfPieces_cut {n start : Nat} {run group : List α} {blocks : List (List α)} :
    (start, run, group) ∈ foundOfPieces (cut known n blocks) ↔
      ∃ pre post, blocks = pre ++ run :: post ∧ start = n + pre.flatten.length ∧
        known run = some group := by
  induction blocks generalizing n with
  | nil => simp [cut, foundOfPieces]
  | cons block blocks ih =>
      rw [foundOfPieces_cut, List.mem_append, ih]
      constructor
      · rintro (h | ⟨pre, post, rfl, rfl, hknown⟩)
        · obtain ⟨g, hg, heq⟩ := Option.map_eq_some_iff.mp (Option.mem_toList.mp h)
          cases heq
          exact ⟨[], blocks, rfl, rfl, hg⟩
        · refine ⟨block :: pre, post, rfl, ?_, hknown⟩
          rw [List.flatten_cons, List.length_append, Nat.add_assoc]
      · rintro ⟨pre, post, hblocks, rfl, hknown⟩
        cases pre with
        | nil =>
            cases hblocks
            left
            simp [hknown]
        | cons b pre =>
            cases hblocks
            right
            refine ⟨pre, post, rfl, ?_, hknown⟩
            rw [List.flatten_cons, List.length_append, Nat.add_assoc]

/-- The matches stand one behind the other. -/
theorem foundOfPieces_cut_ordered (n : Nat) (blocks : List (List α)) :
    (foundOfPieces (cut known n blocks)).Pairwise fun m m' => m.1 + m.2.1.length ≤ m'.1 := by
  induction blocks generalizing n with
  | nil => exact .nil
  | cons block blocks ih =>
      rw [foundOfPieces_cut, List.pairwise_append]
      refine ⟨?_, ih _, fun m hm m' hm' => ?_⟩
      · cases known block <;> simp
      · obtain ⟨g, -, heq⟩ := Option.map_eq_some_iff.mp (Option.mem_toList.mp hm)
        obtain ⟨pre, post, -, hstart, -⟩ :=
          mem_foundOfPieces_cut.mp (show (m'.1, m'.2) ∈ _ from hm')
        subst heq
        dsimp only
        omega

/-! ### The matcher -/

/-- The constructs of a regular expression over the letters `α`. -/
inductive Regex (α : Type) where
  /-- `w1|w2|…` -/
  | oneOf (ws : List (List α))
  | seq (r s : Regex α)
  /-- `(?:r)?` -/
  | maybe (r : Regex α)
  /-- `(?<!p)` for a class of letters. -/
  | notAfter (p : α → Bool)
  /-- `(?!p)` for a class of letters. -/
  | notBefore (p : α → Bool)
  /-- `(r)`, the only group. -/
  | group (r : Regex α)

/-- A place in a text: what stands before it, nearest first, what follows, and what the group took
on the way to it. -/
@[ext]
structure Place (α : Type) where
  before : List α
  after : List α
  group : List α

/-- What stands between a place and a later one. -/
def Place.upTo (c d : Place α) : List α :=
  c.after.take (c.after.length - d.after.length)

theorem Place.upTo_eq {c d : Place α} {w : List α} (h : c.after = w ++ d.after) : c.upTo d = w := by
  rw [upTo, h, List.length_append, Nat.add_sub_cancel, List.take_left]

variable [DecidableEq α]

/-- The place behind `w`, if `w` is what follows. -/
def Place.past (c : Place α) (w : List α) : Option (Place α) :=
  if w.isPrefixOf c.after then
    some { c with before := w.reverse ++ c.before, after := c.after.drop w.length }
  else none

/-- The ends of the matches that start at a place, in the order they are tried. -/
def Regex.runs : Regex α → Place α → List (Place α)
  | .oneOf ws, c => ws.filterMap c.past
  | .seq r s, c => (r.runs c).flatMap s.runs
  | .maybe r, c => r.runs c ++ [c]
  | .notAfter p, c => if c.before.head?.any p then [] else [c]
  | .notBefore p, c => if c.after.head?.any p then [] else [c]
  | .group r, c => (r.runs c).map fun d => { d with group := c.upTo d }

/-- The search for matches, behind `before`; the next `skip` letters belong to the last match. No
expression here matches the empty text. -/
def Regex.scan (r : Regex α) : Nat → List α → List α → List (Piece α)
  | _, _, [] => []
  | skip + 1, before, x :: rest => r.scan skip (x :: before) rest
  | 0, before, x :: rest =>
      match (r.runs ⟨before, x :: rest, []⟩).head? with
      | some d =>
          let run := Place.upTo ⟨before, x :: rest, []⟩ d
          .found before.length run d.group :: r.scan (run.length - 1) (x :: before) rest
      | none => .kept x :: r.scan 0 (x :: before) rest

/-- The pieces of a text. -/
def Regex.pieces (r : Regex α) (text : List α) : List (Piece α) := r.scan 0 [] text

/-! ### The ends of a match -/

variable {c d : Place α} {w : List α} {r : Regex α}

theorem Place.past_eq_some :
    c.past w = some d ↔ c.after = w ++ d.after ∧ d.before = w.reverse ++ c.before ∧
      d.group = c.group := by
  unfold past
  constructor
  · intro h
    split at h
    · rename_i hstarts
      obtain ⟨rest, hrest⟩ := List.isPrefixOf_iff_prefix.mp hstarts
      cases h
      exact ⟨by rw [← hrest, List.drop_left], rfl, rfl⟩
    · cases h
  · rintro ⟨hafter, hbefore, hgroup⟩
    rw [if_pos (List.isPrefixOf_iff_prefix.mpr ⟨_, hafter.symm⟩)]
    refine congrArg some (Place.ext hbefore.symm ?_ hgroup.symm)
    rw [hafter, List.drop_left]

theorem mem_runs_oneOf {ws : List (List α)} :
    d ∈ (Regex.oneOf ws).runs c ↔ ∃ w ∈ ws, c.past w = some d := by
  rw [Regex.runs, List.mem_filterMap]

theorem mem_runs_seq {s : Regex α} :
    d ∈ (r.seq s).runs c ↔ ∃ e ∈ r.runs c, d ∈ s.runs e := by
  rw [Regex.runs, List.mem_flatMap]

/-- An optional word is a word of the list or the empty one. -/
theorem mem_runs_maybe_oneOf {ws : List (List α)} :
    d ∈ (Regex.oneOf ws).maybe.runs c ↔ ∃ w ∈ [] :: ws, c.past w = some d := by
  have hnil : c.past [] = some d ↔ d = c := by
    rw [Place.past_eq_some, Place.ext_iff]
    exact ⟨fun ⟨ha, hb, hg⟩ => ⟨hb, ha.symm, hg⟩, fun ⟨hb, ha, hg⟩ => ⟨ha.symm, hb, hg⟩⟩
  rw [Regex.runs, List.mem_append, mem_runs_oneOf, List.mem_singleton,
    List.exists_mem_cons_iff, hnil]
  exact Or.comm

theorem mem_runs_notAfter {p : α → Bool} :
    d ∈ (Regex.notAfter p).runs c ↔ c.before.head?.any p = false ∧ d = c := by
  rw [Regex.runs]
  split <;> simp_all

theorem mem_runs_notBefore {p : α → Bool} :
    d ∈ (Regex.notBefore p).runs c ↔ c.after.head?.any p = false ∧ d = c := by
  rw [Regex.runs]
  split <;> simp_all

theorem mem_runs_group_oneOf {ws : List (List α)} :
    d ∈ (Regex.oneOf ws).group.runs c ↔ ∃ w ∈ ws, c.after = w ++ d.after ∧
      d.before = w.reverse ++ c.before ∧ d.group = w := by
  rw [Regex.runs, List.mem_map]
  constructor
  · rintro ⟨e, he, rfl⟩
    obtain ⟨w, hw, hpast⟩ := mem_runs_oneOf.mp he
    obtain ⟨hafter, hbefore, -⟩ := Place.past_eq_some.mp hpast
    exact ⟨w, hw, hafter, hbefore, Place.upTo_eq hafter⟩
  · rintro ⟨w, hw, hafter, hbefore, hgroup⟩
    refine ⟨⟨d.before, d.after, c.group⟩, mem_runs_oneOf.mpr ⟨w, hw, ?_⟩, ?_⟩
    · exact Place.past_eq_some.mpr ⟨hafter, hbefore, rfl⟩
    · exact Place.ext rfl rfl ((Place.upTo_eq hafter).trans hgroup.symm)

/-! ### Searching a divided text -/

/-- The matches of an expression are the blocks that are known, each with its group. -/
structure Blockwise (r : Regex α) (known : List α → Option (List α)) (blocks : List (List α)) :
    Prop where
  nonempty : ∀ block ∈ blocks, block ≠ []
  starts : ∀ pre block post, blocks = pre ++ block :: post →
    (r.runs ⟨pre.flatten.reverse, block ++ post.flatten, []⟩).head? =
      (known block).map fun group =>
        ⟨block.reverse ++ pre.flatten.reverse, post.flatten, group⟩
  inside : ∀ pre block post u v, blocks = pre ++ block :: post → block = u ++ v → u ≠ [] → v ≠ [] →
    r.runs ⟨u.reverse ++ pre.flatten.reverse, v ++ post.flatten, []⟩ = []

theorem scan_skip (r : Regex α) (u before rest : List α) :
    r.scan u.length before (u ++ rest) = r.scan 0 (u.reverse ++ before) rest := by
  induction u generalizing before with
  | nil => rfl
  | cons x u ih =>
      rw [List.length_cons, List.cons_append, Regex.scan, ih, List.reverse_cons, List.append_assoc]
      rfl

/-- Letters at which no match starts are kept. -/
theorem scan_kept {before u rest : List α}
    (h : ∀ v v', u = v ++ v' → v' ≠ [] → r.runs ⟨v.reverse ++ before, v' ++ rest, []⟩ = []) :
    r.scan 0 before (u ++ rest) = u.map .kept ++ r.scan 0 (u.reverse ++ before) rest := by
  induction u generalizing before with
  | nil => rfl
  | cons x u ih =>
      have hfirst := h [] (x :: u) rfl (List.cons_ne_nil _ _)
      have hafter : ∀ v v', u = v ++ v' → v' ≠ [] →
          r.runs ⟨v.reverse ++ x :: before, v' ++ rest, []⟩ = [] := by
        intro v v' hu hv'
        have hx := h (x :: v) v' (by rw [hu, List.cons_append]) hv'
        simpa using hx
      have hrest := ih hafter
      rw [List.reverse_nil, List.nil_append] at hfirst
      rw [List.cons_append, Regex.scan, ← List.cons_append, hfirst]
      simp only [List.head?_nil, hrest, List.map_cons, List.cons_append, List.reverse_cons,
        List.append_assoc, List.nil_append]

/-- **A search for whole blocks is a pass over the blocks.** -/
theorem scan_eq_cut {known : List α → Option (List α)} {blocks : List (List α)}
    (h : Blockwise r known blocks) : r.pieces blocks.flatten = cut known 0 blocks := by
  -- The blocks passed are `pre`.
  suffices hrun : ∀ post pre, blocks = pre ++ post →
      r.scan 0 pre.flatten.reverse post.flatten = cut known pre.flatten.length post from
    hrun blocks [] rfl
  intro post
  induction post with
  | nil =>
      intro pre _
      rfl
  | cons block post ih =>
      intro pre hpre
      have hmem : block ∈ blocks := by
        rw [hpre]
        exact List.mem_append_right _ List.mem_cons_self
      have hnext := ih (pre ++ [block]) (by rw [hpre, List.append_assoc]; rfl)
      rw [List.flatten_append, List.flatten_singleton, List.reverse_append,
        List.length_append] at hnext
      have hstarts := h.starts pre block post hpre
      rw [List.flatten_cons, cut]
      cases hknown : known block with
      | some group =>
          rw [hknown, Option.map_some] at hstarts
          obtain ⟨x, u, rfl⟩ := List.exists_cons_of_ne_nil (h.nonempty block hmem)
          have hupTo : Place.upTo ⟨pre.flatten.reverse, x :: (u ++ post.flatten), []⟩
              ⟨(x :: u).reverse ++ pre.flatten.reverse, post.flatten, group⟩ = x :: u :=
            Place.upTo_eq rfl
          rw [List.cons_append] at hstarts ⊢
          rw [Regex.scan, hstarts]
          simp only [hupTo, List.length_cons, Nat.add_sub_cancel, scan_skip, List.length_reverse]
          rw [← List.length_cons, ← hnext, List.reverse_cons, List.append_assoc]
          rfl
      | none =>
          rw [hknown, Option.map_none, List.head?_eq_none_iff] at hstarts
          rw [scan_kept, hnext]
          intro v v' hblock hv'
          cases v with
          | nil =>
              obtain rfl : block = v' := hblock
              exact hstarts
          | cons x v =>
              exact h.inside pre block post (x :: v) v' hpre hblock (List.cons_ne_nil _ _) hv'

end Yeodam.Lib
