/-
The time words of a question (`app/search/times.py`).

A time word stands alone between letters that are no Hangul syllables, with at most one suffix and
one particle behind it. The expression of the source says so with two optional parts and two looks
around; `timeGrammar` reads it over the division of a text into its runs of syllables (`blocks`):
the matches are exactly the runs of that form, and to strip them is to leave out these blocks.
-/

import Yeodam.Lib.Keyed
import Yeodam.Lib.Regex

namespace Yeodam.Search

open Yeodam.Lib

/-! ### The expression -/

/-- A time of the day, in microseconds. -/
abbrev Clock := Int

def hour (h : Int) : Clock := h * 3600000000

/-- `TIME_WINDOWS`: the start belongs to a window, the end does not. -/
def timeWindows : List (String × Clock × Clock) :=
  [("아침", hour 6, hour 11), ("오전", hour 6, hour 12), ("점심", hour 11, hour 14),
    ("오후", hour 14, hour 18), ("저녁", hour 18, hour 22), ("밤", hour 22, hour 6),
    ("새벽", hour 22, hour 6)]

def nounSuffixes : List String := ["시간", "식사", "무렵", "때", "쯤", "밥"]

def particles : List String :=
  ["에는", "에도", "부터", "까지", "이랑", "이나", "하고",
    "에", "엔", "의", "은", "는", "도", "이", "가", "을", "를", "과", "와", "랑", "나"]

/-- `[가-힣]` -/
def hangul (c : Char) : Bool := decide (0xAC00 ≤ c.toNat) && decide (c.toNat ≤ 0xD7A3)

/-- The words of a list, as letters. -/
def letters (words : List String) : List (List Char) := words.map String.toList

/-- `_PATTERN` -/
def pattern : Regex Char :=
  .seq (.notAfter hangul) <| .seq (.group (.oneOf (letters (timeWindows.map Prod.fst)))) <|
    .seq (.maybe (.oneOf (letters nounSuffixes))) <| .seq (.maybe (.oneOf (letters particles))) <|
      .notBefore hangul

/-- `_PATTERN.finditer`: where a match starts, its text, and its first group. -/
def finditer (text : String) : List (Nat × List Char × List Char) :=
  foundOfPieces (pattern.pieces text.toList)

def timeWords (query : String) : List String :=
  ((finditer query).map fun m => String.ofList m.2.2).eraseDups

def stripTimeWords (text : String) : String :=
  String.ofList (keptOfPieces (pattern.pieces text.toList))

/-! ### The grammar -/

/-- A time word with at most one suffix and then at most one particle. -/
def TimeRun (word run : List Char) : Prop :=
  word ∈ letters (timeWindows.map Prod.fst) ∧ ∃ suffix ∈ [] :: letters nounSuffixes,
    ∃ particle ∈ [] :: letters particles, run = word ++ (suffix ++ particle)

instance (word run : List Char) : Decidable (TimeRun word run) :=
  inferInstanceAs (Decidable (_ ∧ _))

/-- The time word of a run of that form. -/
def wordOf (run : List Char) : Option (List Char) :=
  (letters (timeWindows.map Prod.fst)).find? fun word => decide (TimeRun word run)

/-- The runs of syllables of a text, whole, and its other letters, one by one. -/
def blocks (text : List Char) : List (List Char) := text.splitBy fun c d => hangul c && hangul d

/-- A run of syllables that goes on neither to the left nor to the right. -/
structure MaximalRun (text : List Char) (start : Nat) (run : List Char) : Prop where
  nonempty : run ≠ []
  hangul : ∀ c ∈ run, hangul c = true
  stands : ∃ before after, text = before ++ run ++ after ∧ before.length = start ∧
    before.getLast?.any Search.hangul = false ∧ after.head?.any Search.hangul = false

theorem hangul_words : ∀ w ∈ letters (timeWindows.map Prod.fst), w ≠ [] ∧
    ∀ c ∈ w, hangul c = true := by
  simp [letters, timeWindows, hangul]

theorem hangul_suffixes : ∀ w ∈ [] :: letters nounSuffixes, ∀ c ∈ w, hangul c = true := by
  simp [letters, nounSuffixes, hangul]

theorem hangul_particles : ∀ w ∈ [] :: letters particles, ∀ c ∈ w, hangul c = true := by
  simp [letters, particles, hangul]

/-- No time word starts another. -/
theorem words_apart : ∀ w ∈ letters (timeWindows.map Prod.fst),
    ∀ w' ∈ letters (timeWindows.map Prod.fst), w <+: w' → w = w' := by
  decide +kernel

variable {word word' run : List Char} {text : List Char}

theorem TimeRun.nonempty (h : TimeRun word run) : run ≠ [] := by
  obtain ⟨hword, suffix, -, particle, -, rfl⟩ := h
  exact List.append_ne_nil_of_left_ne_nil (hangul_words word hword).1 _

theorem TimeRun.hangul (h : TimeRun word run) : ∀ c ∈ run, hangul c = true := by
  obtain ⟨hword, suffix, hsuffix, particle, hparticle, rfl⟩ := h
  intro c hc
  rcases List.mem_append.mp hc with hc | hc
  · exact (hangul_words word hword).2 c hc
  rcases List.mem_append.mp hc with hc | hc
  · exact hangul_suffixes suffix hsuffix c hc
  · exact hangul_particles particle hparticle c hc

theorem TimeRun.unique (h : TimeRun word run) (h' : TimeRun word' run) : word = word' := by
  obtain ⟨hword, suffix, -, particle, -, rfl⟩ := h
  obtain ⟨hword', suffix', -, particle', -, heq⟩ := h'
  rcases List.prefix_or_prefix_of_prefix (List.prefix_append word _)
    (heq ▸ List.prefix_append word' _) with hstarts | hstarts
  · exact words_apart word hword word' hword' hstarts
  · exact (words_apart word' hword' word hword hstarts).symm

theorem wordOf_eq_some : wordOf run = some word ↔ TimeRun word run := by
  unfold wordOf
  constructor
  · intro h
    exact of_decide_eq_true (List.find?_some (p := fun word => decide (TimeRun word run)) h)
  · intro h
    cases hfind :
      (letters (timeWindows.map Prod.fst)).find? fun word => decide (TimeRun word run) with
    | none => exact absurd (decide_eq_true h) (List.find?_eq_none.mp hfind word h.1)
    | some word' =>
        have htime : TimeRun word' run :=
          of_decide_eq_true (List.find?_some (p := fun word => decide (TimeRun word run)) hfind)
        rw [htime.unique h]

theorem wordOf_eq_none (h : ∀ word, ¬ TimeRun word run) : wordOf run = none := by
  rw [Option.eq_none_iff_forall_ne_some]
  exact fun word hsome => h word (wordOf_eq_some.mp hsome)

/-! ### The matches at a place -/

theorem append_inj_of_hangul {u v r s : List Char} (h : u ++ r = v ++ s)
    (hu : ∀ c ∈ u, hangul c = true) (hv : ∀ c ∈ v, hangul c = true)
    (hr : r.head?.any hangul = false) (hs : s.head?.any hangul = false) : u = v ∧ r = s := by
  have htake : ∀ {u r : List Char}, (∀ c ∈ u, hangul c = true) → r.head?.any hangul = false →
      (u ++ r).takeWhile hangul = u := by
    intro u r hu hr
    rw [List.takeWhile_append_of_pos hu]
    cases r with
    | nil => simp
    | cons c r =>
        have hc : hangul c = false := hr
        rw [List.takeWhile_cons_of_neg (by rw [hc]; decide), List.append_nil]
  have hsame : u = v := by rw [← htake hu hr, h, htake hv hs]
  subst hsame
  exact ⟨rfl, List.append_cancel_left h⟩

/-- What a match of the expression is. -/
theorem mem_runs_pattern {before after : List Char} {d : Place Char} :
    d ∈ pattern.runs ⟨before, after, []⟩ ↔ before.head?.any hangul = false ∧
      d.after.head?.any hangul = false ∧ ∃ run, TimeRun d.group run ∧ after = run ++ d.after ∧
        d.before = run.reverse ++ before := by
  simp only [pattern, mem_runs_seq, mem_runs_notAfter, mem_runs_group_oneOf, mem_runs_maybe_oneOf,
    mem_runs_notBefore, Place.past_eq_some]
  constructor
  · rintro ⟨_, ⟨hbefore, rfl⟩, e, ⟨word, hword, he, heb, heg⟩, f,
      ⟨suffix, hsuffix, hf, hfb, hfg⟩, g,
      ⟨particle, hparticle, hg, hgb, hgg⟩, hafter, rfl⟩
    refine ⟨hbefore, hafter, word ++ (suffix ++ particle),
      ⟨?_, suffix, hsuffix, particle, hparticle,
      ?_⟩, ?_, ?_⟩
    · rwa [hgg, hfg, heg]
    · rw [hgg, hfg, heg]
    · dsimp only at he
      rw [he, hf, hg, List.append_assoc, List.append_assoc]
    · rw [hgb, hfb, heb]
      simp only [List.reverse_append, List.append_assoc]
  · rintro ⟨hbefore, hafter, run, ⟨hword, suffix, hsuffix, particle, hparticle, rfl⟩,
      hsplit, hplace⟩
    refine ⟨_, ⟨hbefore, rfl⟩,
      ⟨d.group.reverse ++ before, suffix ++ (particle ++ d.after), d.group⟩,
      ⟨d.group, hword, ?_, rfl, rfl⟩, ⟨suffix.reverse ++ (d.group.reverse ++ before),
        particle ++ d.after, d.group⟩, ⟨suffix, hsuffix, rfl, rfl, rfl⟩, d,
      ⟨particle, hparticle, rfl, ?_, rfl⟩, hafter, rfl⟩
    · dsimp only
      rw [hsplit, List.append_assoc, List.append_assoc]
    · rw [hplace]
      simp only [List.reverse_append, List.append_assoc]

/-- At a whole run, the matcher finds the time word of the run, or nothing. -/
theorem head?_runs_pattern {before after : List Char} (hrun : ∀ c ∈ run, hangul c = true)
    (hbefore : before.head?.any hangul = false) (hafter : after.head?.any hangul = false) :
    (pattern.runs ⟨before, run ++ after, []⟩).head? =
      (wordOf run).map fun word => ⟨run.reverse ++ before, after, word⟩ := by
  have hmem : ∀ d, d ∈ pattern.runs ⟨before, run ++ after, []⟩ ↔ TimeRun d.group run ∧
      d.after = after ∧ d.before = run.reverse ++ before := by
    intro d
    rw [mem_runs_pattern]
    constructor
    · rintro ⟨-, hd, run', htime, hsplit, hplace⟩
      obtain ⟨rfl, rfl⟩ := append_inj_of_hangul hsplit hrun htime.hangul hafter hd
      exact ⟨htime, rfl, hplace⟩
    · rintro ⟨htime, hd, hplace⟩
      exact ⟨hbefore, hd ▸ hafter, run, htime, by rw [hd], hplace⟩
  cases hhead : (pattern.runs ⟨before, run ++ after, []⟩).head? with
  | none =>
      rw [List.head?_eq_none_iff] at hhead
      rw [wordOf_eq_none, Option.map_none]
      intro word htime
      have hd := (hmem ⟨run.reverse ++ before, after, word⟩).mpr ⟨htime, rfl, rfl⟩
      rw [hhead] at hd
      exact List.not_mem_nil hd
  | some d =>
      obtain ⟨htime, hd, hplace⟩ := (hmem d).mp (List.mem_of_head? hhead)
      rw [wordOf_eq_some.mpr htime, Option.map_some]
      exact congrArg some (Place.ext hplace hd rfl)

/-! ### The division of a text -/

/-- No run of syllables goes on from one block to the next. -/
def Apart (b b' : List Char) : Prop :=
  ∃ (hb : b ≠ []) (hb' : b' ≠ []), (hangul (b.getLast hb) && hangul (b'.head hb')) = false

variable {pre post : List (List Char)} {block : List Char}

theorem flatten_blocks (text : List Char) : (blocks text).flatten = text := List.flatten_splitBy _ _

theorem apart_blocks (text : List Char) : (blocks text).IsChain Apart :=
  List.isChain_getLast_head_splitBy (fun c d => hangul c && hangul d) text

/-- A block is a run of syllables or one other letter. -/
theorem block_cases (h : block ∈ blocks text) :
    (∀ c ∈ block, hangul c = true) ∨ ∃ c, block = [c] ∧ hangul c = false := by
  have hchain := List.isChain_of_mem_splitBy h
  cases block with
  | nil => exact absurd rfl (List.ne_nil_of_mem_splitBy h)
  | cons c rest =>
      cases rest with
      | nil =>
          cases hc : hangul c with
          | true => exact .inl fun d hd => List.mem_singleton.mp hd ▸ hc
          | false => exact .inr ⟨c, rfl, hc⟩
      | cons d rest =>
          -- Two letters stand in one block only if both are syllables.
          left
          have hall : ∀ (rest : List Char) (c d : Char),
              (c :: d :: rest).IsChain (fun c d => (hangul c && hangul d) = true) →
                ∀ e ∈ c :: d :: rest, hangul e = true := by
            intro rest
            induction rest with
            | nil =>
                intro c d hchain e he
                have hcd := (List.isChain_cons_cons.mp hchain).1
                rw [Bool.and_eq_true] at hcd
                rcases List.mem_pair.mp he with rfl | rfl
                · exact hcd.1
                · exact hcd.2
            | cons x rest ih =>
                intro c d hchain e he
                obtain ⟨hcd, hrest⟩ := List.isChain_cons_cons.mp hchain
                rw [Bool.and_eq_true] at hcd
                rcases List.mem_cons.mp he with rfl | he
                · exact hcd.1
                · exact ih d x hrest e he
          exact hall rest c d hchain

/-- A run of syllables stands between other letters. -/
theorem block_stands (h : blocks text = pre ++ block :: post)
    (hrun : ∀ c ∈ block, hangul c = true) :
    pre.flatten.getLast?.any hangul = false ∧ post.flatten.head?.any hangul = false := by
  have hapart : (pre ++ block :: post).IsChain Apart := h ▸ apart_blocks text
  obtain ⟨-, hpost, hpre⟩ := List.isChain_append.mp hapart
  constructor
  · rcases List.eq_nil_or_concat pre with rfl | ⟨pre', b, rfl⟩
    · rfl
    · obtain ⟨hb, hblock, hnot⟩ := hpre b (by simp) block (by simp)
      rw [hrun _ (List.head_mem hblock), Bool.and_true] at hnot
      rw [List.concat_eq_append, List.flatten_append, List.flatten_singleton,
        List.getLast?_append_of_ne_nil _ hb, List.getLast?_eq_getLast_of_ne_nil hb]
      exact hnot
  · cases post with
    | nil => rfl
    | cons b post =>
        obtain ⟨⟨hblock, hb, hnot⟩, -⟩ := List.isChain_cons_cons.mp hpost
        rw [hrun _ (List.getLast_mem hblock), Bool.true_and] at hnot
        rw [List.flatten_cons, List.head?_append_of_ne_nil _ hb, List.head?_eq_some_head hb]
        exact hnot

/-- The blocks of syllables are the runs that cannot go on. -/
theorem maximalRun_iff {start : Nat} : MaximalRun text start run ↔
    ∃ pre post, blocks text = pre ++ run :: post ∧ start = pre.flatten.length ∧
      ∀ c ∈ run, hangul c = true := by
  constructor
  · rintro ⟨hne, hrun, before, after, rfl, rfl, hbefore, hafter⟩
    have hchain : run.IsChain fun c d => (hangul c && hangul d) = true := by
      refine (List.pairwise_of_forall_mem_list fun c hc d hd => ?_).isChain
      rw [hrun c hc, hrun d hd]
      rfl
    refine ⟨blocks before, blocks after, ?_, by rw [flatten_blocks], hrun⟩
    rw [List.append_assoc, blocks, List.splitBy_append, List.splitBy_append,
      List.splitBy_of_isChain hne hchain]
    · rfl
    · intro c hc d hd
      rw [Option.mem_def.mp hd] at hafter
      rw [show hangul d = false from hafter, Bool.and_false]
    · intro c hc d hd
      rw [Option.mem_def.mp hc] at hbefore
      rw [show hangul c = false from hbefore, Bool.false_and]
  · rintro ⟨pre, post, hblocks, rfl, hrun⟩
    have hmem : run ∈ blocks text := hblocks ▸ List.mem_append_right _ List.mem_cons_self
    obtain ⟨hbefore, hafter⟩ := block_stands hblocks hrun
    refine ⟨List.ne_nil_of_mem_splitBy hmem, hrun, pre.flatten, post.flatten, ?_, rfl,
      hbefore, hafter⟩
    rw [← flatten_blocks text, hblocks, List.flatten_append, List.flatten_cons, List.append_assoc]

/-- **The matches are the blocks of the grammar.** -/
theorem blockwise_pattern (text : List Char) : Blockwise pattern wordOf (blocks text) where
  nonempty := fun block h => List.ne_nil_of_mem_splitBy h
  starts := by
    intro pre block post h
    rcases block_cases (h ▸ List.mem_append_right _ List.mem_cons_self) with hrun | ⟨c, rfl, hc⟩
    · obtain ⟨hbefore, hafter⟩ := block_stands h hrun
      exact head?_runs_pattern hrun (by rwa [List.head?_reverse]) hafter
    · -- Another letter starts no time word.
      have hnone : ∀ word, ¬ TimeRun word [c] := by
        intro word htime
        have hcontra := htime.hangul c (List.mem_singleton_self c)
        rw [hc] at hcontra
        cases hcontra
      rw [wordOf_eq_none hnone, Option.map_none, List.head?_eq_none_iff,
        List.eq_nil_iff_forall_not_mem]
      intro d hd
      obtain ⟨-, -, run, htime, hsplit, -⟩ := mem_runs_pattern.mp hd
      obtain ⟨x, run, rfl⟩ := List.exists_cons_of_ne_nil htime.nonempty
      rw [List.singleton_append, List.cons_append, List.cons.injEq] at hsplit
      have hx := htime.hangul x List.mem_cons_self
      rw [← hsplit.1, hc] at hx
      cases hx
  inside := by
    intro pre block post u v h hblock hu hv
    rw [List.eq_nil_iff_forall_not_mem]
    intro d hd
    obtain ⟨hbefore, -⟩ := mem_runs_pattern.mp hd
    rcases block_cases (h ▸ List.mem_append_right _ List.mem_cons_self) with hrun | ⟨c, rfl, -⟩
    · -- The letter before is a syllable of the block.
      rw [List.head?_append_of_ne_nil _ (List.reverse_ne_nil_iff.mpr hu), List.head?_reverse,
        List.getLast?_eq_getLast_of_ne_nil hu, Option.any_some] at hbefore
      have hlast := hrun _ (hblock ▸ List.mem_append_left v (List.getLast_mem hu))
      rw [hlast] at hbefore
      cases hbefore
    · have hlength := congrArg List.length hblock
      have hupos := List.length_pos_of_ne_nil hu
      have hvpos := List.length_pos_of_ne_nil hv
      rw [List.length_append, List.length_singleton] at hlength
      omega

/-! ### Extraction and stripping -/

theorem finditer_eq (text : String) :
    finditer text = foundOfPieces (cut wordOf 0 (blocks text.toList)) := by
  rw [finditer, ← scan_eq_cut (blockwise_pattern _), flatten_blocks]

theorem toList_stripTimeWords (text : String) : (stripTimeWords text).toList =
    ((blocks text.toList).filter fun b => (wordOf b).isNone).flatten := by
  rw [stripTimeWords, String.toList_ofList, ← keptOfPieces_cut, ← scan_eq_cut (blockwise_pattern _),
    flatten_blocks]

theorem timeWords_eq (query : String) : timeWords query =
    (((blocks query.toList).filterMap wordOf).map String.ofList).eraseDups := by
  rw [timeWords, finditer_eq, ← groups_cut 0, List.map_map]
  rfl

/-- A chain stays one without elements that can be stepped over. -/
theorem isChain_filter {α : Type} {S : α → α → Prop} {keep : α → Bool} {l : List α}
    (hover : ∀ x b y, keep b = false → S x b → S b y → S x y) (h : l.IsChain S) :
    (l.filter keep).IsChain S := by
  have hcons : ∀ (l : List α) (x : α), (x :: l).IsChain S → (x :: l.filter keep).IsChain S := by
    intro l
    induction l with
    | nil => exact fun x _ => List.isChain_singleton x
    | cons b l ih =>
        intro x hx
        obtain ⟨hxb, hb⟩ := List.isChain_cons_cons.mp hx
        cases hkeep : keep b with
        | true =>
            rw [List.filter_cons_of_pos hkeep]
            exact List.isChain_cons_cons.mpr ⟨hxb, ih b hb⟩
        | false =>
            rw [List.filter_cons_of_neg (by rw [hkeep]; decide)]
            apply ih x
            cases l with
            | nil => exact List.isChain_singleton x
            | cons y l =>
                obtain ⟨hby, hy⟩ := List.isChain_cons_cons.mp hb
                exact List.isChain_cons_cons.mpr ⟨hover x b y hkeep hxb hby, hy⟩
  induction l with
  | nil => exact .nil
  | cons b l ih =>
      cases hkeep : keep b with
      | true =>
          rw [List.filter_cons_of_pos hkeep]
          exact hcons l b h
      | false =>
          rw [List.filter_cons_of_neg (by rw [hkeep]; decide)]
          exact ih h.tail

/-- **Stripping leaves the other blocks as they are.** The neighbours of a run are no syllables, so
no new run comes about. -/
theorem blocks_stripTimeWords (text : String) : blocks (stripTimeWords text).toList =
    (blocks text.toList).filter fun b => (wordOf b).isNone := by
  rw [toList_stripTimeWords]
  refine List.splitBy_flatten (fun h => ?_) (fun b h => ?_) (isChain_filter ?_ (apart_blocks _))
  · exact List.nil_notMem_splitBy _ _ (List.mem_of_mem_filter h)
  · exact List.isChain_of_mem_splitBy (List.mem_of_mem_filter h)
  · rintro x b y hkeep ⟨hx, hb, hnot⟩ ⟨-, hy, -⟩
    obtain ⟨word, hword⟩ := Option.isSome_iff_exists.mp (Option.isNone_eq_false_iff.mp hkeep)
    rw [(wordOf_eq_some.mp hword).hangul _ (List.head_mem hb), Bool.and_true] at hnot
    exact ⟨hx, hy, by rw [hnot, Bool.false_and]⟩

/-- What extraction and stripping do to a text. -/
structure TimeGrammar (text : String) : Prop where
  /-- The matches are the whole runs of the grammar. -/
  found : ∀ start run word, (start, run, word) ∈ finditer text ↔
    MaximalRun text.toList start run ∧ TimeRun word run
  ordered : (finditer text).Pairwise fun m m' => m.1 + m.2.1.length ≤ m'.1
  /-- The blocks of a text are its runs of syllables and its other letters. -/
  whole : (blocks text.toList).flatten = text.toList
  words : timeWords text = (((blocks text.toList).filterMap wordOf).map String.ofList).eraseDups
  once : (timeWords text).Nodup
  stripped : (stripTimeWords text).toList =
    ((blocks text.toList).filter fun b => (wordOf b).isNone).flatten
  clean : timeWords (stripTimeWords text) = []
  idempotent : stripTimeWords (stripTimeWords text) = stripTimeWords text

/-- **Time words form a grammar on which extraction and stripping agree.** -/
theorem timeGrammar (text : String) : TimeGrammar text where
  found := by
    intro start run word
    rw [finditer_eq, mem_foundOfPieces_cut, maximalRun_iff]
    simp only [Nat.zero_add, wordOf_eq_some]
    constructor
    · rintro ⟨pre, post, hblocks, hstart, htime⟩
      exact ⟨⟨pre, post, hblocks, hstart, htime.hangul⟩, htime⟩
    · rintro ⟨⟨pre, post, hblocks, hstart, -⟩, htime⟩
      exact ⟨pre, post, hblocks, hstart, htime⟩
  ordered := by
    rw [finditer_eq]
    exact foundOfPieces_cut_ordered 0 _
  whole := flatten_blocks _
  words := timeWords_eq text
  once := nodup_eraseDups _
  stripped := toList_stripTimeWords text
  clean := by
    have hnone : (blocks (stripTimeWords text).toList).filterMap wordOf = [] := by
      rw [blocks_stripTimeWords, List.filterMap_eq_nil_iff]
      intro b hb
      exact Option.isNone_iff_eq_none.mp (List.mem_filter.mp hb).2
    rw [timeWords_eq, hnone]
    rfl
  idempotent := by
    rw [← String.toList_inj, toList_stripTimeWords, blocks_stripTimeWords, List.filter_filter,
      toList_stripTimeWords]
    simp only [Bool.and_self]

example : timeWords "아침이랑 저녁 사진, 저녁 위주로" = ["아침", "저녁"] := by decide +kernel

end Yeodam.Search
