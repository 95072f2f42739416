/-
Cutting a text at a separator, and decimal numbers inside it.

`rsplitOnce` cuts at the last separator and `secondField` takes what stands between
the first two. A decimal number has neither `#` nor `:` in it, so a number put behind
a separator is read back whatever stands before it.

`strip` cuts the white space at both ends of a text and leaves none of a blank one.

The last part has the methods of Python's `str` that read a text of a model's call, which
may hold lone surrogates. The digits are those of Unicode 15, the version of Python 3.12.
-/

import Mathlib
import Yeodam.Lib.Json

namespace Yeodam.Lib

/-- The parts before and after the last `c`: `s.rsplit(c, 1)` where there is one. -/
def rsplitOnce (c : Char) (s : String) : Option (String × String) :=
  let reversed := s.toList.reverse
  match reversed.dropWhile fun x => x ≠ c with
  | [] => none
  | _ :: before =>
      some (.ofList before.reverse, .ofList (reversed.takeWhile fun x => x ≠ c).reverse)

/-- The part between the first and the second `c`: `s.split(c)[1]` where there is one. -/
def secondField (c : Char) (s : String) : Option String :=
  match s.toList.dropWhile fun x => x ≠ c with
  | [] => none
  | _ :: rest => some (.ofList (rest.takeWhile fun x => x ≠ c))

variable {c : Char} {s t u : String}

theorem rsplitOnce_append (h : c ∉ t.toList) :
    rsplitOnce c (s ++ .singleton c ++ t) = some (s, t) := by
  have hne : ∀ x ∈ t.toList.reverse, decide (x ≠ c) = true := by
    intro x hx
    exact decide_eq_true fun heq => h (heq ▸ List.mem_reverse.mp hx)
  have hlist : (s ++ .singleton c ++ t).toList.reverse =
      t.toList.reverse ++ c :: s.toList.reverse := by
    simp
  unfold rsplitOnce
  dsimp only
  rw [hlist, List.dropWhile_append_of_pos hne, List.takeWhile_append_of_pos hne]
  simp

theorem secondField_append (hs : c ∉ s.toList) (ht : c ∉ t.toList) :
    secondField c (s ++ .singleton c ++ t ++ .singleton c ++ u) = some t := by
  have hne : ∀ {v : String}, c ∉ v.toList → ∀ x ∈ v.toList, decide (x ≠ c) = true := by
    intro v hv x hx
    exact decide_eq_true fun heq => hv (heq ▸ hx)
  have hlist : (s ++ .singleton c ++ t ++ .singleton c ++ u).toList =
      s.toList ++ c :: (t.toList ++ c :: u.toList) := by
    simp
  unfold secondField
  rw [hlist, List.dropWhile_append_of_pos (hne hs)]
  simp only [ne_eq, not_true_eq_false, decide_false, Bool.false_eq_true, not_false_eq_true,
    List.dropWhile_cons_of_neg, Option.some.injEq]
  rw [List.takeWhile_append_of_pos (by simpa using hne ht)]
  simp

/-! ### Decimal numbers -/

/-- The characters of a decimal number. -/
theorem mem_toList_int {n : Int} {x : Char} (h : x ∈ (toString n).toList) :
    x.isDigit = true ∨ x = '-' := by
  have hdigits : ∀ {m : Nat} {x : Char}, x ∈ m.repr.toList → x.isDigit = true := by
    intro m x hx
    rw [Nat.toList_repr] at hx
    exact Nat.isDigit_of_mem_toDigits (by decide) (by decide) hx
  change x ∈ n.repr.toList at h
  rw [Int.repr_eq_if] at h
  split at h
  · exact .inl (hdigits h)
  · rw [String.toList_append, List.mem_append] at h
    rcases h with h | h
    · exact .inr (by simpa using h)
    · exact .inl (hdigits h)

theorem not_mem_toList_int {n : Int} (hdigit : c.isDigit = false) (hminus : c ≠ '-') :
    c ∉ (toString n).toList := by
  intro h
  rcases mem_toList_int h with h | h
  · rw [h] at hdigit
    cases hdigit
  · exact hminus h

theorem utf8ByteSize_le (s : String) : s.utf8ByteSize ≤ 4 * s.length := by
  have h : ∀ cs : List Char, String.utf8Len cs ≤ 4 * cs.length := by
    intro cs
    induction cs with
    | nil => simp
    | cons c cs ih =>
        have hc := c.utf8Size_le_four
        simp only [String.utf8Len_cons, List.length_cons]
        omega
  have hs := h s.toList
  rw [String.length_toList, ← String.utf8ByteSize_ofList, String.ofList_toList] at hs
  exact hs

theorem toInt?_toString (n : Int) : (toString n).toInt? = some n := Int.toInt?_repr n

theorem toString_int_injective {m n : Int} (h : toString m = toString n) : m = n :=
  Int.repr_injective h

/-! ### White space -/

/-- `c.isspace()` -/
def isSpace (c : Char) : Bool :=
  let n := c.toNat
  (9 ≤ n && n ≤ 13) || (28 ≤ n && n ≤ 32) || n = 0x85 || n = 0xA0 || n = 0x1680 ||
    (0x2000 ≤ n && n ≤ 0x200A) || n = 0x2028 || n = 0x2029 || n = 0x202F || n = 0x205F || n = 0x3000

/-- `s.strip()` -/
def strip (s : String) : String := .ofList ((s.toList.dropWhile isSpace).rdropWhile isSpace)

theorem strip_eq_empty : strip s = "" ↔ ∀ c ∈ s.toList, isSpace c = true := by
  rw [strip, ← String.toList_inj, String.toList_ofList, String.toList_empty,
    List.rdropWhile_eq_nil_iff]
  constructor
  · intro h c hc
    have hsplit := List.takeWhile_append_dropWhile (p := isSpace) (l := s.toList)
    rw [← hsplit] at hc
    rcases List.mem_append.mp hc with hc | hc
    · exact List.mem_takeWhile_imp hc
    · exact h c hc
  · exact fun h c hc => h c ((List.dropWhile_sublist _).subset hc)

/-- What is left is not blank. -/
theorem strip_strip (h : strip s ≠ "") : strip (strip s) ≠ "" := by
  intro hblank
  have hall := strip_eq_empty.mp hblank
  rw [strip, String.toList_ofList] at hall
  have hne : (s.toList.dropWhile isSpace).rdropWhile isSpace ≠ [] := by
    intro hnil
    exact h (by rw [strip, hnil])
  exact List.rdropWhile_last_not isSpace _ hne (hall _ (List.getLast_mem hne))

/-- `s.split()` -/
def splitSpace (s : String) : List String :=
  ((s.toList.splitOnP isSpace).filter fun part => part ≠ []).map String.ofList

/-! ### Texts that may hold lone surrogates -/

/-- The zeros of the decimal digits; the nine others of a script stand behind each. -/
def decimalZeros : List Nat :=
  [0x30, 0x660, 0x6F0, 0x7C0, 0x966, 0x9E6, 0xA66, 0xAE6, 0xB66, 0xBE6, 0xC66, 0xCE6, 0xD66,
    0xDE6, 0xE50, 0xED0, 0xF20, 0x1040, 0x1090, 0x17E0, 0x1810, 0x1946, 0x19D0, 0x1A80, 0x1A90,
    0x1B50, 0x1BB0, 0x1C40, 0x1C50, 0xA620, 0xA8D0, 0xA900, 0xA9D0, 0xA9F0, 0xAA50, 0xABF0,
    0xFF10, 0x104A0, 0x10D30, 0x11066, 0x110F0, 0x11136, 0x111D0, 0x112F0, 0x11450, 0x114D0,
    0x11650, 0x116C0, 0x11730, 0x118E0, 0x11950, 0x11C50, 0x11D50, 0x11DA0, 0x11F50, 0x16A60,
    0x16AC0, 0x16B50, 0x1D7CE, 0x1D7D8, 0x1D7E2, 0x1D7EC, 0x1D7F6, 0x1E140, 0x1E2F0, 0x1E4F0,
    0x1E950, 0x1FBF0]

/-- The first and last code points of the digits that are not decimal: superscripts, digits
in circles and the like. -/
def otherDigits : List (Nat × Nat) :=
  [(0xB2, 0xB3), (0xB9, 0xB9), (0x1369, 0x1371), (0x19DA, 0x19DA), (0x2070, 0x2070),
    (0x2074, 0x2079), (0x2080, 0x2089), (0x2460, 0x2468), (0x2474, 0x247C), (0x2488, 0x2490),
    (0x24EA, 0x24EA), (0x24F5, 0x24FD), (0x24FF, 0x24FF), (0x2776, 0x277E), (0x2780, 0x2788),
    (0x278A, 0x2792), (0x10A40, 0x10A43), (0x10E60, 0x10E68), (0x11052, 0x1105A),
    (0x1F100, 0x1F10A)]

/-- `unicodedata.decimal(c)`; none where it raises a `ValueError`. -/
def decimal? (c : Char) : Option Nat :=
  (decimalZeros.find? fun n => n ≤ c.toNat && c.toNat ≤ n + 9).map fun n => c.toNat - n

/-- `c.isdigit()` -/
def isDigitChar (c : Char) : Bool :=
  (decimal? c).isSome || otherDigits.any fun range => range.1 ≤ c.toNat && c.toNat ≤ range.2

/-- What `int` takes for white space: the separators U+001C to U+001F are none to it. -/
def isIntSpace (c : Char) : Bool := isSpace c && !(28 ≤ c.toNat && c.toNat ≤ 31)

/-- Digits, a single `_` allowed between two. Of more than 4300 it is a `ValueError`. -/
def readDigits (cs : List Char) : Option Nat := do
  let groups := cs.splitOn '_'
  if [] ∈ groups then none
  let digits ← groups.flatten.mapM decimal?
  if 4300 < digits.length then none
  return digits.foldl (fun n digit => 10 * n + digit) 0

namespace PyStr

/-- `s.strip()` -/
def strip : PyStr → PyStr
  | .text s => .text (Lib.strip s)
  | .surrogate codePoints =>
      let blank := fun n => isSpace (Char.ofNat n)
      .surrogate ((codePoints.dropWhile blank).rdropWhile blank)

/-- `s.isdigit()` -/
def isDigit : PyStr → Bool
  | .text s => s ≠ "" && s.toList.all isDigitChar
  | .surrogate _ => false

/-- `int(s)`; none where it raises a `ValueError`. -/
def toInt? : PyStr → Option Int
  | .surrogate _ => none
  | .text s =>
      match (s.toList.dropWhile isIntSpace).rdropWhile isIntSpace with
      | '-' :: digits => (readDigits digits).map fun n => -(n : Int)
      | '+' :: digits => (readDigits digits).map fun n => (n : Int)
      | digits => (readDigits digits).map fun n => (n : Int)

end PyStr

end Yeodam.Lib
