/-
JSON-like values of a dynamically typed program, and what a JSON text keeps of
them.

`Value` is what `json.loads` can return and what a `dict[str, Any]` can hold. It
is larger than what a UTF-8 JSON text can say: a string may carry an unpaired
surrogate, a number may be NaN or infinite. These measures say how a value fares
in a text:

* `Value.depth`, the containers on the way to the innermost value, an empty one
  counted too, which recursive codecs bound;
* `Value.nesting`, the containers that stand around the innermost value, for
  codecs that do not descend into an empty one;
* `Value.encodable`, no unpaired surrogate anywhere, and `Value.finite`, no NaN
  or infinity anywhere;
* `Value.byteSize`, the UTF-8 length of the compact text.

`Value.wire` is the value a permissive encoder really writes: NaN and the
infinities become `null`, everything else is kept.
-/

import Mathlib.Algebra.GroupWithZero.Nat
import Mathlib.Data.Nat.Notation

namespace Yeodam.Lib

/-- A string: Unicode text, or code points with an unpaired surrogate among
them, which no UTF-8 encoder accepts. -/
inductive PyStr where
  | text (s : String)
  | surrogate (codePoints : List Nat)
deriving DecidableEq, Repr

/-- A float. A finite one is kept as the text that denotes it, its shortest
representation. -/
inductive PyFloat where
  | finite (repr : String)
  | nan
  | inf
  | negInf
deriving DecidableEq, Repr

inductive Value where
  | null
  | bool (b : Bool)
  | int (n : Int)
  | float (x : PyFloat)
  | str (s : PyStr)
  | arr (xs : List Value)
  | obj (fields : List (PyStr × Value))
deriving Repr

def PyStr.encodable : PyStr → Bool
  | .text _ => true
  | .surrogate _ => false

def PyFloat.isFinite : PyFloat → Bool
  | .finite _ => true
  | _ => false

/-- Bytes one character takes inside a JSON string: two for a short escape, six
for another control character, its UTF-8 length otherwise. -/
def charSize (c : Char) : Nat :=
  if c = '"' ∨ c = '\\' ∨ c = '\n' ∨ c = '\r' ∨ c = '\t' ∨ c.toNat = 8 ∨ c.toNat = 12 then 2
  else if c.toNat < 32 then 6
  else c.utf8Size

/-- Bytes of a quoted JSON string. -/
def textSize (s : String) : Nat :=
  2 + (s.toList.map charSize).sum

def PyStr.byteSize : PyStr → Nat
  | .text s => textSize s
  | .surrogate _ => 2

theorem charSize_le (c : Char) : charSize c ≤ 6 := by
  have h := c.utf8Size_le_four
  unfold charSize
  split
  · omega
  split <;> omega

/-- A quoted text takes six bytes for a character at most. -/
theorem textSize_le (s : String) : textSize s ≤ 2 + 6 * s.length := by
  have h : ∀ cs : List Char, (cs.map charSize).sum ≤ 6 * cs.length := by
    intro cs
    induction cs with
    | nil => simp
    | cons c cs ih =>
        have hc := charSize_le c
        simp only [List.map_cons, List.sum_cons, List.length_cons]
        omega
  have hs := h s.toList
  rw [String.length_toList] at hs
  unfold textSize
  omega

namespace Value

mutual
/-- Container nesting: 0 for a scalar, one more than the deepest member for an
array or an object. -/
def depth : Value → Nat
  | .arr xs => 1 + depthList xs
  | .obj fields => 1 + depthFields fields
  | _ => 0

def depthList : List Value → Nat
  | [] => 0
  | x :: xs => max (depth x) (depthList xs)

def depthFields : List (PyStr × Value) → Nat
  | [] => 0
  | (_, x) :: fields => max (depth x) (depthFields fields)
end

mutual
/-- How many containers stand around the innermost value: 0 for a scalar and for an
empty container, one more than the deepest member for another. -/
def nesting : Value → Nat
  | .arr xs => nestingList xs
  | .obj fields => nestingFields fields
  | _ => 0

def nestingList : List Value → Nat
  | [] => 0
  | x :: xs => max (1 + nesting x) (nestingList xs)

def nestingFields : List (PyStr × Value) → Nat
  | [] => 0
  | (_, x) :: fields => max (1 + nesting x) (nestingFields fields)
end

mutual
/-- No unpaired surrogate in any string or key. -/
def encodable : Value → Bool
  | .str s => s.encodable
  | .arr xs => encodableList xs
  | .obj fields => encodableFields fields
  | _ => true

def encodableList : List Value → Bool
  | [] => true
  | x :: xs => encodable x && encodableList xs

def encodableFields : List (PyStr × Value) → Bool
  | [] => true
  | (k, x) :: fields => k.encodable && encodable x && encodableFields fields
end

mutual
/-- No NaN and no infinity. -/
def finite : Value → Bool
  | .float x => x.isFinite
  | .arr xs => finiteList xs
  | .obj fields => finiteFields fields
  | _ => true

def finiteList : List Value → Bool
  | [] => true
  | x :: xs => finite x && finiteList xs

def finiteFields : List (PyStr × Value) → Bool
  | [] => true
  | (_, x) :: fields => finite x && finiteFields fields
end

mutual
/-- The value a permissive encoder writes: a float that is not finite becomes
`null`. -/
def wire : Value → Value
  | .float x => if x.isFinite then .float x else .null
  | .arr xs => .arr (wireList xs)
  | .obj fields => .obj (wireFields fields)
  | v => v

def wireList : List Value → List Value
  | [] => []
  | x :: xs => wire x :: wireList xs

def wireFields : List (PyStr × Value) → List (PyStr × Value)
  | [] => []
  | (k, x) :: fields => (k, wire x) :: wireFields fields
end

mutual
/-- UTF-8 length of the compact JSON text. -/
def byteSize : Value → Nat
  | .null => 4
  | .bool b => if b then 4 else 5
  | .int n => (toString n).utf8ByteSize
  | .float (.finite repr) => repr.utf8ByteSize
  | .float _ => 4
  | .str s => s.byteSize
  | .arr xs => 2 + byteSizeList xs + (xs.length - 1)
  | .obj fields => 2 + byteSizeFields fields + (fields.length - 1)

def byteSizeList : List Value → Nat
  | [] => 0
  | x :: xs => byteSize x + byteSizeList xs

def byteSizeFields : List (PyStr × Value) → Nat
  | [] => 0
  | (k, x) :: fields => k.byteSize + 1 + byteSize x + byteSizeFields fields
end

/-- `dict.get`: the value under a key, if the value is an object that has it. -/
def get? (key : String) : Value → Option Value
  | .obj fields => (fields.find? fun f => f.1 = .text key).map Prod.snd
  | _ => none

/-- The members of an array; other values have none. -/
def items : Value → List Value
  | .arr xs => xs
  | _ => []

def isObj : Value → Bool
  | .obj _ => true
  | _ => false

/-- A string value that is plain Unicode text. -/
def ofString (s : String) : Value := .str (.text s)

/-- An object with plain text keys. -/
def record (fields : List (String × Value)) : Value :=
  .obj (fields.map fun f => (.text f.1, f.2))

/-! ### A finite value is written as it is -/

mutual
theorem wire_of_finite : ∀ {v : Value}, v.finite = true → v.wire = v
  | .null, _ | .bool _, _ | .int _, _ | .str _, _ => rfl
  | .float x, h => by simp only [finite] at h; simp [wire, h]
  | .arr xs, h => by
      simp only [finite] at h
      simp [wire, wireList_of_finite h]
  | .obj fields, h => by
      simp only [finite] at h
      simp [wire, wireFields_of_finite h]

theorem wireList_of_finite : ∀ {xs : List Value}, finiteList xs = true → wireList xs = xs
  | [], _ => rfl
  | x :: xs, h => by
      simp only [finiteList, Bool.and_eq_true] at h
      simp [wireList, wire_of_finite h.1, wireList_of_finite h.2]

theorem wireFields_of_finite :
    ∀ {fields : List (PyStr × Value)}, finiteFields fields = true → wireFields fields = fields
  | [], _ => rfl
  | (k, x) :: fields, h => by
      simp only [finiteFields, Bool.and_eq_true] at h
      simp [wireFields, wire_of_finite h.1, wireFields_of_finite h.2]
end

/-! ### What is written is finite, and as large as before -/

mutual
@[simp] theorem finite_wire : ∀ v : Value, v.wire.finite = true
  | .null | .bool _ | .int _ | .str _ => rfl
  | .float x => by
      cases hx : x.isFinite <;> simp [wire, finite, hx]
  | .arr xs => by simp [wire, finite, finite_wireList xs]
  | .obj fields => by simp [wire, finite, finite_wireFields fields]

theorem finite_wireList : ∀ xs : List Value, finiteList (wireList xs) = true
  | [] => rfl
  | x :: xs => by simp [wireList, finiteList, finite_wire x, finite_wireList xs]

theorem finite_wireFields :
    ∀ fields : List (PyStr × Value), finiteFields (wireFields fields) = true
  | [] => rfl
  | (k, x) :: fields => by
      simp [wireFields, finiteFields, finite_wire x, finite_wireFields fields]
end

@[simp] theorem wire_wire (v : Value) : v.wire.wire = v.wire := wire_of_finite (finite_wire v)

mutual
@[simp] theorem nesting_wire : ∀ v : Value, v.wire.nesting = v.nesting
  | .null | .bool _ | .int _ | .str _ => rfl
  | .float x => by
      cases hx : x.isFinite <;> simp [wire, nesting, hx]
  | .arr xs => by simp [wire, nesting, nesting_wireList xs]
  | .obj fields => by simp [wire, nesting, nesting_wireFields fields]

theorem nesting_wireList : ∀ xs : List Value, nestingList (wireList xs) = nestingList xs
  | [] => rfl
  | x :: xs => by simp [wireList, nestingList, nesting_wire x, nesting_wireList xs]

theorem nesting_wireFields :
    ∀ fields : List (PyStr × Value), nestingFields (wireFields fields) = nestingFields fields
  | [] => rfl
  | (k, x) :: fields => by
      simp [wireFields, nestingFields, nesting_wire x, nesting_wireFields fields]
end

mutual
@[simp] theorem encodable_wire : ∀ v : Value, v.wire.encodable = v.encodable
  | .null | .bool _ | .int _ | .str _ => rfl
  | .float x => by
      cases hx : x.isFinite <;> simp [wire, encodable, hx]
  | .arr xs => by simp [wire, encodable, encodable_wireList xs]
  | .obj fields => by simp [wire, encodable, encodable_wireFields fields]

theorem encodable_wireList : ∀ xs : List Value, encodableList (wireList xs) = encodableList xs
  | [] => rfl
  | x :: xs => by simp [wireList, encodableList, encodable_wire x, encodable_wireList xs]

theorem encodable_wireFields : ∀ fields : List (PyStr × Value),
    encodableFields (wireFields fields) = encodableFields fields
  | [] => rfl
  | (k, x) :: fields => by
      simp [wireFields, encodableFields, encodable_wire x, encodable_wireFields fields]
end

theorem length_wireList (xs : List Value) : (wireList xs).length = xs.length := by
  induction xs with
  | nil => rfl
  | cons x xs ih => simp [wireList, ih]

theorem length_wireFields (fields : List (PyStr × Value)) :
    (wireFields fields).length = fields.length := by
  induction fields with
  | nil => rfl
  | cons f fields ih => simp [wireFields, ih]

/-- A field is written as its value is. -/
theorem get?_wire (key : String) (v : Value) : v.wire.get? key = (v.get? key).map wire := by
  cases v with
  | null | bool | int | str | arr => rfl
  | float x => cases hx : x.isFinite <;> simp [wire, get?, hx]
  | obj fields =>
      simp only [wire, get?]
      induction fields with
      | nil => rfl
      | cons f fields ih =>
          obtain ⟨k, x⟩ := f
          by_cases hk : k = .text key
          · simp [wireFields, hk]
          · simpa [wireFields, hk] using ih

theorem length_items_wire (v : Value) : v.wire.items.length = v.items.length := by
  cases v with
  | null | bool | int | str | obj => rfl
  | float x => cases hx : x.isFinite <;> simp [wire, items, hx]
  | arr xs => exact length_wireList xs

mutual
@[simp] theorem byteSize_wire : ∀ v : Value, v.wire.byteSize = v.byteSize
  | .null | .bool _ | .int _ | .str _ => rfl
  | .float x => by
      cases x <;> rfl
  | .arr xs => by simp [wire, byteSize, byteSize_wireList xs, length_wireList]
  | .obj fields => by simp [wire, byteSize, byteSize_wireFields fields, length_wireFields]

theorem byteSize_wireList : ∀ xs : List Value, byteSizeList (wireList xs) = byteSizeList xs
  | [] => rfl
  | x :: xs => by simp [wireList, byteSizeList, byteSize_wire x, byteSize_wireList xs]

theorem byteSize_wireFields : ∀ fields : List (PyStr × Value),
    byteSizeFields (wireFields fields) = byteSizeFields fields
  | [] => rfl
  | (k, x) :: fields => by
      simp [wireFields, byteSizeFields, byteSize_wire x, byteSize_wireFields fields]
end

end Value

end Yeodam.Lib
