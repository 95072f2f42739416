/-
What the schemas take from pydantic and the zone data, and the shapes a model class is
built from.

`Libraries` holds the scalar validators and renderers, which are not code of this
repository. A model class is then a decoder `Value → Option α` put together from the
shapes below, one `required` or `optional` for each field, and a renderer `α → Value`.
-/

import Yeodam.Lib.Json

namespace Yeodam.Schemas

open Yeodam.Lib

universe u

/-- A date and time with its offset from UTC. -/
structure AwareTime where
  /-- Microseconds on the local clock, from the start of 1970. -/
  wall : Int
  /-- Seconds east of UTC. -/
  offset : Int
deriving DecidableEq, Repr

/-- Microseconds from the start of 1970 in UTC. -/
def AwareTime.instant (t : AwareTime) : Int := t.wall - t.offset * 1000000

/-- `datetime.min` and `datetime.max` on a wall clock, in microseconds from the start of
1970. -/
def datetimeMin : Int := -62135596800000000
def datetimeMax : Int := 253402300799999999

/-- The wall clock is one of the years 1 to 9999. -/
def representable (wall : Int) : Bool := datetimeMin ≤ wall && wall ≤ datetimeMax

theorem representable_iff {wall : Int} :
    representable wall = true ↔ datetimeMin ≤ wall ∧ wall ≤ datetimeMax := by
  simp [representable]

/-- Lax validation and JSON rendering of scalars, and the zone data of Asia/Seoul. -/
structure Libraries where
  int : Value → Option Int
  float : Value → Option PyFloat
  /-- Days from the start of 1970. -/
  date : Value → Option Int
  awareDatetime : Value → Option AwareTime
  renderDate : Int → String
  renderTime : AwareTime → String
  /-- Seconds east of UTC at an instant. -/
  seoulOffset : Int → Int

variable {α : Type u}

/-- `str`: an unpaired surrogate is not one. -/
def str : Value → Option String
  | .str (.text s) => some s
  | _ => none

/-- `bool`, from JSON. -/
def bool : Value → Option Bool
  | .bool b => some b
  | _ => none

/-- A constraint on a decoded value. -/
def constrained (decode : Value → Option α) (ok : α → Bool) (v : Value) : Option α :=
  (decode v).filter ok

/-- `X | None`. -/
def nullable (decode : Value → Option α) : Value → Option (Option α)
  | .null => some none
  | v => (decode v).map some

/-- `list[X]`. -/
def listOf (decode : Value → Option α) : Value → Option (List α)
  | .arr xs => xs.mapM decode
  | _ => none

/-- An enumeration, by its texts. -/
def oneOf (members : List (String × α)) (v : Value) : Option α :=
  (str v).bind fun s => members.lookup s

/-- A field without a default. -/
def required (decode : Value → Option α) (key : String) (v : Value) : Option α :=
  (v.get? key).bind decode

/-- A field with a default. -/
def optional (default : α) (decode : Value → Option α) (key : String) (v : Value) : Option α :=
  match v.get? key with
  | none => some default
  | some x => decode x

/-- A model is read from an object. -/
def model (decode : Value → Option α) (v : Value) : Option α :=
  if v.isObj then decode v else none

/-- `extra="forbid"`: the object has no other keys. -/
def onlyKeys (keys : List String) : Value → Bool
  | .obj fields => fields.all fun f => keys.any fun key => f.1 = .text key
  | _ => true

/-! ### Rendering -/

/-- `null` for an absent value. -/
def orNull (render : α → Value) : Option α → Value
  | none => .null
  | some x => render x

def renderList (render : α → Value) (xs : List α) : Value := .arr (xs.map render)

/-! Where a serializer of the model may raise, `none` says that it does. -/

def orNull? (render : α → Option Value) : Option α → Option Value
  | none => some .null
  | some x => render x

def renderList? (render : α → Option Value) (xs : List α) : Option Value :=
  (xs.mapM render).map .arr

end Yeodam.Schemas
