import Reshape.Number.Numeral

/-! # JSON values

A JSON value keeps its numbers as they are written and its fields in their order, repeated names
included; what they mean is decided where they are used. -/

namespace Reshape

/-- A JSON value. -/
inductive Json where
  | null
  | bool (value : Bool)
  /-- A number, as it is written. -/
  | number (numeral : String)
  | string (value : String)
  | array (items : List Json)
  | object (fields : List (String × Json))
  deriving Repr, BEq, Inhabited

namespace Json

/-- A natural number. -/
def ofNat (n : Nat) : Json := number (toString n)

/-- A float; JSON has no word for those that are not finite. -/
def ofFloat (x : Float) : Json :=
  if Number.isFinite x then number (Number.text x) else null

/-- A value that may be missing. -/
def ofOption {α : Type} (f : α → Json) : Option α → Json
  | none => null
  | some a => f a

/-- A list of values. -/
def ofList {α : Type} (f : α → Json) (items : List α) : Json :=
  array (items.map f)

/-- The first field of a name. -/
def field? (name : String) : Json → Option Json
  | object fields => fields.lookup name
  | _ => none

/-- The text of a string. -/
def string? : Json → Option String
  | string value => some value
  | _ => none

/-- The items of an array. -/
def array? : Json → Option (List Json)
  | array items => some items
  | _ => none

/-- The truth value. -/
def bool? : Json → Option Bool
  | bool value => some value
  | _ => none

/-- Whether there is no value. -/
def isNull : Json → Bool
  | null => true
  | _ => false

end Json

end Reshape
