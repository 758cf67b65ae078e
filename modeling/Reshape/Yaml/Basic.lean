import Reshape.Number.Numeral

/-! # YAML values

A YAML value keeps its scalars as texts. Whether a scalar stands without quotes is kept with it,
since only such a scalar can be a number or a truth value. -/

namespace Reshape

/-- A YAML value. -/
inductive Yaml where
  /-- A scalar without quotes. -/
  | plain (text : String)
  /-- A scalar in quotes or in a block of its own. -/
  | quoted (text : String)
  | sequence (items : List Yaml)
  | mapping (entries : List (Yaml × Yaml))
  deriving Repr, BEq, Inhabited

namespace Yaml

/-- What stands where nothing is written. -/
def empty : Yaml := plain ""

/-- A truth value. -/
def ofBool (value : Bool) : Yaml := plain (toString value)

/-- A natural number. -/
def ofNat (n : Nat) : Yaml := plain (toString n)

/-- A float. -/
def ofFloat (x : Float) : Yaml :=
  if Number.isFinite x then plain (Number.text x)
  else if x.isNaN then plain ".nan"
  else if x < 0 then plain "-.inf"
  else plain ".inf"

/-- The text of a scalar. -/
def string? : Yaml → Option String
  | plain text | quoted text => some text
  | _ => none

end Yaml

end Reshape
