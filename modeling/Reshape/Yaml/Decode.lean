import Reshape.Yaml.Read

/-! # Records in YAML

A record is a mapping with its fields in any order, or a sequence with the values of its fields in
the order of their declaration. Where nothing is written, a record has no field and a list no
item. -/

namespace Reshape.Yaml

/-- The values of the entries of a mapping with a name as key. -/
def valuesOf (entries : List (Yaml × Yaml)) (name : String) : List Yaml :=
  entries.filterMap fun (key, value) => if key.string? = some name then some value else none

/-- The values of the fields of a record, in the order of `names`; a missing field has none. -/
def fields? (names : List String) : Yaml → Option (List (Option Yaml))
  | mapping entries =>
    if entries.all (·.1.string?.isSome)
        && names.all fun name => (valuesOf entries name).length ≤ 1 then
      some (names.map fun name => (valuesOf entries name).head?)
    else none
  | sequence items =>
    if items.length ≤ names.length then
      some (items.map some ++ List.replicate (names.length - items.length) none)
    else none
  | plain text => if text.isEmpty then some (names.map fun _ => none) else none
  | quoted _ => none

/-- The texts of a sequence of scalars. -/
def strings? : Yaml → Option (List String)
  | sequence items => items.mapM string?
  | plain text => if text.isEmpty then some [] else none
  | _ => none

/-- The truth value of a scalar without quotes. -/
def bool? : Yaml → Option Bool
  | plain text => Scalar.bool? text
  | _ => none

/-- The natural number of a scalar without quotes, if it fits into 64 bits. -/
def nat? : Yaml → Option Nat
  | plain text => (Scalar.nat? text).filter (· < Nat.pow 2 64)
  | _ => none

/-- The float of a scalar without quotes. -/
def float? : Yaml → Option Float
  | plain text => Scalar.float? text
  | _ => none

end Reshape.Yaml
