import Reshape.Json.Numeral

/-! # Records in JSON

A record is an object with its fields in any order, or an array with the values of its fields in the
order of their declaration. An object may have more fields than are asked for, but none of these
twice. -/

namespace Reshape.Json

/-- The number of fields of a name. -/
def occurrences (fields : List (String × Json)) (name : String) : Nat :=
  (fields.filter (·.1 == name)).length

/-- The values of the fields of a record, in the order of `names`; a missing field has none. -/
def fields? (names : List String) : Json → Option (List (Option Json))
  | object fields =>
    if names.all fun name => occurrences fields name ≤ 1 then
      some (names.map fun name => fields.lookup name)
    else none
  | array items =>
    if items.length ≤ names.length then
      some (items.map some ++ List.replicate (names.length - items.length) none)
    else none
  | _ => none

/-- The values of the fields of a record that has them all, in the order of `names`. -/
def allFields? (names : List String) (json : Json) : Option (List Json) := do
  let values ← json.fields? names
  values.mapM id

/-- The texts of an array of strings. -/
def strings? (json : Json) : Option (List String) := do
  let items ← json.array?
  items.mapM string?

/-- A value that may be missing or null. -/
def nullable? {α : Type} (read : Json → Option α) : Option Json → Option (Option α)
  | none | some null => some none
  | some json => (read json).map some

end Reshape.Json
