import Reshape.Json.Basic

/-! # JSON as text

The compact form has no blanks. The pretty form puts every item and every field on a line of its
own, two spaces deeper than what holds it; an empty array or object stays on one line. -/

namespace Reshape.Json

/-- The escape of a control character without a short one. -/
def controlEscape (c : Char) : String :=
  let digit := fun n => String.singleton (Nat.digitChar n)
  "\\u00" ++ digit (c.toNat / 16) ++ digit (c.toNat % 16)

/-- A character of a string as it is written between quotes. -/
def escape (c : Char) : String :=
  match c with
  | '"' => "\\\""
  | '\\' => "\\\\"
  | '\n' => "\\n"
  | '\r' => "\\r"
  | '\t' => "\\t"
  | '\x08' => "\\b"
  | '\x0c' => "\\f"
  | c => if c.toNat < 32 then controlEscape c else String.singleton c

/-- A string in quotes. -/
def quoted (text : String) : String :=
  text.foldl (fun written c => written ++ escape c) "\"" ++ "\""

mutual

/-- The compact form of a value. -/
def compact : Json → String
  | null => "null"
  | bool value => if value then "true" else "false"
  | number numeral => numeral
  | string value => quoted value
  | array items => "[" ++ ",".intercalate (compactItems items) ++ "]"
  | object fields => "\x7b" ++ ",".intercalate (compactFields fields) ++ "\x7d"

/-- The compact forms of the items of an array. -/
def compactItems : List Json → List String
  | [] => []
  | item :: rest => compact item :: compactItems rest

/-- The compact forms of the fields of an object. -/
def compactFields : List (String × Json) → List String
  | [] => []
  | (name, value) :: rest => (quoted name ++ ":" ++ compact value) :: compactFields rest

end

/-- The start of a line at a depth. -/
def margin (depth : Nat) : String :=
  "\n" ++ String.ofList (List.replicate (2 * depth) ' ')

/-- Entries between brackets, each on a line of its own. -/
def block (depth : Nat) (opening closing : String) (entries : List String) : String :=
  if entries.isEmpty then opening ++ closing
  else
    opening ++ margin (depth + 1) ++ ("," ++ margin (depth + 1)).intercalate entries
      ++ margin depth ++ closing

mutual

/-- The pretty form of a value at a depth. -/
def prettyAt (depth : Nat) : Json → String
  | null => "null"
  | bool value => if value then "true" else "false"
  | number numeral => numeral
  | string value => quoted value
  | array items => block depth "[" "]" (prettyItems (depth + 1) items)
  | object fields => block depth "\x7b" "\x7d" (prettyFields (depth + 1) fields)

/-- The pretty forms of the items of an array. -/
def prettyItems (depth : Nat) : List Json → List String
  | [] => []
  | item :: rest => prettyAt depth item :: prettyItems depth rest

/-- The pretty forms of the fields of an object. -/
def prettyFields (depth : Nat) : List (String × Json) → List String
  | [] => []
  | (name, value) :: rest =>
    (quoted name ++ ": " ++ prettyAt depth value) :: prettyFields depth rest

end

/-- The pretty form of a value. -/
def pretty (json : Json) : String :=
  prettyAt 0 json

end Reshape.Json
