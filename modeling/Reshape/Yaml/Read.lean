import Reshape.Yaml.Text

/-! # Reading YAML

The part of YAML that configurations are written in: block and bracketed collections, plain and
quoted scalars, literal blocks and comments, in a single document. Anchors, tags, directives and
keys of more than one line are refused. -/

namespace Reshape.Yaml

/-- Whether a colon that ends a key follows in the line. -/
def keyFollows (brackets : Bool) (start after : Cursor) : Option Cursor :=
  let colon := after.rest.dropWhile isBlank
  match colon with
  | ':' :: rest =>
    if start.line = after.line ∧ (brackets ∨ endsWord rest) then some (after.moveTo rest) else none
  | _ => none

/-- Whether a colon stands where no key can end. -/
def straysColon (after : Cursor) : Bool :=
  match after.rest.dropWhile isBlank with
  | ':' :: rest => endsWord rest
  | _ => false

mutual

/-- A value within brackets. -/
def bracketNode? : Nat → Cursor → Option (Yaml × Cursor)
  | 0, _ => none
  | fuel + 1, cursor =>
    match cursor.rest with
    | '[' :: _ => bracketSequence? fuel [] (cursor.advance 1)
    | '\x7b' :: _ => bracketMapping? fuel [] (cursor.advance 1)
    | '\'' :: rest => do
      let (text, after) ← quoted? '\'' rest
      some (quoted (String.ofList text), cursor.moveTo after)
    | '"' :: rest => do
      let (text, after) ← quoted? '"' rest
      some (quoted (String.ofList text), cursor.moveTo after)
    | chars =>
      if startsPlain true chars then do
        let (text, after) ← plain? true 0 (chars.length + 1) chars
        some (plain (String.ofList text), cursor.moveTo after)
      else none

/-- The value behind a key within brackets; it may be left out. -/
def bracketValue? : Nat → Cursor → Option (Yaml × Cursor)
  | 0, _ => none
  | fuel + 1, cursor => do
    let next ← cursor.skip true
    match next.rest with
    | ',' :: _ | ']' :: _ | '\x7d' :: _ => some (empty, next)
    | _ => bracketNode? fuel next

/-- The rest of a sequence in brackets, where `items` have been read, the last of them first. -/
def bracketSequence? : Nat → List Yaml → Cursor → Option (Yaml × Cursor)
  | 0, _, _ => none
  | fuel + 1, items, cursor => do
    let next ← cursor.skip true
    match next.rest with
    | ']' :: rest => some (sequence items.reverse, next.moveTo rest)
    | _ => do
      let (key, after) ← bracketNode? fuel next
      let (item, after) ← match keyFollows true next after with
        | some after => do
          let (value, after) ← bracketValue? fuel after
          some (mapping [(key, value)], after)
        | none => some (key, after)
      let after ← after.skip true
      match after.rest with
      | ',' :: rest => bracketSequence? fuel (item :: items) (after.moveTo rest)
      | ']' :: rest => some (sequence (item :: items).reverse, after.moveTo rest)
      | _ => none

/-- The rest of a mapping in brackets, where `entries` have been read, the last of them first. -/
def bracketMapping? : Nat → List (Yaml × Yaml) → Cursor → Option (Yaml × Cursor)
  | 0, _, _ => none
  | fuel + 1, entries, cursor => do
    let next ← cursor.skip true
    match next.rest with
    | '\x7d' :: rest => some (mapping entries.reverse, next.moveTo rest)
    | _ => do
      let (key, after) ← bracketNode? fuel next
      let (value, after) ← match keyFollows true next after with
        | some after => bracketValue? fuel after
        | none => some (empty, after)
      let after ← after.skip true
      match after.rest with
      | ',' :: rest => bracketMapping? fuel ((key, value) :: entries) (after.moveTo rest)
      | '\x7d' :: rest => some (mapping ((key, value) :: entries).reverse, after.moveTo rest)
      | _ => none

end

/-- A value that is no block collection. Its lines after the first start in column `least` or behind
it. -/
def inline? (least : Nat) (cursor : Cursor) : Option (Yaml × Cursor) :=
  match cursor.rest with
  | '|' :: rest => do
    let (text, after) ← literal? least rest
    some (quoted (String.ofList text), cursor.moveTo after)
  | chars =>
    if startsPlain false chars then do
      let (text, after) ← plain? false least (chars.length + 1) chars
      some (plain (String.ofList text), cursor.moveTo after)
    else bracketNode? (4 * chars.length + 4) cursor

mutual

/-- A value that starts in column `least` or behind it; else there is none. -/
def node? : Nat → Nat → Cursor → Option (Yaml × Cursor)
  | 0, _, _ => none
  | fuel + 1, least, cursor =>
    if cursor.atEnd || cursor.column < least then some (empty, cursor)
    else if cursor.atEntry then
      if cursor.fresh then blockSequence? fuel cursor.column [] cursor else none
    else do
      let (value, after) ← inline? least cursor
      match keyFollows false cursor after with
      | some after =>
        if cursor.fresh then blockMapping? fuel cursor.column [] value after else none
      | none => if straysColon after then none else some (value, after)

/-- The rest of a block sequence in a column, from the mark of an entry on, where `items` have been
read, the last of them first. -/
def blockSequence? : Nat → Nat → List Yaml → Cursor → Option (Yaml × Cursor)
  | 0, _, _, _ => none
  | fuel + 1, column, items, cursor => do
    let next ← Cursor.skip false { cursor.advance 1 with fresh := true }
    let (item, after) ← node? fuel (column + 1) next
    let items := item :: items
    let next ← after.skip false
    if next.atEnd || next.column < column then some (sequence items.reverse, next)
    else if next.column > column || !next.fresh then none
    else if next.atEntry then blockSequence? fuel column items next
    else some (sequence items.reverse, next)

/-- The rest of a block mapping in a column, from the value of a key on, where `entries` have been
read, the last of them first. -/
def blockMapping? : Nat → Nat → List (Yaml × Yaml) → Yaml → Cursor → Option (Yaml × Cursor)
  | 0, _, _, _, _ => none
  | fuel + 1, column, entries, key, cursor => do
    let next ← cursor.skip false
    let (value, after) ←
      if next.fresh && next.column == column && next.atEntry && !next.atEnd then
        blockSequence? fuel column [] next
      else node? fuel (column + 1) next
    let entries := (key, value) :: entries
    let next ← after.skip false
    if next.atEnd || next.column < column then some (mapping entries.reverse, next)
    else if next.column > column || !next.fresh || next.atEntry then none
    else do
      let (key, after) ← inline? (column + 1) next
      let after ← keyFollows false next after
      blockMapping? fuel column entries key after

end

/-- Whether a character may stand in a YAML text. -/
def isAllowed (c : Char) : Bool :=
  let n := c.toNat
  n == 0x09 || n == 0x0A || n == 0x0D || (0x20 ≤ n && n ≤ 0x7E) || n == 0x85
    || (0xA0 ≤ n && n ≤ 0xD7FF) || (0xE000 ≤ n && n ≤ 0xFFFD && n != 0xFEFF) || 0x10000 ≤ n

/-- A text with each end of a line written as a line feed. -/
def unifyBreaks : List Char → List Char
  | [] => []
  | '\r' :: '\n' :: rest => '\n' :: unifyBreaks rest
  | c :: rest => (if c = '\r' || c = '\u0085' then '\n' else c) :: unifyBreaks rest

/-- The value of the only document of a text. -/
def read? (text : String) : Option Yaml := do
  let chars := match text.toList with
    | '\ufeff' :: rest => rest
    | chars => chars
  if chars.all isAllowed then
    let chars := unifyBreaks chars
    let fuel := 4 * chars.length + 4
    let start ← Cursor.skip false { rest := chars }
    let start ← if start.column == 0 && isDocumentMark '-' start.rest then
        Cursor.skip false { start.advance 3 with fresh := false }
      else some start
    let (value, after) ← node? fuel 0 start
    let after ← after.skip false
    let after ← if after.column == 0 && isDocumentMark '.' after.rest then
        Cursor.skip false { after.advance 3 with fresh := false }
      else some after
    if after.rest.isEmpty then some value else none
  else none

end Reshape.Yaml
