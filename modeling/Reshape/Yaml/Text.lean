import Reshape.Yaml.Cursor
import Reshape.Yaml.Scalar

/-! # Reading YAML scalars

The three ways to write a text: plain, in quotes, and as a literal block. A line end within a plain
or a quoted text is a blank, and further ones are kept. Each reader gives the text and what follows
it. -/

namespace Reshape.Yaml

/-- What `breaks` ends of lines between two lines of a text stand for. -/
def foldBreaks (breaks : Nat) : List Char :=
  if breaks = 1 then [' '] else List.replicate (breaks - 1) '\n'

/-- The marks of collections in brackets. -/
def isBracketMark (c : Char) : Bool := [',', '[', ']', '\x7b', '\x7d'].contains c

/-- Whether a plain text may start here. -/
def startsPlain (brackets : Bool) : List Char → Bool
  | [] => false
  | c :: rest =>
    if c = '-' then !endsWord rest
    else if c = '?' ∨ c = ':' then !brackets && !endsWord rest
    else !(isBlank c || c = '\n' || isBracketMark c
      || ['#', '&', '*', '!', '|', '>', '\'', '"', '%', '@', '\x60'].contains c)

/-- The part of a plain text in one line, blanks at its end included, and what follows. The text
ends before a colon at the end of a word and before a comment. -/
def plainLine? (brackets : Bool) (previous : Char) :
    List Char → Option (List Char × List Char)
  | [] => some ([], [])
  | c :: rest =>
    if c = '\n' ∨ (c = ':' ∧ endsWord rest) ∨ (c = '#' ∧ isBlank previous)
        ∨ (brackets ∧ isBracketMark c) then
      some ([], c :: rest)
    else if brackets ∧ c = ':' ∧ rest.head?.any fun d => d = '?' || isBracketMark d then none
    else do
      let (line, rest) ← plainLine? brackets c rest
      some (c :: line, rest)

/-- The number of line ends up to the next line that is not blank, its indentation, and what it
holds. -/
def nextLine (breaks column : Nat) : List Char → Nat × Nat × List Char
  | [] => (breaks, column, [])
  | c :: rest =>
    if c = '\n' then nextLine (breaks + 1) 0 rest
    else if isBlank c then nextLine breaks (column + 1) rest
    else (breaks, column, c :: rest)

/-- A plain text of one or more lines. The lines after the first start in column `least` or behind
it. -/
def plain? (brackets : Bool) (least : Nat) :
    Nat → List Char → Option (List Char × List Char)
  | 0, _ => none
  | fuel + 1, chars => do
    let (line, rest) ← plainLine? brackets ' ' chars
    let text := Text.dropEnd isBlank line
    let (breaks, column, next) := nextLine 0 0 rest
    let stops := breaks == 0 || next.isEmpty || (!brackets && column < least)
      || next.head? == some '#'
      || (column == 0 && (isDocumentMark '-' next || isDocumentMark '.' next))
    if stops then some (text, rest)
    else do
      let (more, after) ← plain? brackets least fuel next
      if more.isEmpty then some (text, rest)
      else some (text ++ foldBreaks breaks ++ more, after)

/-- The character that an escape of one letter stands for. -/
def escaped? (c : Char) : Option Char :=
  List.lookup c [('0', '\x00'), ('a', '\x07'), ('b', '\x08'), ('t', '\t'), ('\t', '\t'),
    ('n', '\n'), ('v', '\x0b'), ('f', '\x0c'), ('r', '\r'), ('e', '\x1b'), (' ', ' '),
    ('"', '"'), ('/', '/'),
    ('\\', '\\'), ('N', '\u0085'), ('_', '\u00a0'), ('L', '\u2028'), ('P', '\u2029')]

/-- The number of digits of an escape by code point. -/
def escapeWidth? (c : Char) : Option Nat :=
  List.lookup c [('x', 2), ('u', 4), ('U', 8)]

/-- The character that an escape stands for, and what follows it. -/
def escape? : List Char → Option (Char × List Char)
  | [] => none
  | c :: rest =>
    match escapeWidth? c with
    | some width => do
      let value ← Scalar.digits? 16 (rest.take width)
      if (rest.take width).length = width ∧ value.isValidChar then
        some (Char.ofNat value, rest.drop width)
      else none
    | none => (escaped? c).map fun d => (d, rest)

/-- The text up to the closing quote and what follows it, where `breaks` line ends and then `blanks`
have been passed since the last word. -/
def quotedFrom? (quote : Char) :
    Nat → List Char → Nat → List Char → Option (List Char × List Char)
  | 0, _, _, _ => none
  | _ + 1, _, _, [] => none
  | fuel + 1, blanks, breaks, c :: rest =>
    let between := if breaks = 0 then blanks else foldBreaks breaks
    let word (chars : List Char) (rest : List Char) : Option (List Char × List Char) := do
      let (text, after) ← quotedFrom? quote fuel [] 0 rest
      some (between ++ chars ++ text, after)
    if c = quote then
      match quote, rest with
      | '\'', '\'' :: rest => word ['\''] rest
      | _, _ => some (between, rest)
    else if c = '\n' then quotedFrom? quote fuel [] (breaks + 1) rest
    else if isBlank c then
      if breaks = 0 then quotedFrom? quote fuel (blanks ++ [c]) 0 rest
      else quotedFrom? quote fuel [] breaks rest
    else if c = '\\' ∧ quote = '"' then do
      let (d, rest) ← escape? rest
      word [d] rest
    else word [c] rest

/-- The text behind an opening quote, and what follows the closing one. -/
def quoted? (quote : Char) (chars : List Char) : Option (List Char × List Char) :=
  quotedFrom? quote (chars.length + 1) [] 0 chars

/-- The lines of a text. -/
def splitLines : List Char → List (List Char)
  | [] => [[]]
  | '\n' :: rest => [] :: splitLines rest
  | c :: rest =>
    match splitLines rest with
    | [] => [[c]]
    | line :: lines => (c :: line) :: lines

/-- What is done with the line ends at the end of a literal block. -/
inductive Chomping where
  | clip | strip | keep
  deriving DecidableEq

/-- The head of a literal block: its own indentation, if it is given, and its chomping. -/
def literalHead? : Option Nat → Chomping → List Char → Option (Option Nat × Chomping)
  | indent, chomping, [] => some (indent, chomping)
  | indent, chomping, c :: rest =>
    if c = '-' then literalHead? indent .strip rest
    else if c = '+' then literalHead? indent .keep rest
    else if '1' ≤ c ∧ c ≤ '9' then literalHead? (some (c.toNat - '0'.toNat)) chomping rest
    else if isBlank c then
      let rest := rest.dropWhile isBlank
      if rest.isEmpty || rest.head? == some '#' then some (indent, chomping) else none
    else none

/-- The text of a literal block, behind its mark, and what follows the block. The lines of the block
start in column `least` or behind it. -/
def literal? (least : Nat) (chars : List Char) : Option (List Char × List Char) :=
  match splitLines chars with
  | [] => none
  | head :: lines => do
    let (given, chomping) ← literalHead? none .clip head
    let indentation (line : List Char) := (line.takeWhile (· = ' ')).length
    let isEmptyLine (line : List Char) : Bool := line.all (· = ' ')
    let indent := match given with
      | some n => least - 1 + n
      | none => max (max least 1) (match lines.find? (!isEmptyLine ·) with
        | some line => indentation line
        | none => 0)
    let block := lines.takeWhile fun line => isEmptyLine line || indent ≤ indentation line
    let after := lines.drop block.length
    let block := if after.isEmpty then block.dropLast else block
    let body := Text.dropEnd isEmptyLine block
    let trailing := block.length - body.length
    let text := List.intercalate ['\n'] (body.map (·.drop indent))
    let final := match chomping with
      | .strip => []
      | .clip => if body.isEmpty then [] else ['\n']
      | .keep => List.replicate (if body.isEmpty then trailing else trailing + 1) '\n'
    some (text ++ final,
      if after.isEmpty then [] else '\n' :: List.intercalate ['\n'] after)

end Reshape.Yaml
