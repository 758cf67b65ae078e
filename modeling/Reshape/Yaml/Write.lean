import Reshape.Text.Fragment
import Reshape.Yaml.Scalar
import Reshape.Yaml.Text

/-! # Writing YAML

Collections are written as blocks: the entries of a nested mapping are indented by two blanks, those
of a sequence are not. A text is written plain wherever it then reads back as the same text, else in
single quotes; a text of several lines is a literal block, and one with characters that cannot be
shown is in double quotes. -/

namespace Reshape.Yaml

/-- Whether a character is written as it is. -/
def isPrintable (c : Char) : Bool :=
  let n := c.toNat
  n == 0x0A || (0x20 ≤ n && n ≤ 0x7E) || (0xA0 ≤ n && n ≤ 0xD7FF)
    || (0xE000 ≤ n && n ≤ 0xFFFD && n != 0xFEFF)

/-- Whether a character ends a line. -/
def isBreak (c : Char) : Bool := ['\n', '\r', '\u0085', '\u2028', '\u2029'].contains c

/-- Whether a text, behind its first character, has a colon at the end of a word or a comment. -/
def hasMark (previous : Char) : List Char → Bool
  | [] => false
  | c :: rest =>
    (c = ':' && (rest.isEmpty || rest.head?.any fun d => isBlank d || isBreak d))
      || (c = '#' && (isBlank previous || isBreak previous)) || hasMark c rest

/-- Whether a text can be written without quotes: it starts and ends with no blank, has no mark of
YAML where it would be taken for one, and is a single line of printable characters. -/
def isPlain (text : List Char) : Bool :=
  match text with
  | [] => false
  | c :: rest =>
    let next := rest.isEmpty || rest.head?.any fun d => isBlank d || isBreak d
    !Scalar.isAmbiguous (String.ofList text)
      && text.take 3 != ['-', '-', '-'] && text.take 3 != ['.', '.', '.']
      && !(isBracketMark c
        || ['#', '&', '*', '!', '|', '>', '\'', '"', '%', '@', '\x60'].contains c)
      && !(next && ['?', ':', '-'].contains c)
      && !hasMark c rest
      && text.head? != some ' ' && text.getLast? != some ' '
      && text.all fun d => isPrintable d && !isBreak d

/-- A text in single quotes. -/
def singleQuoted (text : List Char) : String :=
  String.ofList ('\'' :: text.flatMap (fun c => if c = '\'' then ['\'', '\''] else [c]) ++ ['\''])

/-- The hexadecimal digits of a number, padded with zeros. -/
def hexDigits (width n : Nat) : List Char :=
  let digits := (Nat.toDigits 16 n).map Char.toUpper
  List.replicate (width - digits.length) '0' ++ digits

/-- A character within double quotes. -/
def doubleQuotedChar (c : Char) : List Char :=
  if isPrintable c && !isBreak c && c != '"' && c != '\\' then [c]
  else
    let letter? := List.lookup c [('\x00', '0'), ('\x07', 'a'), ('\x08', 'b'), ('\t', 't'),
      ('\n', 'n'), ('\x0b', 'v'), ('\x0c', 'f'), ('\r', 'r'), ('\x1b', 'e'), ('"', '"'),
      ('\\', '\\'), ('\u0085', 'N'), ('\u2028', 'L'), ('\u2029', 'P')]
    match letter? with
    | some letter => ['\\', letter]
    | none =>
      let n := c.toNat
      if n ≤ 0xFF then '\\' :: 'x' :: hexDigits 2 n
      else if n ≤ 0xFFFF then '\\' :: 'u' :: hexDigits 4 n
      else '\\' :: 'U' :: hexDigits 8 n

/-- A text in double quotes. -/
def doubleQuoted (text : List Char) : String :=
  String.ofList ('"' :: text.flatMap doubleQuotedChar ++ ['"'])

/-- Whether a blank stands right before the end of a line. -/
def hasBlankBeforeBreak : List Char → Bool
  | c :: d :: rest => (c = ' ' && isBreak d) || hasBlankBeforeBreak (d :: rest)
  | _ => false

/-- The head of a literal block: the indentation where it cannot be seen from the first line, and
what is done with the line ends at the end. -/
def literalHead (text : List Char) : String :=
  let indent := if text.head?.any fun c => c = ' ' || isBreak c then "2" else ""
  let chomping := match text.reverse with
    | '\n' :: '\n' :: _ | ['\n'] => "+"
    | '\n' :: _ => ""
    | _ => "-"
  "|" ++ indent ++ chomping

/-- The lines of a literal block. -/
def literalLines (text : List Char) : List String :=
  let lines := splitLines text
  let lines := if text.getLast? == some '\n' then lines.dropLast else lines
  literalHead text :: lines.map String.ofList

/-- The lines of a text, the first of which continues the line before. -/
def textLines (text : List Char) : List String :=
  if text.contains '\n' then
    if text.getLast? == some ' ' || hasBlankBeforeBreak text || !text.all isPrintable then
      [doubleQuoted text]
    else literalLines text
  else if isPlain text then [String.ofList text]
  else if text.all isPrintable then [singleQuoted text]
  else [doubleQuoted text]

/-- Indent a line that is not empty. -/
def indentLine (line : String) : String :=
  if line.isEmpty then line else "  " ++ line

/-- The lines of an entry: its mark before the first line of its value, the others indented. -/
def entryLines (mark : String) : List String → List String
  | [] => [mark]
  | line :: lines => (mark ++ " " ++ line) :: lines.map indentLine

mutual

/-- The lines of a value. -/
def lines : Yaml → List String
  | plain text => [text]
  | quoted text => textLines text.toList
  | sequence [] => ["[]"]
  | sequence (item :: items) => sequenceLines (item :: items)
  | mapping [] => ["\x7b\x7d"]
  | mapping (entry :: entries) => mappingLines (entry :: entries)

/-- The lines of the items of a sequence. -/
def sequenceLines : List Yaml → List String
  | [] => []
  | item :: items => entryLines "-" (lines item) ++ sequenceLines items

/-- The lines of the entries of a mapping. -/
def mappingLines : List (Yaml × Yaml) → List String
  | [] => []
  | (key, value) :: entries =>
    let mark := String.intercalate " " (lines key) ++ ":"
    (match value with
      | sequence (item :: items) => mark :: sequenceLines (item :: items)
      | mapping (entry :: entries) => mark :: (mappingLines (entry :: entries)).map indentLine
      | value => entryLines mark (lines value)) ++ mappingLines entries

end

/-- The text of a document. -/
def write (value : Yaml) : String :=
  String.join (value.lines.map (· ++ "\n"))

end Reshape.Yaml
