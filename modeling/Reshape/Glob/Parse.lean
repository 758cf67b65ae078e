import Reshape.Glob.Basic

/-! # Reading glob patterns

A pattern is read from left to right. Braces may be nested; a comma divides choices within braces
only. A `**` keeps to whole components if slashes or the ends of the pattern or of a choice stand
around it, else it is a `*` written twice. -/

namespace Reshape.Glob

/-- A brace that is open: the tokens before it and the choices read since, the last ones first. -/
structure Brace where
  before : List Token
  choices : List (List Token) := []

/-- What has been read of a pattern. -/
structure Reading where
  /-- The tokens of the choice that is being read, the last one first. -/
  tokens : List Token := []
  /-- The open braces, the innermost one first. -/
  braces : List Brace := []
  /-- The character read last. -/
  previous : Option Char := none

namespace Reading

/-- Add a token. -/
def push (reading : Reading) (token : Token) : Reading :=
  { reading with tokens := token :: reading.tokens }

/-- Whether a brace is open. -/
def inBraces (reading : Reading) : Bool :=
  !reading.braces.isEmpty

/-- Start the choices of a brace. -/
def openBrace (reading : Reading) : Reading :=
  { reading with tokens := [], braces := { before := reading.tokens } :: reading.braces }

/-- Read a comma: it ends a choice within braces. -/
def comma (reading : Reading) : Reading :=
  match reading.braces with
  | [] => reading.push (.literal ',')
  | brace :: outer =>
    { reading with
      tokens := []
      braces := { brace with choices := reading.tokens.reverse :: brace.choices } :: outer }

/-- End the choices of a brace. -/
def closeBrace? (reading : Reading) : Option Reading :=
  match reading.braces with
  | [] => none
  | brace :: outer =>
    let choices := (reading.tokens.reverse :: brace.choices).reverse
    some { reading with tokens := .oneOf choices :: brace.before, braces := outer }

/-- Whether a choice ends before what follows. -/
def endsChoice (reading : Reading) : List Char → Bool
  | [] => true
  | c :: _ => reading.inBraces && (c = ',' || c = '\x7d')

/-- Read two stars, before `rest`. Gives what follows them, without the slash that belongs to
them. -/
def twoStars (reading : Reading) (rest : List Char) : Reading × List Char :=
  let apart := (reading.push .many).push .many
  let follows := rest.head? == some '/'
  if reading.tokens.isEmpty then
    if rest.isEmpty || follows then (reading.push .leading, rest.drop 1) else (apart, rest)
  else
    let fits := reading.previous == some '/'
      || reading.inBraces && (reading.previous == some ',' || reading.previous == some '\x7b')
    if fits && (reading.endsChoice rest || follows) then
      let token := match reading.tokens with
        | .leading :: _ => Token.leading
        | .trailing :: _ => .trailing
        | _ => if follows then .inner else .trailing
      ({ reading with tokens := token :: reading.tokens.drop 1 },
        if follows then rest.drop 1 else rest)
    else (apart, rest)

end Reading

/-- The bytes between two characters as they are written in a byte set: the last byte of the first
one and the first byte of the second one bound a range, and the other bytes stand for themselves. -/
def byteRanges? (low high : Char) : Option (List (UInt8 × UInt8)) :=
  let single (b : UInt8) : UInt8 × UInt8 := (b, b)
  let lows := String.utf8EncodeChar low
  let highs := String.utf8EncodeChar high
  if low = high then some (lows.map single)
  else
    let start := lows.getLastD 0
    let stop := highs.headD 0
    if low > high || start > stop then none
    else some (lows.dropLast.map single ++ (start, stop) :: (highs.drop 1).map single)

/-- The ranges of characters between brackets and what follows the closing one, where `ranges` have
been read, the last one first. A bracket that comes first and a dash that comes first or last stand
for themselves. -/
def classRanges? (first inRange : Bool) :
    List (Char × Char) → List Char → Option (List (Char × Char) × List Char)
  | _, [] => none
  | ranges, c :: rest =>
    if c = ']' ∧ ¬first then
      some ((if inRange then ('-', '-') :: ranges else ranges).reverse, rest)
    else if c = '-' ∧ ¬first ∧ ¬inRange then classRanges? false true ranges rest
    else if inRange then
      match ranges with
      | (low, _) :: others =>
        if c < low then none else classRanges? false false ((low, c) :: others) rest
      | [] => none
    else classRanges? false false ((c, c) :: ranges) rest

/-- The token of a class of characters, behind its opening bracket, and what follows it. -/
def classToken? (chars : List Char) : Option (Token × List Char) := do
  let negated := chars.head? == some '!' || chars.head? == some '^'
  let (ranges, rest) ← classRanges? true false [] (if negated then chars.drop 1 else chars)
  let bytes ← ranges.mapM fun (low, high) => byteRanges? low high
  return (.range negated bytes.flatten, rest)

/-- Read the rest of a pattern. -/
def readFrom? : Nat → Reading → List Char → Option (List Token)
  | _, reading, [] => if reading.inBraces then none else some reading.tokens.reverse
  | 0, _, _ => none
  | fuel + 1, reading, c :: rest =>
    let next (reading : Reading) (rest : List Char) (previous : Char) : Option (List Token) :=
      readFrom? fuel { reading with previous := some previous } rest
    match c with
    | '?' => next (reading.push .any) rest c
    | '*' =>
      match rest with
      | '*' :: rest =>
        let (reading, after) := reading.twoStars rest
        next reading after (if after.length < rest.length then '/' else '*')
      | rest => next (reading.push .many) rest c
    | '[' => do
      let (token, rest) ← classToken? rest
      next (reading.push token) rest ']'
    | '\x7b' => next reading.openBrace rest c
    | '\x7d' => do
      let reading ← reading.closeBrace?
      next reading rest c
    | ',' => next reading.comma rest c
    | '\\' =>
      match rest with
      | d :: rest => next (reading.push (.literal d)) rest d
      | [] => none
    | c => next (reading.push (.literal c)) rest c

/-- The pattern that a text stands for, if it is well-formed. -/
def parse? (text : String) : Option Glob :=
  (readFrom? text.length {} text.toList).map Glob.mk

end Reshape.Glob
