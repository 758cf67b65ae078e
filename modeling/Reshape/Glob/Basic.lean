/-! # Glob patterns

A pattern is matched against the bytes of a whole path. `*` stands for any bytes and `?` for any
single one, slashes included; only `**` between slashes keeps to whole components. A pattern is read
token by token; each token leaves, of what it is matched against, the suffixes behind its possible
matches. -/

namespace Reshape

namespace Glob

/-- A part of a pattern. -/
inductive Token where
  /-- The character itself. -/
  | literal (c : Char)
  /-- `?`: any single byte. -/
  | any
  /-- `*`: any bytes. -/
  | many
  /-- A leading `**` with the slash behind it: nothing, or any directories. -/
  | leading
  /-- A trailing `**` with the slash before it: everything below a directory. -/
  | trailing
  /-- A `**` with the slashes around it: any directories in between. -/
  | inner
  /-- `[...]`: a byte within one of the ranges, or within none of them. -/
  | range (negated : Bool) (ranges : List (UInt8 × UInt8))
  /-- A choice in braces. -/
  | oneOf (choices : List (List Token))
  deriving Repr, Inhabited

/-- The byte of a slash. -/
def slash : UInt8 := '/'.toUInt8

/-- A list and its suffixes. -/
def suffixes : List UInt8 → List (List UInt8)
  | [] => [[]]
  | b :: rest => (b :: rest) :: suffixes rest

/-- Suffixes of one list, each once. They are told apart by their lengths. -/
def distinct : List (List UInt8) → List (List UInt8)
  | [] => []
  | s :: rest => s :: (distinct rest).filter (·.length != s.length)

/-- What follows the first byte, if it passes a test. -/
def afterByte (test : UInt8 → Bool) : List UInt8 → List (List UInt8)
  | [] => []
  | b :: rest => if test b then [rest] else []

/-- What follows some bytes. -/
def afterBytes (text rest : List UInt8) : List (List UInt8) :=
  if text.isPrefixOf rest then [rest.drop text.length] else []

/-- What follows the slashes of a list. -/
def afterSlashes (bytes : List UInt8) : List (List UInt8) :=
  (suffixes bytes).flatMap (afterByte (· == slash))

mutual

/-- Whether a token adds nothing to a pattern. -/
def Token.isVoid : Token → Bool
  | .oneOf choices => allVoid choices
  | _ => false

/-- Whether no choice has a token that adds something. -/
def allVoid : List (List Token) → Bool
  | [] => true
  | choice :: choices => voidTokens choice && allVoid choices

/-- Whether no token adds something. -/
def voidTokens : List Token → Bool
  | [] => true
  | token :: tokens => token.isVoid && voidTokens tokens

end

mutual

/-- What may follow a match of a token at the start. -/
def Token.rests : Token → List UInt8 → List (List UInt8)
  | .literal c, bytes => afterBytes (String.utf8EncodeChar c) bytes
  | .any, bytes => afterByte (fun _ => true) bytes
  | .many, bytes => suffixes bytes
  | .leading, bytes => bytes :: afterSlashes bytes
  | .trailing, bytes => (afterByte (· == slash) bytes).flatMap suffixes
  | .inner, bytes =>
    (afterByte (· == slash) bytes).flatMap fun rest => rest :: afterSlashes rest
  | .range negated ranges, bytes =>
    afterByte (fun b => ranges.any (fun (low, high) => low ≤ b && b ≤ high) != negated) bytes
  | .oneOf choices, bytes =>
    if allVoid choices then [bytes] else choiceRests choices bytes

/-- What may follow a match of one of some choices. A choice without tokens does not count. -/
def choiceRests : List (List Token) → List UInt8 → List (List UInt8)
  | [], _ => []
  | choice :: choices, bytes =>
    distinct ((if voidTokens choice then [] else tokenRests choice [bytes])
      ++ choiceRests choices bytes)

/-- What may follow a match of tokens, one after the other, at the start of one of some lists. -/
def tokenRests : List Token → List (List UInt8) → List (List UInt8)
  | [], starts => starts
  | token :: tokens, starts => tokenRests tokens (distinct (starts.flatMap token.rests))

end

end Glob

/-- A pattern of paths. -/
structure Glob where
  tokens : List Glob.Token
  deriving Repr, Inhabited

namespace Glob

/-- Whether a pattern matches a path as a whole. A `**` alone matches every path. -/
def accepts (glob : Glob) (path : String) : Bool :=
  let bytes := path.toList.flatMap String.utf8EncodeChar
  match glob.tokens with
  | [.leading] => true
  | tokens => (tokenRests tokens [bytes]).any List.isEmpty

end Glob

end Reshape
