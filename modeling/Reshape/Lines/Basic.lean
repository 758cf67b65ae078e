/-! # Lines of a text

A text is cut into lines behind every `\n`, `\r\n` or `\r`; a line keeps its end. The last line may
have none. -/

namespace Reshape.Lines

/-- The lines of the rest of a text; `line` holds the characters of the line read so far, the last
one first. -/
def splitFrom (line : List Char) : List Char → List String
  | [] => if line.isEmpty then [] else [String.ofList line.reverse]
  | '\r' :: '\n' :: rest => String.ofList ('\n' :: '\r' :: line).reverse :: splitFrom [] rest
  | c :: rest =>
    if c == '\n' || c == '\r' then String.ofList (c :: line).reverse :: splitFrom [] rest
    else splitFrom (c :: line) rest

/-- The lines of a text. -/
def split (text : String) : Array String :=
  (splitFrom [] text.toList).toArray

/-- Whether a line has an end. -/
def isTerminated (line : String) : Bool :=
  line.toList.getLast?.any fun c => c == '\n' || c == '\r'

/-- A stretch of lines: from `start` up to, but not including, `stop`. -/
structure Stretch where
  start : Nat
  stop : Nat
  deriving Repr, DecidableEq, Inhabited

/-- The number of lines of a stretch. -/
def Stretch.size (stretch : Stretch) : Nat := stretch.stop - stretch.start

/-- The lines of a stretch. -/
def Stretch.of (stretch : Stretch) (lines : Array String) : List String :=
  (lines.toList.drop stretch.start).take stretch.size

/-- The number of equal items at the front of two lists. -/
def commonPrefix : List String → List String → Nat
  | x :: xs, y :: ys => if x == y then commonPrefix xs ys + 1 else 0
  | _, _ => 0

/-- The number of equal items at the end of two lists. -/
def commonSuffix (xs ys : List String) : Nat :=
  commonPrefix xs.reverse ys.reverse

end Reshape.Lines
