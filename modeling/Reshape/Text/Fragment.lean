/-! # Fragments of a text

Spans count the bytes of the UTF-8 form of a text. A stretch of bytes is a text of its own only if
it starts and ends between two characters. -/

namespace Reshape.Text

/-- Whether an offset lies between two characters or at an end of the UTF-8 form of a text. -/
def isCharBoundary (bytes : ByteArray) (offset : Nat) : Bool :=
  offset == bytes.size || bytes[offset]?.any fun byte => byte &&& 0xc0 != 0x80

/-- The text between two byte offsets, if both lie within the text and between two characters. -/
def slice? (text : String) (start stop : Nat) : Option String :=
  let bytes := text.toUTF8
  if start ≤ stop && isCharBoundary bytes start && isCharBoundary bytes stop then
    String.fromUTF8? (bytes.extract start stop)
  else none

/-- The line and the column of the end of a list of bytes, both counted from zero. A column counts
the bytes since the last line feed. -/
def positionAfter (bytes : List UInt8) : Nat × Nat :=
  bytes.foldl
    (fun place byte => if byte = (10 : UInt8) then (place.1 + 1, 0) else (place.1, place.2 + 1))
    (0, 0)

/-- Whether a list of characters occurs within another one. -/
def occursIn (part : List Char) : List Char → Bool
  | [] => part.isEmpty
  | c :: rest => part.isPrefixOf (c :: rest) || occursIn part rest

/-- Whether a text includes another one. -/
def includes (text part : String) : Bool :=
  occursIn part.toList text.toList

/-- A list without the items of a class at its end. -/
def dropEnd {α : Type} (drop : α → Bool) (items : List α) : List α :=
  (items.reverse.dropWhile drop).reverse

/-- A text without the characters of a class at its end. -/
def trimEnd (drop : Char → Bool) (text : String) : String :=
  String.ofList (dropEnd drop text.toList)

end Reshape.Text
