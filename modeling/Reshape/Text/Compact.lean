import Reshape.Text.Class

/-! # The compact form of a code fragment

Two fragments that differ only in layout have one compact form: blanks are dropped, except that one
space stays between two code characters that a blank kept apart. So `a + b` and `a+b` agree, while
`return x` and `returnx` do not. Which characters are blanks and which are code characters is a
matter of their own; it is enough that a space is a blank and that no character is both. -/

namespace Reshape.Text

/-- What counts as a blank and what as a code character. -/
structure Spacing where
  isBlank : Char → Bool
  isCode : Char → Bool
  isBlank_space : isBlank ' ' = true
  not_isBlank_of_isCode : ∀ c, isCode c = true → isBlank c = false

namespace Spacing

/-- The classes of Unicode. -/
def unicode : Spacing where
  isBlank := Text.isBlank
  isCode := isCodeChar
  isBlank_space := by decide
  not_isBlank_of_isCode _ := not_isBlank_of_isCodeChar

variable (spacing : Spacing)

/-- Whether a blank between two neighbouring characters has to stay. -/
def needsSpace (before : Option Char) (after : Char) : Bool :=
  before.any spacing.isCode && spacing.isCode after

/-- The compact form of the rest of a fragment, given the last character written and whether a blank
was read since. -/
def compactChars (last : Option Char) (blank : Bool) : List Char → List Char
  | [] => []
  | c :: rest =>
    if spacing.isBlank c then compactChars last true rest
    else if blank && spacing.needsSpace last c then ' ' :: c :: compactChars (some c) false rest
    else c :: compactChars (some c) false rest

/-- The compact form of a code fragment under some classes of characters. -/
def compact (text : String) : String :=
  String.ofList (spacing.compactChars none false text.toList)

end Spacing

/-- The compact form of a code fragment. -/
def compact (text : String) : String :=
  Spacing.unicode.compact text

end Reshape.Text
