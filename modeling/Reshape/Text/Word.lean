import Reshape.Text.Class

/-! # Whole words in a text

A name occurs as a whole word where it stands between two word boundaries. A boundary lies between a
word character and anything else, so a name that starts with `$` occurs only right after a word
character. Replacing takes the leftmost occurrences that do not overlap. What a word character is
can be chosen; texts of code are searched with `isWordChar`. -/

namespace Reshape.Text

section Words

variable (isWord : Char → Bool)

/-- Whether a word boundary lies between two neighbours, either of which may be missing. -/
def isBoundary (before after : Option Char) : Bool :=
  before.any isWord != after.any isWord

/-- Whether `name` stands as a whole word at the start of `rest`, which follows the character
`before`. -/
def startsWord (name : List Char) (before : Option Char) (rest : List Char) : Bool :=
  name.isPrefixOf rest
    && isBoundary isWord before rest.head?
    && isBoundary isWord (name.getLast?.or before) (rest.drop name.length).head?

/-- Whether `name` occurs as a whole word in a text that follows the character `before`. -/
def hasWord (name : List Char) (before : Option Char) : List Char → Bool
  | [] => startsWord isWord name before []
  | c :: rest => startsWord isWord name before (c :: rest) || hasWord name (some c) rest

/-- Replace the whole-word occurrences of `name` by `value` in a text that follows the character
`before`; the first `skip` characters belong to an occurrence already replaced. -/
def replaceWord (name value : List Char) (before : Option Char) (skip : Nat) :
    List Char → List Char
  | [] => []
  | c :: rest =>
    match skip with
    | skip + 1 => replaceWord name value (some c) skip rest
    | 0 =>
      if startsWord isWord name before (c :: rest) then
        value ++ replaceWord name value (some c) (name.length - 1) rest
      else c :: replaceWord name value (some c) 0 rest

end Words

/-- Whether a text mentions a name as a whole word. -/
def mentions (text name : String) : Bool :=
  hasWord isWordChar name.toList none text.toList

/-- A name and the expression that stands for it. -/
structure Binding where
  name : String
  value : String
  deriving Repr, DecidableEq

/-- Put the value of one binding for its name. A binding without a name, or of a name to itself,
changes nothing. -/
def Binding.apply (isWord : Char → Bool) (text : String) (binding : Binding) : String :=
  if binding.name == binding.value || binding.name.isEmpty then text
  else String.ofList
    (replaceWord isWord binding.name.toList binding.value.toList none 0 text.toList)

/-- Put the values of all bindings for their names, one binding after the other, where words are
made of some class of characters. -/
def substituteBy (isWord : Char → Bool) (text : String) (bindings : List Binding) : String :=
  bindings.foldl (Binding.apply isWord) text

/-- Put the values of all bindings for their names, one binding after the other. -/
def substitute (text : String) (bindings : List Binding) : String :=
  substituteBy isWordChar text bindings

end Reshape.Text
