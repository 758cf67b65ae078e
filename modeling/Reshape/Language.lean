import Reshape.Concrete
import Reshape.Failure
import Reshape.Language.Java
import Reshape.Language.Python

/-! # Languages

A language has a name, the extensions of its files, and a way to categorize the nodes of its
grammar. Names and extensions are compared without regard to ASCII case. -/

namespace Reshape

/-- A programming language. -/
structure Language where
  name : String
  extensions : List String
  categorize : Categorize

namespace Language

/-- Java. -/
def java : Language := ⟨"java", ["java"], javaCategory⟩

/-- Python. -/
def python : Language := ⟨"python", ["py", "pyi"], pythonCategory⟩

/-- The languages that are supported. -/
def all : List Language := [java, python]

/-- Whether two texts are equal but for ASCII case. -/
def sameWord (a b : String) : Bool :=
  a.map Char.toLower == b.map Char.toLower

/-- The language of a file extension. -/
def byExtension? (extension : String) : Option Language :=
  all.find? fun language => language.extensions.any (sameWord extension)

/-- The language of a name. -/
def byName? (name : String) : Option Language :=
  all.find? fun language => sameWord language.name name

/-- The language of a file. -/
def detect? (path : Path) : Option Language :=
  path.extension?.bind byExtension?

/-- The syntax tree of a concrete tree. Sources with syntax errors are refused: half a file would
show up as changes that nobody made. -/
def toTree (language : Language) (path : Path) (source : String) (concrete : ConcreteTree) :
    Except Failure Tree :=
  match concrete.errorLine? source with
  | some line => .error (.syntaxError path line)
  | none => .ok (concrete.toTree language.categorize path source)

end Language

end Reshape
