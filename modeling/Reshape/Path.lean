/-! # File paths

A path is compared by its components and printed as it was given: `a/./b`, `a//b` and `a/b/` are one
path. The order of components puts the root first, then a leading `.`, then `..`, then names by code
point; so `a/x` sorts before `a-b/x`. -/

namespace Reshape

/-- One step of a path. -/
inductive PathComponent where
  | root
  | current
  | parent
  | name (text : String)
  deriving Repr, DecidableEq

namespace PathComponent

/-- The place of a component's kind in the order, and its name. -/
def key : PathComponent → Nat × String
  | root => (0, "")
  | current => (1, "")
  | parent => (2, "")
  | name text => (3, text)

instance : Ord PathComponent where
  compare a b := (compare a.key.1 b.key.1).then (compare a.key.2 b.key.2)

/-- The component as it is written in a path. -/
def text : PathComponent → String
  | root => "/"
  | current => "."
  | parent => ".."
  | name text => text

/-- The component that a part between two slashes stands for, if any. Only the first part may be a
`.` of its own. -/
def ofPart (first : Bool) (part : String) : Option PathComponent :=
  if part.isEmpty then none
  else if part == "." then if first then some current else none
  else if part == ".." then some parent
  else some (name part)

end PathComponent

/-- A file path. -/
structure Path where
  text : String
  deriving Repr, Inhabited

namespace Path

/-- The components of a path. -/
def components (path : Path) : List PathComponent :=
  match (path.text.toList.splitOn '/').map String.ofList with
  | [] => []
  | first :: rest =>
    let absolute := first.isEmpty && !rest.isEmpty
    let parts :=
      (PathComponent.ofPart true first).toList ++ rest.filterMap (PathComponent.ofPart false)
    if absolute then .root :: parts else parts

instance : BEq Path where
  beq a b := a.components == b.components

instance : Ord Path where
  compare a b := compare a.components b.components

/-- Whether a path is sorted before another one or is the same path. -/
def le (a b : Path) : Bool :=
  (compare a b).isLE

/-- The last component, if it is a name. -/
def fileName? (path : Path) : Option String :=
  match path.components.getLast? with
  | some (.name text) => some text
  | _ => none

/-- A file name cut at its last dot. A name whose only dot comes first has no extension. -/
def splitName (name : String) : String × Option String :=
  let back := name.toList.reverse
  let stem := (back.dropWhile (· != '.')).drop 1
  if stem.isEmpty then (name, none)
  else (String.ofList stem.reverse, some (String.ofList (back.takeWhile (· != '.')).reverse))

/-- What follows the last dot of the file name. -/
def extension? (path : Path) : Option String :=
  path.fileName?.bind fun name => (splitName name).2

/-- The components of a path without the extension of its file name. -/
def stemComponents (path : Path) : List PathComponent :=
  match path.components.reverse with
  | .name text :: rest => (PathComponent.name (splitName text).1 :: rest).reverse
  | other => other.reverse

end Path

end Reshape
