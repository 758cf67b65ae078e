/-! # Groups of refactorings

Every refactoring belongs to one group. Groups are ranked: where two classifications of one pair of
entities cannot both hold, the one of the group that comes first stays. -/

namespace Reshape

/-- The groups of refactorings, the strongest first. -/
inductive Group where
  | rename
  | move
  | hierarchy
  | extractInline
  | mergeSplit
  | parameterChange
  | variableChange
  deriving Repr, DecidableEq, Inhabited

namespace Group

/-- Every group with its name, the strongest first. -/
def names : List (Group × String) :=
  [(rename, "Rename"), (move, "Move"), (hierarchy, "Hierarchy"), (extractInline, "ExtractInline"),
   (mergeSplit, "MergeSplit"), (parameterChange, "ParameterChange"),
   (variableChange, "VariableChange")]

/-- The name of a group. -/
def name (group : Group) : String :=
  (names.lookup group).getD ""

/-- The group of a name. -/
def ofName? (text : String) : Option Group :=
  (names.find? (·.2 == text)).map (·.1)

/-- The place of a group; the strongest has the first. -/
def rank : Group → Nat
  | rename => 0
  | move => 1
  | hierarchy => 2
  | extractInline => 3
  | mergeSplit => 4
  | parameterChange => 5
  | variableChange => 6

/-- Whether a group is about details of an operation or an attribute that stays what it is. -/
def isDetail : Group → Bool
  | parameterChange | variableChange => true
  | _ => false

/-- Whether a group relates different operations. -/
def relatesOthers : Group → Bool
  | extractInline | mergeSplit => true
  | _ => false

/-- Whether two classifications of one pair of entities cannot both hold. Details go together with
each other, and with renamings and moves of the same entity, but not with relations between
different operations. -/
def excludes (a b : Group) : Bool :=
  match a.isDetail, b.isDetail with
  | true, true => false
  | true, false => b.relatesOthers
  | false, true => a.relatesOthers
  | false, false => a != b

end Group

end Reshape
