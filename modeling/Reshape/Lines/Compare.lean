import Reshape.Lines.Snake

/-! # Comparing two lists of lines

A comparison is a list of operations: stretches that are equal on both sides, deleted from the first
or inserted from the second. Common lines at the front and at the end are equal; between them the
lists are split in the middle of a shortest sequence of changes, and both halves are compared in
turn. -/

namespace Reshape.Lines

/-- What happens to a stretch of lines. -/
inductive Tag where
  | equal
  | delete
  | insert
  | replace
  deriving Repr, DecidableEq, Inhabited

/-- A stretch of each side and what happens to it. The stretch of the side that is not concerned is
empty and says only where it stands. -/
structure Op where
  tag : Tag
  oldStart : Nat
  oldCount : Nat
  newStart : Nat
  newCount : Nat
  deriving Repr, DecidableEq, Inhabited

namespace Op

/-- Equal lines on both sides. -/
def same (oldStart newStart count : Nat) : Op := ⟨.equal, oldStart, count, newStart, count⟩

/-- Lines of the first side only. -/
def removal (oldStart count newStart : Nat) : Op := ⟨.delete, oldStart, count, newStart, 0⟩

/-- Lines of the second side only. -/
def addition (oldStart newStart count : Nat) : Op := ⟨.insert, oldStart, 0, newStart, count⟩

/-- The end of the stretch of the first side. -/
def oldStop (op : Op) : Nat := op.oldStart + op.oldCount

/-- The end of the stretch of the second side. -/
def newStop (op : Op) : Nat := op.newStart + op.newCount

/-- Equal lines, if there are any. -/
def same? (oldStart newStart count : Nat) : List Op :=
  if count = 0 then [] else [same oldStart newStart count]

end Op

/-- Compare two lists that start at given places, splitting them at most `fuel` times in a row. -/
def compareFrom : Nat → Nat → Nat → List String → List String → List Op
  | 0, _, _, _, _ => []
  | fuel + 1, oldStart, newStart, old, new =>
    let front := commonPrefix old new
    let old := old.drop front
    let new := new.drop front
    let back := commonSuffix old new
    let old := old.take (old.length - back)
    let new := new.take (new.length - back)
    let o := oldStart + front
    let n := newStart + front
    let inner :=
      if old.isEmpty && new.isEmpty then []
      else if new.isEmpty then [Op.removal o old.length n]
      else if old.isEmpty then [Op.addition o n new.length]
      else
        match middle? old new with
        | some (x, y) =>
          compareFrom fuel o n (old.take x) (new.take y)
            ++ compareFrom fuel (o + x) (n + y) (old.drop x) (new.drop y)
        | none => [Op.removal o old.length n, Op.addition o n new.length]
    Op.same? oldStart newStart front ++ inner ++ Op.same? (o + old.length) (n + new.length) back

/-- Compare two lists of lines. -/
def compareLines (old new : Array String) : List Op :=
  compareFrom (old.size + new.size + 1) 0 0 old.toList new.toList

end Reshape.Lines
