import Reshape.Lines.Compact

/-! # Hunks

A hunk is a group of changes with some equal lines around them. Changes that are far apart go to
different hunks. -/

namespace Reshape.Lines

/-- The last lines of an equal stretch. -/
def Op.lastLines (n : Nat) (op : Op) : Op :=
  let skip := op.oldCount - n
  { op with
    oldStart := op.oldStart + skip
    newStart := op.newStart + skip
    oldCount := op.oldCount - skip
    newCount := op.newCount - skip }

/-- The first lines of an equal stretch. -/
def Op.firstLines (n : Nat) (op : Op) : Op :=
  { op with oldCount := min op.oldCount n, newCount := min op.newCount n }

/-- Apply a function to an operation if it is an equal stretch. -/
def Op.onEqual (f : Op → Op) (op : Op) : Op :=
  if op.tag = .equal then f op else op

/-- Operations with the equal stretch at their front cut to its last lines. -/
def trimFront (n : Nat) : List Op → List Op
  | [] => []
  | op :: rest => op.onEqual (Op.lastLines n) :: rest

/-- Operations with the equal stretch at their end cut to its first lines. -/
def trimBack (n : Nat) (ops : List Op) : List Op :=
  match ops.reverse with
  | [] => []
  | op :: rest => (op.onEqual (Op.firstLines n) :: rest).reverse

/-- Whether a group of operations changes anything. -/
def isHunk : List Op → Bool
  | [] => false
  | [op] => op.tag != .equal
  | _ => true

/-- Cut operations at long equal stretches; `hunk` holds the current group, the last one first. -/
def hunksFrom (n : Nat) (hunk : List Op) : List Op → List (List Op)
  | [] => if isHunk hunk.reverse then [hunk.reverse] else []
  | op :: rest =>
    if op.tag = .equal ∧ n * 2 < op.oldCount then
      (op.firstLines n :: hunk).reverse :: hunksFrom n [op.lastLines n] rest
    else hunksFrom n (op :: hunk) rest

/-- The hunks of a comparison, with `n` equal lines around the changes. -/
def hunks (n : Nat) (ops : List Op) : List (List Op) :=
  if ops.isEmpty then [] else hunksFrom n [] (trimBack n (trimFront n ops))

/-- One line of a comparison. -/
structure Change where
  tag : Tag
  line : String
  deriving Repr, DecidableEq

/-- The lines of an operation; what is replaced comes before what replaces it. -/
def Op.changes (old new : Array String) (op : Op) : List Change :=
  let deleted := (op.oldLines old).map (Change.mk .delete)
  let inserted := (op.newLines new).map (Change.mk .insert)
  match op.tag with
  | .equal => (op.oldLines old).map (Change.mk .equal)
  | .delete => deleted
  | .insert => inserted
  | .replace => deleted ++ inserted

/-- The number of deleted and inserted lines of a comparison. -/
def changeCounts (old new : Array String) : Nat × Nat :=
  let changes := (diffLines old new).flatMap (Op.changes old new)
  ((changes.filter (·.tag = .delete)).length, (changes.filter (·.tag = .insert)).length)

end Reshape.Lines
