import Reshape.Refactoring.Comparison
import Reshape.Text.Compact
import Reshape.Text.Word

/-! # Changes of local variables

A variable was renamed if at least half of the statements that mention it reappear with the new
name. A variable was extracted if statements that use it appeared before with its initial value in
its place, and inlined if it is the other way round. -/

namespace Reshape

namespace VariableChange

/-- The first declaration of every name; later ones of the same name are hidden. -/
def firstDeclarations (seen : List String) : List Variable → List Variable
  | [] => []
  | v :: rest =>
    if seen.contains v.name then firstDeclarations seen rest
    else v :: firstDeclarations (v.name :: seen) rest

/-- The variables of an operation, by name. -/
def declarations (model : Model) (op : Operation) : List Variable :=
  (firstDeclarations [] (model.variablesOf op.id)).mergeSort fun v w => v.name ≤ w.name

/-- The variables of one list whose names the other list lacks, in the order of the text. -/
def missingFrom (others found : List Variable) : List Variable :=
  (found.filter fun v => !others.any (·.name == v.name)).mergeSort fun v w =>
    v.span.startByte ≤ w.span.startByte

/-- Whether both types are known and differ. -/
def typesDiffer (old new : Option String) : Bool :=
  old.isSome && new.isSome && old != new

/-- A statement's text with a name replaced. -/
def replaced (text name value : String) : String :=
  Text.compact (Text.substitute text [⟨name, value⟩])

/-- The number of statements that mention a variable and reappear with another one in its place;
zero if that is less than half of them. -/
def renameSupport (b a : Operation) (old new : Variable) : Nat :=
  let users := b.statementTexts.filter (Text.mentions · old.name)
  let found := users.filter fun text =>
    a.statementTexts.contains (replaced text old.name new.name)
  if users.length ≤ found.length * 2 then found.length else 0

/-- The better one of two supported variables: more support, then an earlier declaration, then the
later one of the two. -/
def better (best : Option (Nat × Variable)) (next : Nat × Variable) : Option (Nat × Variable) :=
  match best with
  | none => some next
  | some (support, v) =>
    if next.1 < support || (next.1 == support && v.span.startByte < next.2.span.startByte) then best
    else some next

/-- The added variable that a removed one became. -/
def successor? (b a : Operation) (added : List Variable) (old : Variable) : Option Variable :=
  let supported := (added.map fun new => (renameSupport b a old new, new)).filter (0 < ·.1)
  (supported.foldl better none).map (·.2)

/-- What became of removed and added variables. -/
structure Outcome where
  renamed : List (Variable × Variable) := []
  removed : List Variable := []
  added : List Variable := []

/-- Take removed variables in order, each with the added one that it became. -/
def pairOff (b a : Operation) : List Variable → List Variable → Outcome
  | [], added => { added }
  | old :: rest, added =>
    match successor? b a added old with
    | some new =>
      let outcome := pairOff b a rest (added.filter (·.name != new.name))
      { outcome with renamed := (old, new) :: outcome.renamed }
    | none =>
      let outcome := pairOff b a rest added
      { outcome with removed := old :: outcome.removed }

/-- The statement of another operation that equals a statement with a variable replaced by its
initial value, in parentheses if need be, and that the operation does not have itself. -/
def counterpart? (side other : Operation) (v : Variable) (initial text : String) : Option Nat :=
  [initial, s!"({initial})"].findSome? fun value =>
    let wanted := replaced text v.name value
    if side.statementTexts.contains wanted then none
    else other.statementTexts.findIdx? (· == wanted)

/-- The places of the statements that use a variable, with the places of their counterparts. -/
def replacedUses (side : Operation) (v : Variable) (other : Operation) : List (Nat × Nat) :=
  match v.initializer with
  | none => []
  | some initial =>
    side.statements.zipIdx.filterMap fun (statement, i) =>
      if statement.span == v.span || !Text.mentions statement.text v.name then none
      else (counterpart? side other v initial statement.text).map (i, ·)

end VariableChange

namespace Comparison

open VariableChange

variable (c : Comparison)

/-- The change of the type of a variable. -/
def typeChange? (before after : EntityRef) (old new : Variable) : Option Refactoring :=
  if typesDiffer old.typeName new.typeName then
    some
      { fact := .variableChange before after (.changeType old new)
        justification := [⟨.ofVariable old, .ofVariable new⟩] }
  else none

/-- The extraction of a variable. -/
def variableExtraction? (before after : EntityRef) (b a : Operation) (v : Variable) :
    Option Refactoring :=
  let uses := replacedUses a v b
  if uses.isEmpty then none
  else
    some
      { fact := .variableChange before after (.extract v)
        justification := uses.map fun (use, counterpart) => b.fragmentPair a (counterpart, use) }

/-- The inlining of a variable. -/
def variableInlining? (before after : EntityRef) (b a : Operation) (v : Variable) :
    Option Refactoring :=
  let uses := replacedUses b v a
  if uses.isEmpty then none
  else
    some
      { fact := .variableChange before after (.inline v)
        justification := uses.map (b.fragmentPair a) }

/-- The changes of the variables of one operation. -/
def variableChangesOf (b a : Operation) : List Refactoring :=
  let (before, after) := c.operationRefs b a
  let old := declarations c.before b
  let new := declarations c.after a
  let kept := old.filterMap fun v => (new.find? (·.name == v.name)).map (v, ·)
  let outcome := pairOff b a (missingFrom new old) (missingFrom old new)
  kept.filterMap (fun (v, w) => typeChange? before after v w)
    ++ outcome.renamed.flatMap (fun (v, w) =>
      (typeChange? before after v w).toList
        ++ [{ fact := .variableChange before after (.rename v w)
              justification := b.sharedInOrder a }])
    ++ outcome.added.filterMap (variableExtraction? before after b a)
    ++ outcome.removed.filterMap (variableInlining? before after b a)

/-- The change of the type of an attribute that stays in its class. -/
def attributeTypeChange? (b a : Attribute) : Option Refactoring :=
  if typesDiffer b.typeName a.typeName && c.sameClass b.owner a.owner then
    let (before, after) := c.attributeRefs b a
    some (.ofDeclarations .changeAttributeType before after)
  else none

/-- All changes of variables, and of types of attributes. -/
def variableChanges : List Refactoring :=
  c.operationPairs.flatMap (fun (b, a) => c.variableChangesOf b a)
    ++ c.attributePairs.filterMap (fun (b, a) => c.attributeTypeChange? b a)

end Comparison

end Reshape
