import Reshape.Model.Basic
import Reshape.Similarity

/-! # How alike two entities are

Scores lie between zero and one. Two operations of one qualified name and one signature are the
same, whatever their bodies. -/

namespace Reshape

/-- The score of two operations, and the scores that it is made of. -/
structure OperationScore where
  name : Float
  parameters : Float
  body : Float
  total : Float
  deriving Repr, DecidableEq

namespace OperationScore

/-- The score of an operation and itself. -/
def same : OperationScore := ⟨1.0, 1.0, 1.0, 1.0⟩

/-- The weighted score of the three parts. -/
def ofParts (name parameters body : Float) : OperationScore :=
  { name, parameters, body, total := 0.25 * name + 0.25 * parameters + 0.5 * body }

end OperationScore

namespace Operation

/-- Qualified name and signature. -/
def exactKey (op : Operation) : String × String := (op.qualifiedName, op.signatureKey)

/-- Similarity of the bodies of two operations: the statements that they share. -/
def bodySimilarity (before after : Operation) : Float :=
  Similarity.dice before.statementTexts after.statementTexts

/-- The score of two operations. -/
def score (before after : Operation) : OperationScore :=
  if before.exactKey == after.exactKey then .same
  else
    .ofParts (Similarity.text before.name after.name)
      (Similarity.parameters before.parameterTypes after.parameterTypes)
      (bodySimilarity before after)

end Operation

/-- The score of two attributes, by name and type. -/
def Attribute.score (before after : Attribute) : Float :=
  0.6 * Similarity.text before.name after.name
    + 0.4 * (if before.typeName == after.typeName then 1.0 else 0.0)

/-- The signatures of the operations and the names of the attributes of a class. -/
def Model.memberNames (model : Model) (c : Class) : List String :=
  c.operations.map (fun id => (model.operationAt id).signatureKey)
    ++ c.attributes.map fun id => (model.attributeAt id).name

/-- The score of two classes, by name and members. Without members the names decide alone. -/
def Class.score (before after : Model) (b a : Class) : Float :=
  let bs := before.memberNames b
  let as := after.memberNames a
  let shared :=
    if bs.isEmpty && as.isEmpty then if b.name == a.name then 1.0 else 0.0
    else Similarity.dice bs as
  0.3 * Similarity.text b.name a.name + 0.7 * shared

/-- A way to score entities. -/
structure Scoring where
  classes : Model → Model → Class → Class → Float
  operations : Operation → Operation → Float
  attributes : Attribute → Attribute → Float

/-- The scores that pairings are made by. -/
def Scoring.standard : Scoring where
  classes := Class.score
  operations b a := (b.score a).total
  attributes := Attribute.score

end Reshape
