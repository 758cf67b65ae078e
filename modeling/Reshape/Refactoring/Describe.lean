import Reshape.Refactoring.Fact

/-! # Descriptions of facts

The sentence that tells a reader about a fact. -/

namespace Reshape

/-- The class that an entity belongs to, as a phrase. -/
def EntityRef.inClass (e : EntityRef) : String := s!"in class {e.container}"

/-- A method and its class, as a phrase. -/
def EntityRef.asPlace (e : EntityRef) : String :=
  s!"in method {e.signature} from class {e.container}"

/-- Names in brackets. -/
def bracketed (names : List String) : String := "[" ++ ", ".intercalate names ++ "]"

/-- The description of a change of an entity. -/
def EntityChange.describe (change : EntityChange) (before after : EntityRef) : String :=
  let name := change.displayName
  match change with
  | renameClass => s!"{name} {before.qualifiedName} renamed to {after.qualifiedName}"
  | moveClass => s!"{name} {before.qualifiedName} moved to {after.qualifiedName}"
  | moveAndRenameClass =>
    s!"{name} {before.qualifiedName} moved and renamed to {after.qualifiedName}"
  | renameAttribute | changeAttributeType =>
    s!"{name} {before.signature} to {after.signature} {after.inClass}"
  | _ =>
    s!"{name} {before.signature} from class {before.container} to {after.signature} from class {after.container}"

/-- The description of a change of a signature. -/
def ParameterChange.describe (change : ParameterChange) (before after : EntityRef) : String :=
  let name := change.displayName
  match change with
  | add parameter => s!"{name} {parameter.text} {after.asPlace}"
  | remove parameter =>
    s!"{name} {parameter.text} in method {before.signature} from class {after.container}"
  | rename old new | changeType old new => s!"{name} {old.text} to {new.text} {after.asPlace}"
  | reorder old new => s!"{name} {bracketed old} to {bracketed new} {after.asPlace}"
  | changeReturnType old new =>
    let word := fun (type : Option String) => type.getD "none"
    s!"{name} {word old} to {word new} {after.asPlace}"

/-- The description of a change of a variable. -/
def VariableChange.describe (change : VariableChange) (before after : EntityRef) : String :=
  let name := change.displayName
  match change with
  | rename old new | changeType old new => s!"{name} {old.text} to {new.text} {after.asPlace}"
  | extract added => s!"{name} {added.text} {after.asPlace}"
  | inline removed => s!"{name} {removed.text} {before.asPlace}"

/-- The description of a fact. -/
def Fact.describe (fact : Fact) : String :=
  let name := fact.displayName
  match fact with
  | change what before after => what.describe before after
  | renameMethod before after _ _ =>
    s!"{name} {before.signature} renamed to {after.signature} {after.inClass}"
  | extractMethod moved extracted source _ =>
    let text := s!"{name} {extracted.signature} extracted from {source.signature} {source.inClass}"
    if moved then s!"{text} & moved to class {extracted.container}" else text
  | inlineMethod moved inlined _ target =>
    if moved then
      s!"{name} {inlined.signature} moved from class {inlined.container} to class {target.container} & inlined to {target.signature}"
    else s!"{name} {inlined.signature} inlined to {target.signature} {target.inClass}"
  | mergeMethod merged into =>
    s!"{name} {bracketed (merged.map (·.signature))} to {into.signature} {into.inClass}"
  | splitMethod split into =>
    s!"{name} {split.signature} to {bracketed (into.map (·.signature))} {split.inClass}"
  | parameterChange before after what => what.describe before after
  | variableChange before after what => what.describe before after

end Reshape
