import Reshape.Data.Entity
import Reshape.Refactoring.Basic

/-! # Refactorings as data

A refactoring is an object with the type of its fact, the fields of the fact, the description, and
the fragments that support it. How references, spans and floats look is left to a format. -/

namespace Reshape

/-- How the parts of a fact look in JSON. -/
structure FactFormat where
  entity : EntityRef → Json
  span : Span → Json
  float : Float → Json
  fragment : Fragment → Json

/-- The form in which parts are plain objects. -/
def FactFormat.standard : FactFormat where
  entity := EntityRef.toJson
  span := Span.toJson
  float := Json.ofFloat
  fragment f :=
    .object [("path", f.path.toJson), ("node", .ofNat f.node), ("span", f.span.toJson)]

namespace ParameterChange

/-- The fields of a change of a signature. -/
def fields : ParameterChange → List (String × Json)
  | add parameter | remove parameter => [("parameter", parameter.toJson)]
  | rename old new | changeType old new => [("old", old.toJson), ("new", new.toJson)]
  | reorder old new => [("old_order", .ofList .string old), ("new_order", .ofList .string new)]
  | changeReturnType old new =>
    [("old", .ofOption .string old), ("new", .ofOption .string new)]

end ParameterChange

namespace VariableChange

/-- The fields of a change of a variable. -/
def fields (span : Span → Json) : VariableChange → List (String × Json)
  | rename old new | changeType old new => [("old", old.toJson span), ("new", new.toJson span)]
  | extract v | inline v => [("variable", v.toJson span)]

end VariableChange

namespace Fact

/-- The fields of a fact. -/
def fields (format : FactFormat) : Fact → List (String × Json)
  | change _ before after => [("before", format.entity before), ("after", format.entity after)]
  | renameMethod before after similarity isPure =>
    [("before", format.entity before), ("after", format.entity after),
     ("body_similarity", format.float similarity), ("pure", .bool isPure)]
  | extractMethod _ extracted sourceBefore sourceAfter =>
    [("extracted", format.entity extracted), ("source_before", format.entity sourceBefore),
     ("source_after", format.entity sourceAfter)]
  | inlineMethod _ inlined targetBefore targetAfter =>
    [("inlined", format.entity inlined), ("target_before", format.entity targetBefore),
     ("target_after", format.entity targetAfter)]
  | mergeMethod merged into =>
    [("merged", .ofList format.entity merged), ("into", format.entity into)]
  | splitMethod split into => [("split", format.entity split), ("into", .ofList format.entity into)]
  | parameterChange before after what =>
    [("before", format.entity before), ("after", format.entity after)] ++ what.fields
  | variableChange before after what =>
    [("before", format.entity before), ("after", format.entity after)] ++ what.fields format.span

end Fact

namespace Refactoring

/-- The fields of a refactoring. Without support there is no justification. -/
def fields (format : FactFormat) (r : Refactoring) : List (String × Json) :=
  let pair := fun (p : FragmentPair) =>
    Json.object [("before", format.fragment p.before), ("after", format.fragment p.after)]
  let justification :=
    if r.justification.isEmpty then []
    else [("justification", Json.object [("pairs", .ofList pair r.justification)])]
  ("type", .string (Fact.typeName r.fact.displayName)) :: r.fact.fields format
    ++ ("description", .string r.description) :: justification

end Refactoring

namespace Fact

/-- The names of the fields of a fact, by the name of its type. -/
def fieldNames : String → List String
  | "rename_method" => ["before", "after", "body_similarity", "pure"]
  | "extract_method" | "extract_and_move_method" => ["extracted", "source_before", "source_after"]
  | "inline_method" | "move_and_inline_method" => ["inlined", "target_before", "target_after"]
  | "merge_method" => ["merged", "into"]
  | "split_method" => ["split", "into"]
  | "add_parameter" | "remove_parameter" => ["before", "after", "parameter"]
  | "rename_parameter" | "change_parameter_type" | "change_return_type" | "rename_variable"
  | "change_variable_type" => ["before", "after", "old", "new"]
  | "reorder_parameter" => ["before", "after", "old_order", "new_order"]
  | "extract_variable" | "inline_variable" => ["before", "after", "variable"]
  | _ => ["before", "after"]

/-- A list of references, read from data. -/
def refs? (json : Json) : Option (List EntityRef) := do
  let items ← json.array?
  items.mapM EntityRef.ofJson?

/-- A change of a signature, read from the values of its fields. -/
def parameterChange? (type : String) (values : List (Option Json)) : Option ParameterChange := do
  match type, values with
  | "add_parameter", [some p] => return .add (← Parameter.ofJson? p)
  | "remove_parameter", [some p] => return .remove (← Parameter.ofJson? p)
  | "rename_parameter", [some old, some new] =>
    return .rename (← Parameter.ofJson? old) (← Parameter.ofJson? new)
  | "change_parameter_type", [some old, some new] =>
    return .changeType (← Parameter.ofJson? old) (← Parameter.ofJson? new)
  | "reorder_parameter", [some old, some new] => return .reorder (← old.strings?) (← new.strings?)
  | "change_return_type", [old, new] =>
    return .changeReturnType (← Json.nullable? Json.string? old) (← Json.nullable? Json.string? new)
  | _, _ => none

/-- A change of a variable, read from the values of its fields. -/
def variableChange? (type : String) (values : List (Option Json)) : Option VariableChange := do
  match type, values with
  | "rename_variable", [some old, some new] =>
    return .rename (← Variable.ofJson? old) (← Variable.ofJson? new)
  | "extract_variable", [some v] => return .extract (← Variable.ofJson? v)
  | "inline_variable", [some v] => return .inline (← Variable.ofJson? v)
  | "change_variable_type", [some old, some new] =>
    return .changeType (← Variable.ofJson? old) (← Variable.ofJson? new)
  | _, _ => none

/-- The change of an entity of a type name. -/
def entityChange? (type : String) : Option EntityChange :=
  (EntityChange.names.find? fun (_, name) => typeName name == type).map (·.1)

/-- A fact, read from its type and the values of its fields. -/
def ofValues? (type : String) (values : List (Option Json)) : Option Fact := do
  let ref := EntityRef.ofJson?
  match type, values with
  | "rename_method", [some before, some after, some similarity, some isPure] =>
    return .renameMethod (← ref before) (← ref after) (← similarity.float?) (← isPure.bool?)
  | "extract_method", [some extracted, some before, some after] =>
    return .extractMethod false (← ref extracted) (← ref before) (← ref after)
  | "extract_and_move_method", [some extracted, some before, some after] =>
    return .extractMethod true (← ref extracted) (← ref before) (← ref after)
  | "inline_method", [some inlined, some before, some after] =>
    return .inlineMethod false (← ref inlined) (← ref before) (← ref after)
  | "move_and_inline_method", [some inlined, some before, some after] =>
    return .inlineMethod true (← ref inlined) (← ref before) (← ref after)
  | "merge_method", [some merged, some into] => return .mergeMethod (← refs? merged) (← ref into)
  | "split_method", [some split, some into] => return .splitMethod (← ref split) (← refs? into)
  | _, some before :: some after :: rest =>
    match entityChange? type with
    | some what => return .change what (← ref before) (← ref after)
    | none =>
      match parameterChange? type rest with
      | some what => return .parameterChange (← ref before) (← ref after) what
      | none => return .variableChange (← ref before) (← ref after) (← variableChange? type rest)
  | _, _ => none

/-- A fact, read from data: an object with its type among its fields, or an array that starts with
its type. -/
def ofJson? (json : Json) : Option Fact := do
  let (type, rest) ← match json with
    | .object fields => some (fields.lookup "type", json)
    | .array (type :: rest) => some (some type, .array rest)
    | _ => none
  let type ← (← type).string?
  ofValues? type (← rest.fields? (fieldNames type))

end Fact

end Reshape
