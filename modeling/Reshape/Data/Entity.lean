import Reshape.Json.Decode
import Reshape.Model.Entity

/-! # Entities as data

The JSON forms of spans, references to entities, parameters and variables. -/

namespace Reshape

namespace Span

/-- The fields of a span. -/
def fieldNames : List String :=
  ["start_line", "start_column", "end_line", "end_column", "start_byte", "end_byte"]

/-- The numbers of a span, in the order of its fields. -/
def numbers (span : Span) : List Nat :=
  [span.startLine, span.startColumn, span.endLine, span.endColumn, span.startByte, span.endByte]

/-- A span as an object. -/
def toJson (span : Span) : Json :=
  .object (fieldNames.zip (span.numbers.map Json.ofNat))

/-- The span of an object. -/
def ofJson? (json : Json) : Option Span := do
  let values ← json.allFields? fieldNames
  match ← values.mapM Json.nat? with
  | [startLine, startColumn, endLine, endColumn, startByte, endByte] =>
    return { startLine, startColumn, endLine, endColumn, startByte, endByte }
  | _ => none

end Span

namespace Path

/-- A path as data. -/
def toJson (path : Path) : Json := .string path.text

/-- The path of a string. -/
def ofJson? (json : Json) : Option Path := json.string?.map Path.mk

end Path

namespace EntityId

/-- The number of an entity as data. -/
def toJson (id : EntityId) : Json :=
  .object [("kind", .string id.kind.name), ("index", .ofNat id.index)]

/-- The number of an entity, read from data. -/
def ofJson? (json : Json) : Option EntityId := do
  match ← json.allFields? ["kind", "index"] with
  | [kind, index] => return ⟨← EntityKind.ofName? (← kind.string?), ← index.nat?⟩
  | _ => none

end EntityId

namespace EntityRef

/-- A reference as data. -/
def toJson (e : EntityRef) : Json :=
  .object
    [("id", e.id.toJson), ("name", .string e.name), ("container", .string e.container),
     ("signature", .string e.signature), ("path", e.path.toJson), ("node", .ofNat e.node),
     ("span", e.span.toJson)]

/-- A reference, read from data. -/
def ofJson? (json : Json) : Option EntityRef := do
  match ← json.allFields? ["id", "name", "container", "signature", "path", "node", "span"] with
  | [id, name, container, signature, path, node, span] =>
    return {
      id := ← EntityId.ofJson? id
      name := ← name.string?
      container := ← container.string?
      signature := ← signature.string?
      path := ← Path.ofJson? path
      node := ← node.nat?
      span := ← Span.ofJson? span }
  | _ => none

end EntityRef

namespace Parameter

/-- A parameter as data. -/
def toJson (p : Parameter) : Json :=
  .object
    [("name", .string p.name), ("type_name", .ofOption .string p.typeName), ("node", .ofNat p.node)]

/-- A parameter, read from data. -/
def ofJson? (json : Json) : Option Parameter := do
  match ← json.fields? ["name", "type_name", "node"] with
  | [some name, typeName, some node] =>
    return {
      name := ← name.string?
      typeName := ← Json.nullable? Json.string? typeName
      node := ← node.nat? }
  | _ => none

end Parameter

namespace Variable

/-- A variable as data; `span` gives the form of its span. -/
def toJson (span : Span → Json) (v : Variable) : Json :=
  .object
    [("name", .string v.name), ("type_name", .ofOption .string v.typeName),
     ("initializer", .ofOption .string v.initializer), ("operation", .ofNat v.operation),
     ("path", v.path.toJson), ("node", .ofNat v.node), ("span", span v.span)]

/-- A variable, read from data. -/
def ofJson? (json : Json) : Option Variable := do
  match ← json.fields? ["name", "type_name", "initializer", "operation", "path", "node",
    "span"] with
  | [some name, typeName, initializer, some operation, some path, some node, some span] =>
    return {
      name := ← name.string?
      typeName := ← Json.nullable? Json.string? typeName
      initializer := ← Json.nullable? Json.string? initializer
      operation := ← operation.nat?
      path := ← Path.ofJson? path
      node := ← node.nat?
      span := ← Span.ofJson? span }
  | _ => none

end Variable

end Reshape
