import Reshape.Tree.Node

/-! # Categories of Java nodes

The node kinds are those of the Java grammar. -/

namespace Reshape.Language

/-- Kinds of Java nodes whose children are statements. -/
def javaStatementContainers : List String :=
  ["block", "constructor_body", "switch_block_statement_group", "labeled_statement"]

/-- The category of a Java node. A `switch` is a statement only where statements stand. -/
def javaCategory (kind : String) (parentKind _grandparentKind : Option String) : Category :=
  match kind with
  | "class_declaration" | "interface_declaration" | "enum_declaration" | "record_declaration"
  | "annotation_type_declaration" => .typeDeclaration
  | "method_declaration" | "constructor_declaration" | "compact_constructor_declaration" =>
    .operation
  | "field_declaration" | "constant_declaration" => .attribute
  | "formal_parameter" | "spread_parameter" => .parameter
  | "local_variable_declaration" => .variableDeclaration
  | "block" | "constructor_body" | "switch_block" | "switch_block_statement_group" => .block
  | "switch_expression" =>
    if parentKind.any javaStatementContainers.contains then .statement else .other
  | "expression_statement" | "if_statement" | "for_statement" | "enhanced_for_statement"
  | "while_statement" | "do_statement" | "return_statement" | "break_statement"
  | "continue_statement" | "throw_statement" | "yield_statement" | "assert_statement"
  | "try_statement" | "try_with_resources_statement" | "catch_clause" | "finally_clause"
  | "synchronized_statement" | "labeled_statement" | "explicit_constructor_invocation"
  | "switch_label" | "switch_rule" => .statement
  | "method_invocation" | "object_creation_expression" => .invocation
  | "identifier" | "type_identifier" => .identifier
  | "true" | "false" => .literal
  | _ => if kind.endsWith "_literal" then .literal else .other

end Reshape.Language
