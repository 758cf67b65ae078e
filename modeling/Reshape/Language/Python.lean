import Reshape.Tree.Node

/-! # Categories of Python nodes

The node kinds are those of the Python grammar. -/

namespace Reshape.Language

/-- Kinds of Python nodes that are parameters in a list of parameters. -/
def pythonParameterKinds : List String :=
  ["identifier", "typed_parameter", "default_parameter", "typed_default_parameter",
   "list_splat_pattern", "dictionary_splat_pattern"]

/-- The category of a Python node that does not depend on where it stands. -/
def pythonKindCategory : String → Category
  | "class_definition" => .typeDeclaration
  | "function_definition" => .operation
  | "block" => .block
  | "expression_statement" | "return_statement" | "if_statement" | "elif_clause" | "else_clause"
  | "for_statement" | "while_statement" | "try_statement" | "except_clause" | "finally_clause"
  | "with_statement" | "raise_statement" | "pass_statement" | "break_statement"
  | "continue_statement" | "assert_statement" | "delete_statement" | "global_statement"
  | "nonlocal_statement" | "import_statement" | "import_from_statement" | "match_statement"
  | "case_clause" => .statement
  | "call" => .invocation
  | "identifier" => .identifier
  | "string" | "integer" | "float" | "true" | "false" | "none" => .literal
  | _ => .other

/-- The category of a Python node. An expression right in the body of a class is an attribute. -/
def pythonCategory (kind : String) (parentKind grandparentKind : Option String) : Category :=
  if kind == "expression_statement" && parentKind == some "block"
      && grandparentKind == some "class_definition" then .attribute
  else if pythonParameterKinds.contains kind && parentKind == some "parameters" then .parameter
  else pythonKindCategory kind

end Reshape.Language
