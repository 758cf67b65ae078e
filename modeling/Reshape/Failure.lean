import Reshape.Path
import Reshape.Violation

/-! # Failures

What can keep a comparison from giving a result, and the message that says so. -/

namespace Reshape

/-- Why there is no result. -/
inductive Failure where
  /-- The source of a file has a syntax error near a line. -/
  | syntaxError (path : Path) (line : Nat)
  /-- No language is known for a file. -/
  | unsupportedLanguage (path : Path)
  /-- A name stands for no commit. -/
  | unknownReference (reference : String)
  /-- A name stands for something that holds no files. -/
  | notATree (reference : String)
  /-- A configuration cannot be used. -/
  | invalidConfig (message : String)
  /-- A file cannot be used for an activity, since it does not exist. -/
  | inaccessible (activity : String)
  /-- A pattern of excluded paths is malformed. -/
  | malformedPattern
  /-- A file or a directory is missing. -/
  | fileNotFound (path : Path)
  /-- A mapping or a script does not fit the trees of two files. -/
  | violation (source target : Path) (cause : Violation)
  deriving Repr

namespace Failure

/-- The message of a failure. -/
def message : Failure → String
  | syntaxError path line =>
    s!"Tree-sitter parse error for {path.text}: syntax error near line {line}"
  | unsupportedLanguage path => s!"Language not supported: {path.text}"
  | unknownReference reference => "Invalid git ref '" ++ reference ++ "'"
  | notATree reference => "Invalid git ref '" ++ reference ++ "': could not get tree"
  | invalidConfig message => s!"Invalid configuration: {message}"
  | inaccessible activity =>
    s!"IO error: Failed to {activity}: No such file or directory (os error 2)"
  | malformedPattern => "Glob pattern error"
  | fileNotFound path => s!"File not found in snapshot: {path.text}"
  | violation source target cause =>
    s!"Invariant violated diffing {source.text} -> {target.text}: {cause.message}"

end Failure

end Reshape
