import Reshape.Archive
import Reshape.Command.Report
import Reshape.Config.Format

/-! # Running commands

A command reads its configuration, loads the snapshots, compares them and prints a report for every
comparison. The first thing that fails ends it, with a line that says what was being done. -/

namespace Reshape

/-- What a command leaves behind. -/
structure Outcome where
  /-- The exit code: 0 for success, 1 for a failure, 2 for a command line that makes no sense. -/
  code : Nat := 0
  output : String := ""
  /-- The lines for the user that are no results. -/
  messages : List String := []
  deriving Repr

namespace Outcome

/-- Print a report. -/
def report (outcome : Outcome) (display : Display) (report : ProjectReport) : Outcome :=
  { outcome with
    output := outcome.output ++ report.print display
    messages := outcome.messages ++ report.warnings }

/-- Give up. -/
def fail (outcome : Outcome) (message : String) : Outcome :=
  { outcome with code := 1, messages := outcome.messages ++ [s!"Error: {message}"] }

end Outcome

namespace Command

variable (archive : Archive)

/-- Say what was being done when something failed. -/
def during {α : Type} (activity : String) (result : Except Failure α) : Except String α :=
  result.mapError fun _ => activity

/-- The pairs of references to compare. -/
def ranges (history : History) (config : Config) (source target : String) (each : Bool) :
    Except String (List (String × String)) := do
  if each then
    let _ ← (FileFilter.ofConfig config).mapError Failure.message
    let pairs ← during "Failed to walk commit range" (history.commitRange source target)
    if pairs.isEmpty then throw s!"No commits between {source} and {target}"
    return pairs
  else return [(source, target)]

/-- The snapshots of the commits to compare. -/
def commitPairs (config : Config) (source target : String) (repository : Path) (each : Bool) :
    Except String (List (Snapshot × Snapshot)) := do
  let some history := archive.repository? repository
    | throw s!"Failed to open repository {repository.text}"
  let pairs ← ranges history config source target each
  pairs.mapM fun (parent, commit) =>
    during s!"Failed to load {parent}..{commit}"
      (Snapshot.pairOfHistory history parent commit config archive.parse)

/-- The snapshots of two directories. -/
def directoryPair (config : Config) (before after : Path) :
    Except String (Snapshot × Snapshot) := do
  let load (directory : Path) : Except String Snapshot :=
    during s!"Failed to load {directory.text}"
      (Snapshot.ofFolder archive.folder directory config archive.parse)
  return (← load before, ← load after)

/-- Compare two snapshots and print the report. -/
def compare (config : Config) (display : Display) (activity : String) (outcome : Outcome)
    (before after : Snapshot) : Except Outcome Outcome :=
  match ProjectDiff.between before after config with
  | .ok project => .ok (outcome.report display { before, after, project })
  | .error _ => .error (outcome.fail activity)

/-- The outcome, whether reached or broken off. -/
def settle : Except Outcome Outcome → Outcome
  | .ok outcome | .error outcome => outcome

/-- The list of the languages. -/
def languageList : String :=
  "Supported languages:\n" ++ String.join (Language.all.map fun language =>
    let extensions := String.intercalate ", " language.extensions
    s!"  {language.name} (extensions: {extensions})\n")

/-- Run a command. -/
def run (config : Config) : Command → Outcome
  | commits source target repository each display =>
    match commitPairs archive config source target repository each with
    | .error message => ({} : Outcome).fail message
    | .ok pairs => settle <| pairs.foldlM (fun outcome (before, after) =>
        compare config display s!"Failed to diff {before.label}..{after.label}" outcome
          before after)
        {}
  | directories before after display =>
    match directoryPair archive config before after with
    | .error message => ({} : Outcome).fail message
    | .ok (before, after) => settle (compare config display "Diff failed" {} before after)
  | languages => { output := languageList }

end Command

namespace CommandLine

/-- The configuration of a command line. -/
def configuration (archive : Archive) (line : CommandLine) : Except String Config := do
  let config ← match line.config with
    | none => .ok {}
    | some path =>
      Command.during s!"Failed to load config {path.text}"
        (Config.ofFile path (archive.folder.text? path))
  return if line.sequential then config.sequential else config

/-- Run the command line of some arguments. -/
def run (archive : Archive) (arguments : List String) : Outcome :=
  match ofArguments? arguments with
  | none => { code := 2, messages := ["error: invalid arguments"] }
  | some line =>
    match line.configuration archive with
    | .error message => ({} : Outcome).fail message
    | .ok config => line.command.run archive config

end CommandLine

end Reshape
