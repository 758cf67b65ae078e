import Reshape.Path

/-! # Command lines

A command line is a command with its operands and options. Options may stand anywhere behind the
command, and those for all commands also before it. A long option takes its value from behind an
equals sign or from the next argument; short options without values can be joined in one argument,
and the last one of them may have its value right behind it. No option is given twice before the
command, and none twice behind it; an option for all commands that is given on both sides has the
value from behind. -/

namespace Reshape

/-- How a comparison is shown. -/
inductive OutputFormat where
  /-- Refactorings, actions and a summary. -/
  | text
  /-- Refactorings only. -/
  | refactorings
  /-- All of it as data. -/
  | json
  deriving Repr, DecidableEq

namespace OutputFormat

/-- The format of a name. -/
def ofName? (name : String) : Option OutputFormat :=
  List.lookup name [("text", text), ("refactorings", refactorings), ("json", json)]

end OutputFormat

/-- How results are shown. -/
structure Display where
  format : OutputFormat := .text
  /-- Whether the lines that differ are shown too. -/
  lines : Bool := false
  deriving Repr, DecidableEq

/-- What is to be done. -/
inductive Command where
  /-- Compare two commits, or every commit between them with its parent. -/
  | commits (source target : String) (repository : Path) (each : Bool) (display : Display)
  /-- Compare two directories. -/
  | directories (before after : Path) (display : Display)
  /-- List the languages. -/
  | languages
  deriving Repr

/-- A command line. -/
structure CommandLine where
  command : Command
  /-- The file with the configuration. -/
  config : Option Path := none
  /-- Whether files are to be compared one after the other. -/
  sequential : Bool := false
  deriving Repr

namespace CommandLine

/-- An option that can be given. -/
structure OptionKind where
  name : String
  short : Option Char := none
  takesValue : Bool := false

/-- The options for all commands. -/
def generalOptions : List OptionKind :=
  [{ name := "verbose", short := some 'v' }, { name := "quiet", short := some 'q' },
   { name := "config", short := some 'c', takesValue := true }, { name := "sequential" }]

/-- The options for the display of results. -/
def displayOptions : List OptionKind :=
  [{ name := "format", short := some 'f', takesValue := true }, { name := "diff" }]

/-- The options of a command, or of none. -/
def optionsOf : Option String → List OptionKind
  | some "commits" =>
    generalOptions ++ displayOptions
      ++ [{ name := "repo", short := some 'r', takesValue := true }, { name := "each" }]
  | some "dirs" => generalOptions ++ displayOptions
  | _ => generalOptions

/-- What has been read of a command line. -/
structure Reading where
  command : Option String := none
  operands : List String := []
  /-- The options given before the command, with their values. -/
  general : List (String × String) := []
  /-- The options given since the command, or so far if there is none, with their values. -/
  options : List (String × String) := []
  /-- The option that the next argument is the value of. -/
  pending : Option String := none
  /-- Whether all that follows is operands. -/
  closed : Bool := false

namespace Reading

/-- Note an option with its value; refuse a repeated one. -/
def give? (reading : Reading) (name value : String) : Option Reading :=
  if (reading.options.lookup name).isSome then none
  else some { reading with options := reading.options ++ [(name, value)] }

/-- Read an argument that is no option. The first one is the command. -/
def operand (reading : Reading) (argument : String) : Reading :=
  match reading.command with
  | none => { reading with command := some argument, general := reading.options, options := [] }
  | some _ => { reading with operands := reading.operands ++ [argument] }

/-- Read a long option, without its dashes. -/
def long? (reading : Reading) (text : List Char) : Option Reading := do
  let name := String.ofList (text.takeWhile (· != '='))
  let kind ← (optionsOf reading.command).find? (·.name == name)
  match text.dropWhile (· != '='), kind.takesValue with
  | [], true => some { reading with pending := some name }
  | _ :: value, true => reading.give? name (String.ofList value)
  | [], false => reading.give? name ""
  | _ :: _, false => none

/-- Read short options, without their dash. -/
def short? : Reading → List Char → Option Reading
  | reading, [] => some reading
  | reading, c :: rest => do
    let kind ← (optionsOf reading.command).find? (·.short == some c)
    if kind.takesValue then
      match rest with
      | [] => some { reading with pending := some kind.name }
      | '=' :: value => reading.give? kind.name (String.ofList value)
      | value => reading.give? kind.name (String.ofList value)
    else short? (← reading.give? kind.name "") rest

/-- Read an argument. -/
def argument? (reading : Reading) (argument : String) : Option Reading :=
  match reading.pending with
  | some name =>
    if argument.startsWith "-" && argument.length > 1 then none
    else { reading with pending := none }.give? name argument
  | none =>
    if reading.closed then some (reading.operand argument)
    else match argument.toList with
      | ['-', '-'] => some { reading with closed := true }
      | '-' :: '-' :: text => reading.long? text
      | '-' :: c :: text => reading.short? (c :: text)
      | _ => some (reading.operand argument)

/-- The value of an option, if it is given. -/
def value? (reading : Reading) (name : String) : Option String :=
  (reading.options.lookup name).or (reading.general.lookup name)

/-- Whether an option is given. -/
def has (reading : Reading) (name : String) : Bool :=
  (reading.value? name).isSome

/-- Whether options on one side of the command contradict each other. -/
def isContradictory (reading : Reading) : Bool :=
  [reading.general, reading.options].any fun options =>
    ["verbose", "quiet"].all fun name => (options.lookup name).isSome

/-- How results are to be shown. -/
def display? (reading : Reading) : Option Display := do
  let format ← match reading.value? "format" with
    | some name => OutputFormat.ofName? name
    | none => some .text
  return { format, lines := reading.has "diff" }

/-- The command that has been read. -/
def command? (reading : Reading) : Option Command := do
  match reading.command, reading.operands with
  | some "commits", [source, target] =>
    let repository := (reading.value? "repo").getD "."
    return .commits source target ⟨repository⟩ (reading.has "each") (← reading.display?)
  | some "dirs", [before, after] => return .directories ⟨before⟩ ⟨after⟩ (← reading.display?)
  | some "languages", [] => return .languages
  | _, _ => none

end Reading

/-- The command line of some arguments, if they make one. -/
def ofArguments? (arguments : List String) : Option CommandLine := do
  let reading ← arguments.foldlM Reading.argument? {}
  if reading.pending.isSome || reading.isContradictory then none
  else
    return {
      command := ← reading.command?
      config := (reading.value? "config").map Path.mk
      sequential := reading.has "sequential" }

end CommandLine

end Reshape
