import Reshape.Config
import Reshape.Failure
import Reshape.Glob.Parse
import Reshape.Language

/-! # Which files are loaded

A file is loaded if its extension is asked for and no pattern excludes its path. -/

namespace Reshape

/-- What tells the files to load from others. -/
structure FileFilter where
  /-- The extensions of the files to load, in any case; none means all files. -/
  extensions : List String
  exclude : List Glob

namespace FileFilter

/-- The filter of a configuration, if its patterns are well-formed. -/
def ofConfig (config : Config) : Except Failure FileFilter :=
  match config.excludePatterns.mapM Glob.parse? with
  | some exclude => .ok { extensions := config.extensions, exclude }
  | none => .error .malformedPattern

/-- Whether a file with this path is loaded. -/
def accepts (filter : FileFilter) (path : Path) : Bool :=
  (filter.extensions.isEmpty
      || path.extension?.any fun ext => filter.extensions.any (Language.sameWord · ext))
    && !filter.exclude.any (·.accepts path.text)

end FileFilter

end Reshape
