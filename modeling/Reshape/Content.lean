import Reshape.FileMap
import Reshape.Filter

/-! # Contents of files

The files of a directory or of a commit hold bytes; only those that are texts in UTF-8 can be
loaded. -/

namespace Reshape

/-- The files of a directory, by paths within it. -/
abbrev Content := FileMap ByteArray

namespace Content

/-- The texts of the files that a filter accepts. Files that are no texts are left out. -/
def texts (content : Content) (filter : FileFilter) : FileMap String :=
  ⟨content.entries.filterMap fun (path, bytes) =>
    if filter.accepts path then (String.fromUTF8? bytes).map fun text => (path, text) else none⟩

/-- A path of names. -/
def pathOf (components : List PathComponent) : Path :=
  ⟨String.intercalate "/" (components.map PathComponent.text)⟩

/-- The files below a directory, by paths within that directory. -/
def below (content : Content) (directory : List PathComponent) : Content :=
  ⟨content.entries.filterMap fun (path, bytes) =>
    let components := path.components
    if directory.isPrefixOf components && directory.length < components.length then
      some (pathOf (components.drop directory.length), bytes)
    else none⟩

end Content

end Reshape
