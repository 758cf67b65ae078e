import Reshape.Path

/-! # Values by path

A file map keeps its entries in the order of their paths, one for every path. -/

namespace Reshape

/-- Values by path, in the order of the paths. -/
structure FileMap (α : Type) where
  entries : List (Path × α) := []

namespace FileMap

variable {α : Type}

/-- The map without entries. -/
def empty : FileMap α := {}

/-- Entries with a value set for a path. A path that is there already stays as it is written. -/
def insertInto (path : Path) (value : α) : List (Path × α) → List (Path × α)
  | [] => [(path, value)]
  | (p, v) :: rest =>
    match compare path p with
    | .lt => (path, value) :: (p, v) :: rest
    | .eq => (p, value) :: rest
    | .gt => (p, v) :: insertInto path value rest

/-- Set the value of a path. -/
def insert (map : FileMap α) (path : Path) (value : α) : FileMap α :=
  ⟨insertInto path value map.entries⟩

/-- The map of a list of entries; of several for one path the last counts. -/
def ofList (entries : List (Path × α)) : FileMap α :=
  entries.foldl (fun map (path, value) => map.insert path value) empty

/-- The value of a path. -/
def get? (map : FileMap α) (path : Path) : Option α :=
  (map.entries.find? (·.1 == path)).map (·.2)

/-- Whether a path has a value. -/
def contains (map : FileMap α) (path : Path) : Bool :=
  (map.get? path).isSome

/-- The paths, in order. -/
def paths (map : FileMap α) : List Path :=
  map.entries.map (·.1)

/-- The values, in the order of their paths. -/
def values (map : FileMap α) : List α :=
  map.entries.map (·.2)

end FileMap

end Reshape
