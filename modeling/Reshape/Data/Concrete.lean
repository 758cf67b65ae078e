import Reshape.Concrete
import Reshape.Json.Decode

/-! # Concrete trees as data

A node is the array of its kind, its field or null, its marks, its first byte, the byte behind it
and, unless it has none, its children. The marks are bits of one number. -/

namespace Reshape.ConcreteTree

/-- The node of the leading items of an array. -/
def node? (kind field marks start stop : Json) : Option ConcreteNode := do
  let bits ← marks.nat?
  return {
    kind := ← kind.string?
    field := field.string?
    named := bits.testBit 0
    extra := bits.testBit 1
    isError := bits.testBit 2
    isMissing := bits.testBit 3
    hasError := bits.testBit 4
    startByte := ← start.nat?
    endByte := ← stop.nat? }

mutual

/-- The tree of an array. -/
def ofJson? : Json → Option ConcreteTree
  | .array [kind, field, marks, start, stop] => do
    return .node (← node? kind field marks start stop) []
  | .array [kind, field, marks, start, stop, .array children] => do
    return .node (← node? kind field marks start stop) (← ofJsonAll? children)
  | _ => none

/-- The trees of some arrays. -/
def ofJsonAll? : List Json → Option (List ConcreteTree)
  | [] => some []
  | json :: rest => do
    return (← ofJson? json) :: (← ofJsonAll? rest)

end

end Reshape.ConcreteTree
