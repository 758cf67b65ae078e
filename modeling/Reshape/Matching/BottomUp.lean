import Reshape.Matching.Recovery
import Reshape.Matching.TopDown

/-! # Matching inner nodes by what they contain

Inner nodes without a partner are visited in postorder. Each is paired with the free target node of
its kind that shares most descendants with it, provided they share enough. The roots of the two
subtrees are paired last, if both are free and of one kind. -/

namespace Reshape.Matching

variable {digest : Digest} (source target : Measured digest)

/-- The free target nodes strictly below `root` of the kind of `s` that contain the partner of a
descendant of `s`, ascending. -/
def containers (mapping : Mapping) (root s : Nat) : List Nat :=
  target.tree.ids.filter fun t =>
    t != root && target.tree.kind t == source.tree.kind s && !mapping.hasTarget t
      && target.tree.isAncestorOrSelf root t && shared source target mapping s t != 0

/-- The better of two scored nodes: the one with the greater score, or with an equal score and the
smaller index. The first one stays otherwise. -/
def betterContainer (best : Nat × Float) (next : Nat × Float) : Nat × Float :=
  if next.2 > best.2 || (next.2 == best.2 && target.index next.1 < target.index best.1) then next
  else best

/-- The container that shares most descendants with `s`, and its score. -/
def bestContainer (mapping : Mapping) (root s : Nat) : Option (Nat × Float) :=
  let scored := (containers source target mapping root s).map fun t =>
    (t, dice source target mapping s t)
  match scored with
  | [] => none
  | first :: rest => some (rest.foldl (betterContainer target) first)

/-- Pair one inner node with its best container, if their Dice coefficient reaches the threshold. -/
def pairContainer (threshold : Float) (root : Nat) (mapping : Mapping) (s : Nat) :
    Except Violation Mapping :=
  if mapping.hasSource s || (source.tree.children s).isEmpty then .ok mapping
  else
    match bestContainer source target mapping root s with
    | none => .ok mapping
    | some (t, score) =>
      if score ≥ threshold then do
        let mapping ← (mapping.add s t).toExcept
        recover source target mapping s t
      else .ok mapping

/-- Pair the roots of two subtrees if both are free and of one kind. -/
def pairRoots (mapping : Mapping) (s t : Nat) : Except Violation Mapping :=
  if !mapping.hasSource s && !mapping.hasTarget t && source.tree.kind s == target.tree.kind t then
    (mapping.add s t).toExcept
  else .ok mapping

/-- Map the inner nodes of two subtrees. -/
def bottomUp (threshold : Float) (mapping : Mapping) (s t : Nat) : Except Violation Mapping := do
  let mapping ← (source.tree.postorder s).dropLast.foldlM
    (pairContainer source target threshold t) mapping
  let mapping ← pairRoots source target mapping s t
  if mapping.has s t then recover source target mapping s t else .ok mapping

end Reshape.Matching
