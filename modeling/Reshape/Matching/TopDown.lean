import Reshape.Mapping.Subtrees
import Reshape.Number.Numeral
import Reshape.Tree.Isomorphism

/-! # Matching equal subtrees, tallest first

On either side a queue holds the open nodes by the heights of their subtrees. The taller of the two
queues is taken down first: its tallest nodes are opened, that is, their children join the queue.
When both are equally tall, their tallest nodes are compared. Isomorphic subtrees that have no
second candidate on either side are mapped at once. Those with several candidates are put aside,
ranked when one of the queues is empty, and mapped as long as they are free. A node whose subtree
has no partner is opened.

What ranks a pair is how alike the parents are: to the degree that the nodes below them are mapped
to each other. -/

namespace Reshape.Matching

variable {digest : Digest} (source target : Measured digest)

/-- The number of nodes strictly below `s` whose partners lie strictly below `t`. -/
def shared (mapping : Mapping) (s t : Nat) : Nat :=
  ((source.tree.descendants s).filter fun x =>
    (mapping.target? x).any fun y => y != t && target.tree.isAncestorOrSelf t y).length

/-- Dice coefficient of the nodes strictly below `s` and `t`; two leaves have none in common. -/
def dice (mapping : Mapping) (s t : Nat) : Float :=
  let below := source.size s - 1 + (target.size t - 1)
  if below = 0 then 0.0
  else 2.0 * Float.ofNat (shared source target mapping s t) / Float.ofNat below

/-- Open nodes by the heights of their subtrees, nodes of one height in the order in which they
came. -/
structure HeightQueue where
  byHeight : Std.TreeMap Nat (List Nat) := ∅

namespace HeightQueue

variable (measured : Measured digest) (minHeight : Nat)

/-- Add a node, unless its subtree is too low to count. -/
def push (queue : HeightQueue) (id : Nat) : HeightQueue :=
  let height := measured.height id
  if minHeight ≤ height then
    ⟨queue.byHeight.alter height fun nodes => some (nodes.getD [] ++ [id])⟩
  else queue

/-- The greatest height of an open node. -/
def peek (queue : HeightQueue) : Option Nat :=
  queue.byHeight.keys.getLast?

/-- Take out the nodes of the greatest height, in the preorder of the tree. -/
def pop (queue : HeightQueue) : List Nat × HeightQueue :=
  match queue.peek with
  | none => ([], queue)
  | some height =>
    ((queue.byHeight.getD height []).mergeSort fun a b => measured.index a ≤ measured.index b,
      ⟨queue.byHeight.erase height⟩)

/-- Add the children of some nodes. -/
def openAll (queue : HeightQueue) (ids : List Nat) : HeightQueue :=
  ids.foldl
    (fun queue id => (measured.tree.children id).foldl (push measured minHeight) queue) queue

end HeightQueue

/-- The isomorphic pairs among the nodes of one level. -/
def levelPairs (sources targets : List Nat) : List (Nat × Nat) :=
  sources.flatMap fun s => (targets.filter (source.isomorphic s target ·)).map (s, ·)

/-- Whether a pair of one level has no rival on either side. -/
def isUnique (sources targets : List Nat) (pair : Nat × Nat) : Bool :=
  (targets.filter (source.isomorphic pair.1 target ·)).length == 1
    && (sources.filter (source.isomorphic · target pair.2)).length == 1

/-- The state of the search: what is mapped, which subtrees are open on either side, and which pairs
were put aside. -/
structure Search where
  mapping : Mapping := {}
  sources : HeightQueue
  targets : HeightQueue
  ambiguous : List (Nat × Nat) := []

namespace Search

variable (minHeight : Nat)

/-- The search before its first step: the two roots are open. -/
def start (s t : Nat) : Search where
  sources := HeightQueue.push source minHeight {} s
  targets := HeightQueue.push target minHeight {} t

/-- Open the tallest nodes of the source side. -/
def openSources (search : Search) : Search :=
  let (nodes, rest) := search.sources.pop source
  { search with sources := rest.openAll source minHeight nodes }

/-- Open the tallest nodes of the target side. -/
def openTargets (search : Search) : Search :=
  let (nodes, rest) := search.targets.pop target
  { search with targets := rest.openAll target minHeight nodes }

/-- Compare the tallest nodes of both sides. -/
def compareTallest (search : Search) : Except Violation Search := do
  let (sources, restSources) := search.sources.pop source
  let (targets, restTargets) := search.targets.pop target
  let pairs := levelPairs source target sources targets
  let (unique, rivals) := pairs.partition (isUnique source target sources targets)
  let mapping ← unique.foldlM
    (fun mapping (s, t) => mapping.addSubtrees source.tree target.tree s t) search.mapping
  return {
    mapping
    sources := restSources.openAll source minHeight
      (sources.filter fun s => !pairs.any (·.1 == s))
    targets := restTargets.openAll target minHeight
      (targets.filter fun t => !pairs.any (·.2 == t))
    ambiguous := search.ambiguous ++ rivals }

/-- One step, from the greatest heights of both sides. -/
def step (search : Search) (sourceHeight targetHeight : Nat) : Except Violation Search :=
  if targetHeight < sourceHeight then .ok (search.openSources source minHeight)
  else if sourceHeight < targetHeight then .ok (search.openTargets target minHeight)
  else search.compareTallest source target minHeight

/-- Search until one side has no open node left, for at most `fuel` steps. -/
def run : Nat → Search → Except Violation Search
  | 0, search => .ok search
  | fuel + 1, search =>
    match search.sources.peek, search.targets.peek with
    | some sourceHeight, some targetHeight => do
      let next ← search.step source target minHeight sourceHeight targetHeight
      run fuel next
    | _, _ => .ok search

end Search

/-- How alike the parents of two nodes are; nodes without a parent have nothing in common. -/
def parentDice (mapping : Mapping) (s t : Nat) : Float :=
  match source.tree.parent s, target.tree.parent t with
  | some ps, some pt => dice source target mapping ps pt
  | _, _ => 0.0

/-- A pair that was put aside, with what decides its turn. -/
structure RankedPair where
  dice : Float
  sourceIndex : Nat
  targetIndex : Nat
  pair : Nat × Nat

/-- Whether a pair comes no later than another one: alike parents first, then the order of the
source and of the target tree. -/
def RankedPair.before (a b : RankedPair) : Bool :=
  (compare (Number.rank b.dice) (Number.rank a.dice)
    |>.then (compare a.sourceIndex b.sourceIndex)
    |>.then (compare a.targetIndex b.targetIndex)).isLE

/-- The pairs that were put aside, in the order in which they are tried. -/
def rankPairs (mapping : Mapping) (pairs : List (Nat × Nat)) : List (Nat × Nat) :=
  let ranked := pairs.map fun (s, t) => {
    dice := parentDice source target mapping s t
    sourceIndex := source.index s
    targetIndex := target.index t
    pair := (s, t) : RankedPair }
  (ranked.mergeSort RankedPair.before).map RankedPair.pair

/-- Map two subtrees if all their nodes are free. -/
def addIfFree (mapping : Mapping) (pair : Nat × Nat) : Except Violation Mapping :=
  if mapping.subtreesFree source.tree target.tree pair.1 pair.2 then
    mapping.addSubtrees source.tree target.tree pair.1 pair.2
  else .ok mapping

/-- Map the pairs that were put aside, as long as they are free. -/
def addAside (mapping : Mapping) (pairs : List (Nat × Nat)) : Except Violation Mapping :=
  (rankPairs source target mapping pairs).foldlM (addIfFree source target) mapping

/-- Map the isomorphic subtrees of two subtrees. -/
def topDown (minHeight s t : Nat) : Except Violation Mapping := do
  -- Every step lowers the greatest height, so there are no more steps than heights.
  let fuel := max (source.height s) (target.height t) + 1
  let search ← (Search.start source target minHeight s t).run source target minHeight fuel
  addAside source target search.mapping search.ambiguous

end Reshape.Matching
