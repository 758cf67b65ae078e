import Reshape.Lines.Compare

/-! # Tidying a comparison

Every deletion, then every insertion, is pushed up and then down as far as it goes. An insertion
slides over neighbouring equal lines as long as they repeat its own lines; a deletion stays beside
equal lines. Deletions and insertions pass each other, and two of a kind that meet become one.
Passing changes the order of two operations but not the places that they name.

At last the deletions and insertions between two equal stretches become one replacement. -/

namespace Reshape.Lines

namespace Op

/-- Whether nothing is concerned. -/
def isEmpty (op : Op) : Bool := op.oldCount == 0 && op.newCount == 0

/-- Move an operation up. -/
def shiftUp (n : Nat) (op : Op) : Op :=
  { op with oldStart := op.oldStart - n, newStart := op.newStart - n }

/-- Move an operation down. -/
def shiftDown (n : Nat) (op : Op) : Op :=
  { op with oldStart := op.oldStart + n, newStart := op.newStart + n }

/-- Lengthen an operation at its end. -/
def extend (n : Nat) (op : Op) : Op :=
  match op.tag with
  | .equal => { op with oldCount := op.oldCount + n, newCount := op.newCount + n }
  | .delete => { op with oldCount := op.oldCount + n }
  | .insert => { op with newCount := op.newCount + n }
  | .replace => op

/-- Shorten equal lines at their end. -/
def shorten (n : Nat) (op : Op) : Op :=
  { op with oldCount := op.oldCount - n, newCount := op.newCount - n }

/-- The lines of the first side that are concerned. -/
def oldLines (old : Array String) (op : Op) : List String :=
  (Stretch.mk op.oldStart op.oldStop).of old

/-- The lines of the second side that are concerned. -/
def newLines (new : Array String) (op : Op) : List String :=
  (Stretch.mk op.newStart op.newStop).of new

/-- The number of lines that a deletion or an insertion concerns. -/
def count (op : Op) : Nat := max op.oldCount op.newCount

end Op

/-- A list of operations with one of them in focus; those above it are listed from the focus on. -/
structure Focus where
  above : List Op
  op : Op
  below : List Op
  deriving Repr

namespace Focus

/-- Push equal lines of the operation above to the one below, sliding the insertion in focus up. -/
def slideUp (focus : Focus) (previous : Op) (above : List Op) (n : Nat) : Focus :=
  let below := match focus.below with
    | next :: rest =>
      if next.tag = .equal then (next.shiftUp n).extend n :: rest
      else Op.same (previous.oldStop - n) (focus.op.newStop - n) n :: focus.below
    | [] => [Op.same (previous.oldStop - n) (focus.op.newStop - n) n]
  let previous := previous.shorten n
  { above := if previous.isEmpty then above else previous :: above
    op := focus.op.shiftUp n
    below }

/-- Push equal lines of the operation below to the one above, sliding the insertion in focus
down. -/
def slideDown (focus : Focus) (next : Op) (below : List Op) (n : Nat) : Focus :=
  let above := match focus.above with
    | previous :: rest =>
      if previous.tag = .equal then previous.extend n :: rest
      else Op.same next.oldStart focus.op.newStart n :: focus.above
    | [] => [Op.same next.oldStart focus.op.newStart n]
  let next := (next.shiftDown n).shorten n
  { above
    op := focus.op.shiftDown n
    below := if next.isEmpty then below else next :: below }

/-- One push up, unless the operation in focus has arrived. -/
def stepUp? (old new : Array String) (focus : Focus) : Option Focus :=
  match focus.above with
  | [] => none
  | previous :: above =>
    if previous.tag = .equal then
      let n := commonSuffix (previous.oldLines old) (focus.op.newLines new)
      if focus.op.tag = .insert ∧ 0 < n then some (focus.slideUp previous above n)
      else if previous.isEmpty then some { focus with above }
      else none
    else if previous.tag = focus.op.tag then
      some { focus with above, op := previous.extend focus.op.count }
    else some { focus with above, below := previous :: focus.below }

/-- One push down, unless the operation in focus has arrived. -/
def stepDown? (old new : Array String) (focus : Focus) : Option Focus :=
  match focus.below with
  | [] => none
  | next :: below =>
    if next.tag = .equal then
      let n := commonPrefix (next.oldLines old) (focus.op.newLines new)
      if focus.op.tag = .insert ∧ 0 < n then some (focus.slideDown next below n)
      else if next.isEmpty then some { focus with below }
      else none
    else if next.tag = focus.op.tag then
      some { focus with below, op := focus.op.extend next.count }
    else some { focus with above := next :: focus.above, below }

/-- Push as far as a step goes, at most `fuel` times. -/
def push (step : Focus → Option Focus) : Nat → Focus → Focus
  | 0, focus => focus
  | fuel + 1, focus =>
    match step focus with
    | some focus => push step fuel focus
    | none => focus

/-- The number of pushes that some operations allow. -/
def room (ops : List Op) : Nat :=
  ops.foldl (fun room op => room + op.count + 1) 1

/-- Push the operation in focus up and then down. -/
def settle (old new : Array String) (focus : Focus) : Focus :=
  let focus := push (stepUp? old new) (room focus.above) focus
  push (stepDown? old new) (room focus.below) focus

end Focus

/-- Settle every operation of a kind, going down from the operations `above` that are done, in at
most `fuel` steps. -/
def settleAll (old new : Array String) (tag : Tag) : Nat → List Op → List Op → List Op
  | 0, above, below => above.reverse ++ below
  | _, above, [] => above.reverse
  | fuel + 1, above, op :: below =>
    if op.tag = tag then
      let focus := Focus.settle old new ⟨above, op, below⟩
      settleAll old new tag fuel (focus.op :: focus.above) focus.below
    else settleAll old new tag fuel (op :: above) below

/-- Settle the deletions, then the insertions. -/
def settleOps (old new : Array String) (ops : List Op) : List Op :=
  let fuel := (ops.length + old.size + new.size + 1) * (ops.length + 1)
  settleAll old new .insert fuel [] (settleAll old new .delete fuel [] ops)

/-- Changes that are read but not yet listed. -/
structure Pending where
  deleted : Option Op := none
  inserted : Option Op := none

namespace Pending

/-- The operation that pending changes amount to. -/
def flush (pending : Pending) : List Op :=
  match pending.deleted, pending.inserted with
  | some d, some i => [⟨.replace, d.oldStart, d.oldCount, i.newStart, i.newCount⟩]
  | some d, none => [d]
  | none, some i => [i]
  | none, none => []

/-- Join a change to the pending one of its kind. -/
def join (pending : Option Op) (op : Op) : Option Op :=
  match pending with
  | some first => some (first.extend op.count)
  | none => some op

end Pending

/-- List operations with pending changes joined; `equal` holds equal lines that are read but not yet
listed. -/
def joinFrom (equal : Option Op) (pending : Pending) : List Op → List Op
  | [] => equal.toList ++ pending.flush
  | op :: rest =>
    match op.tag with
    | .equal => pending.flush ++ joinFrom (Pending.join equal op) {} rest
    | .delete =>
      equal.toList ++ joinFrom none { pending with deleted := Pending.join pending.deleted op } rest
    | _ =>
      equal.toList ++
        joinFrom none { pending with inserted := Pending.join pending.inserted op } rest

/-- Join neighbouring equal lines, and the changes between equal lines. -/
def joinOps (ops : List Op) : List Op :=
  joinFrom none {} ops

/-- The tidy comparison of two lists of lines. -/
def diffLines (old new : Array String) : List Op :=
  joinOps (settleOps old new (compareLines old new))

end Reshape.Lines
