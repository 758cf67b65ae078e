import Mathlib
import Reshape.Concrete

/-! # The kept nodes of a concrete tree

A kept node of a concrete tree is reached from the top through kept nodes, and it is known by its
address in the concrete tree.  Pruning and numbering lists the kept nodes in the order of their
addresses, each with the number of the node one step up.

The same nodes come out of a stack of nodes that wait to be added: the one on top is added, and its
kept children take its place. -/

namespace Reshape.ConcreteTree

/-! ### Kept nodes -/

/-- The tree at an address, if every node on the way down to it is kept. -/
def keptAt? : ConcreteTree → List Nat → Option ConcreteTree
  | tree, [] => some tree
  | tree, place :: rest =>
    (tree.children[place]?.filter fun child => child.value.isKept).bind fun child =>
      keptAt? child rest

/-- The places of the children that are kept. -/
def keptPlaces (tree : ConcreteTree) : List Nat :=
  (List.range tree.children.length).filter fun place =>
    tree.children[place]?.any fun child => child.value.isKept

mutual

/-- The addresses of the kept nodes of a tree, in preorder. -/
def keptAddresses : ConcreteTree → List (List Nat)
  | .node _ children => [] :: keptAmong 0 children

/-- The addresses of the kept nodes of a list of trees, the first of which has a given place. -/
def keptAmong (place : Nat) : List ConcreteTree → List (List Nat)
  | [] => []
  | tree :: rest =>
    (if tree.value.isKept then (keptAddresses tree).map (place :: ·) else [])
      ++ keptAmong (place + 1) rest

end

theorem keptAt?_cons (tree : ConcreteTree) (place : Nat) (rest : List Nat) {kept : ConcreteTree} :
    tree.keptAt? (place :: rest) = some kept ↔
      ∃ child, tree.children[place]? = some child ∧ child.value.isKept = true ∧
        keptAt? child rest = some kept := by
  simp [keptAt?, Option.bind_eq_some_iff, and_assoc]

theorem keptAt?_append (tree : ConcreteTree) (above rest : List Nat) :
    tree.keptAt? (above ++ rest) = (tree.keptAt? above).bind (keptAt? · rest) := by
  induction above generalizing tree with
  | nil => rfl
  | cons place above ih =>
    rw [List.cons_append, keptAt?, keptAt?, Option.bind_assoc]
    exact congrArg _ (funext ih)

mutual

theorem mem_keptAddresses {address : List Nat} :
    (tree : ConcreteTree) →
    (address ∈ keptAddresses tree ↔ ∃ kept, tree.keptAt? address = some kept)
  | .node value children => by
    rw [keptAddresses, List.mem_cons, mem_keptAmong children]
    cases address with
    | nil => exact ⟨fun _ => ⟨_, rfl⟩, fun _ => Or.inl rfl⟩
    | cons place rest =>
      constructor
      · rintro (h | ⟨k, rest, child, kept, heq, hchild, hkept, hat⟩)
        · cases h
        · obtain ⟨rfl, rfl⟩ := List.cons.inj heq
          exact ⟨kept, (keptAt?_cons ..).mpr ⟨child, by rwa [Nat.zero_add], hkept, hat⟩⟩
      · rintro ⟨kept, h⟩
        obtain ⟨child, hchild, hkept, hat⟩ := (keptAt?_cons ..).mp h
        exact Or.inr ⟨place, rest, child, kept, by rw [Nat.zero_add], hchild, hkept, hat⟩

theorem mem_keptAmong {place : Nat} {address : List Nat} :
    (trees : List ConcreteTree) → (address ∈ keptAmong place trees ↔
      ∃ k rest tree kept, address = (place + k) :: rest ∧ trees[k]? = some tree ∧
        tree.value.isKept = true ∧ keptAt? tree rest = some kept)
  | [] => by simp [keptAmong]
  | tree :: trees => by
    rw [keptAmong, List.mem_append, mem_keptAmong trees]
    constructor
    · rintro (h | ⟨k, rest, other, kept, rfl, hother, hkept, hat⟩)
      · split at h
        · rename_i hkept
          obtain ⟨rest, hrest, rfl⟩ := List.mem_map.mp h
          obtain ⟨kept, hat⟩ := (mem_keptAddresses tree).mp hrest
          exact ⟨0, rest, tree, kept, rfl, rfl, hkept, hat⟩
        · cases h
      · exact ⟨k + 1, rest, other, kept, by rw [Nat.add_assoc, Nat.add_comm 1], hother, hkept, hat⟩
    · rintro ⟨k, rest, other, kept, rfl, hother, hkept, hat⟩
      cases k with
      | zero =>
        obtain rfl : tree = other := Option.some.inj hother
        rw [if_pos hkept]
        exact Or.inl (List.mem_map_of_mem ((mem_keptAddresses tree).mpr ⟨kept, hat⟩))
      | succ k =>
        exact Or.inr ⟨k, rest, other, kept, by rw [Nat.add_assoc, Nat.add_comm 1], hother,
          hkept, hat⟩

end

mutual

theorem pairwise_keptAddresses : (tree : ConcreteTree) → (keptAddresses tree).Pairwise (· < ·)
  | .node value children => by
    rw [keptAddresses, List.pairwise_cons]
    refine ⟨fun address h => ?_, pairwise_keptAmong 0 children⟩
    obtain ⟨k, rest, -, -, rfl, -⟩ := (mem_keptAmong children).mp h
    exact List.nil_lt_cons _ rest

theorem pairwise_keptAmong (place : Nat) :
    (trees : List ConcreteTree) → (keptAmong place trees).Pairwise (· < ·)
  | [] => .nil
  | tree :: trees => by
    rw [keptAmong, List.pairwise_append]
    refine ⟨?_, pairwise_keptAmong (place + 1) trees, fun a ha b hb => ?_⟩
    · split
      · rw [List.pairwise_map]
        exact (pairwise_keptAddresses tree).imp fun hlt =>
          List.cons_lt_cons_iff.mpr (Or.inr ⟨rfl, hlt⟩)
      · exact .nil
    · split at ha
      · obtain ⟨rest, -, rfl⟩ := List.mem_map.mp ha
        obtain ⟨k, rest', -, -, rfl, -⟩ := (mem_keptAmong trees).mp hb
        exact List.cons_lt_cons_iff.mpr (Or.inl (by omega))
      · cases ha

end

/-! ### The nodes in the order of their addresses -/

/-- The kinds of the parent and the grandparent of the node at an address, given those of the
top. -/
def kindsAbove : Option String → Option String → ConcreteTree → List Nat →
    Option String × Option String
  | parentKind, grandparentKind, _, [] => (parentKind, grandparentKind)
  | parentKind, _, tree, place :: rest =>
    match tree.children[place]? with
    | some child => kindsAbove (some tree.value.kind) parentKind child rest
    | none => (none, none)

/-- The number above an address: that of the node at the address one step shorter.  Numbers count
from `next` on in the order of the addresses, and `top` is above the top. -/
structure IsAbove (addresses : List (List Nat)) (top : Option Nat) (next : Nat) (address : List Nat)
    (up : Option Nat) : Prop where
  top_eq : address = [] → up = top
  below : ∀ above place, address = above ++ [place] →
    ∃ j, addresses[j]? = some above ∧ up = some (next + j)

section Numbering

variable (categorize : Categorize) (source : String) (bytes : List UInt8)

/-- The node of the syntax tree for a concrete tree below nodes of the given kinds. -/
def nodeOf (kinds : Option String × Option String) (tree : ConcreteTree) : Node :=
  tree.value.toNode categorize source bytes kinds.1 kinds.2 (tree.children.map Rose.value)

mutual

theorem length_number (parent : Option Nat) (next : Nat) :
    (rose : Rose Node) → (number parent next rose).length = rose.size
  | .node node children => by
    rw [number, List.length_cons, length_numberAll, Rose.size]

theorem length_numberAll (parent : Option Nat) (next : Nat) :
    (roses : List (Rose Node)) → (numberAll parent next roses).length = Rose.sizeAll roses
  | [] => rfl
  | rose :: roses => by
    rw [numberAll, List.length_append, length_number, length_numberAll, Rose.sizeAll]

end

mutual

theorem length_keptAddresses (parentKind grandparentKind : Option String) : (tree : ConcreteTree) →
    (keptAddresses tree).length =
      (prune categorize source bytes parentKind grandparentKind tree).size
  | .node node children => by
    rw [keptAddresses, List.length_cons, prune, Rose.size, ← length_keptAmong]

theorem length_keptAmong (parentKind grandparentKind : Option String) (place : Nat) :
    (trees : List ConcreteTree) → (keptAmong place trees).length =
      Rose.sizeAll (pruneAll categorize source bytes parentKind grandparentKind trees)
  | [] => rfl
  | tree :: trees => by
    have hrest := length_keptAmong parentKind grandparentKind (place + 1) trees
    rw [keptAmong, pruneAll, List.length_append, hrest]
    split
    · rw [List.length_map, Rose.sizeAll, ← length_keptAddresses]
    · exact Nat.zero_add _

end

mutual

/-- The nodes of a numbered tree are those of the kept nodes, in the order of their addresses. -/
theorem getElem?_number_prune (top : Option Nat) (next : Nat)
    (parentKind grandparentKind : Option String) {i : Nat} {address : List Nat} :
    (tree : ConcreteTree) → (keptAddresses tree)[i]? = some address →
    ∃ kept up, tree.keptAt? address = some kept ∧ IsAbove (keptAddresses tree) top next address up ∧
      (number top next (prune categorize source bytes parentKind grandparentKind tree))[i]? =
        some { nodeOf categorize source bytes
                (kindsAbove parentKind grandparentKind tree address) kept with parent := up }
  | .node node children, h => by
    rw [keptAddresses] at h ⊢
    rw [prune, number]
    cases i with
    | zero =>
      obtain rfl : [] = address := by simpa using h
      exact ⟨_, top, rfl, ⟨fun _ => rfl, fun above place heq => by simp at heq⟩, rfl⟩
    | succ i =>
      obtain ⟨k, rest, child, kept, up, rfl, hchild, hkept, hat, ⟨htop, hbelow⟩, hnode⟩ :=
        getElem?_numberAll_pruneAll (some next) (next + 1) (some node.kind) parentKind 0 children h
      rw [Nat.zero_add] at hbelow ⊢
      have hkinds : kindsAbove parentKind grandparentKind (.node node children) (k :: rest) =
          kindsAbove (some node.kind) parentKind child rest := by
        simp only [kindsAbove, Rose.children, hchild, Rose.value]
      refine ⟨kept, up, (keptAt?_cons ..).mpr ⟨child, hchild, hkept, hat⟩, ⟨nofun, ?_⟩,
        hkinds ▸ hnode⟩
      intro above place heq
      -- Right below the top stands what has only one step.
      cases above with
      | nil =>
        obtain ⟨-, hrest⟩ := List.cons.inj heq
        exact ⟨0, rfl, htop hrest⟩
      | cons step above =>
        obtain ⟨rfl, hrest⟩ := List.cons.inj heq
        obtain ⟨j, hj, hup⟩ := hbelow above place hrest
        exact ⟨j + 1, hj, by rw [hup, Nat.add_assoc, Nat.add_comm 1]⟩

theorem getElem?_numberAll_pruneAll (top : Option Nat) (next : Nat)
    (parentKind grandparentKind : Option String) (place : Nat) {i : Nat} {address : List Nat} :
    (trees : List ConcreteTree) → (keptAmong place trees)[i]? = some address →
    ∃ k rest tree kept up, address = (place + k) :: rest ∧ trees[k]? = some tree ∧
      tree.value.isKept = true ∧ keptAt? tree rest = some kept ∧
      ((rest = [] → up = top) ∧ ∀ above step, rest = above ++ [step] →
        ∃ j, (keptAmong place trees)[j]? = some ((place + k) :: above) ∧ up = some (next + j)) ∧
      (numberAll top next (pruneAll categorize source bytes parentKind grandparentKind trees))[i]? =
        some { nodeOf categorize source bytes
                (kindsAbove parentKind grandparentKind tree rest) kept with parent := up }
  | [], h => by simp [keptAmong] at h
  | tree :: trees, h => by
    have hlength := length_keptAddresses categorize source bytes parentKind grandparentKind tree
    have hrose := length_number top next
      (prune categorize source bytes parentKind grandparentKind tree)
    rw [keptAmong] at h ⊢
    rw [pruneAll]
    by_cases hkept : tree.value.isKept = true
    · rw [if_pos hkept] at h ⊢
      rw [if_pos hkept, numberAll]
      rw [List.getElem?_append, List.length_map] at h
      split at h
      · rename_i hlt
        rw [List.getElem?_map, Option.map_eq_some_iff] at h
        obtain ⟨rest, hrest, rfl⟩ := h
        obtain ⟨kept, up, hat, habove, hnode⟩ :=
          getElem?_number_prune top next parentKind grandparentKind tree hrest
        refine ⟨0, rest, tree, kept, up, rfl, rfl, hkept, hat, ⟨habove.top_eq, ?_⟩, ?_⟩
        · intro above step heq
          obtain ⟨j, hj, hup⟩ := habove.below above step heq
          have hj' := (List.getElem?_eq_some_iff.mp hj).1
          refine ⟨j, ?_, hup⟩
          rw [List.getElem?_append_left (by rwa [List.length_map]), List.getElem?_map, hj]
          rfl
        · rw [List.getElem?_append_left (by omega), hnode]
      · rename_i hge
        obtain ⟨k, rest, other, kept, up, rfl, hother, hkept, hat, ⟨htop, hbelow⟩, hnode⟩ :=
          getElem?_numberAll_pruneAll top (next + (keptAddresses tree).length) parentKind
            grandparentKind (place + 1) trees h
        have hplace : place + 1 + k = place + (k + 1) := by omega
        rw [hplace] at hbelow ⊢
        refine ⟨k + 1, rest, other, kept, up, rfl, hother, hkept, hat, ⟨htop, ?_⟩, ?_⟩
        · intro above step heq
          obtain ⟨j, hj, hup⟩ := hbelow above step heq
          refine ⟨(keptAddresses tree).length + j, ?_, by rw [hup, Nat.add_assoc]⟩
          rw [List.getElem?_append_right (by rw [List.length_map]; omega), List.length_map,
            Nat.add_sub_cancel_left, hj]
        · rw [List.getElem?_append_right (by omega), hrose, ← hlength, hnode]
    · rw [if_neg hkept, List.nil_append] at h ⊢
      rw [if_neg hkept]
      obtain ⟨k, rest, other, kept, up, rfl, hother, hkept, hat, habove, hnode⟩ :=
        getElem?_numberAll_pruneAll top next parentKind grandparentKind (place + 1) trees h
      have hplace : place + 1 + k = place + (k + 1) := by omega
      rw [hplace] at habove ⊢
      exact ⟨k + 1, rest, other, kept, up, rfl, hother, hkept, hat, habove, hnode⟩

end

/-- An ordered tree whose top plays a given role. -/
def withRole (role : Option Role) : Rose Node → Rose Node
  | .node node children => .node { node with role } children

theorem getElem?_number_withRole (top : Option Nat) (next : Nat) (role : Option Role)
    (rose : Rose Node) (i : Nat) : (number top next (withRole role rose))[i]? =
      (number top next rose)[i]?.map fun node => if i = 0 then { node with role } else node := by
  cases rose with
  | node node children =>
    rw [withRole, number, number]
    cases i with
    | zero => rfl
    | succ i => simp

end Numbering

/-! ### A stack of nodes that wait -/

/-- A kept node that waits to be added, with what is known of it from above. -/
structure Pending where
  tree : ConcreteTree
  parent : Option Nat := none
  role : Option Role := none
  parentKind : Option String := none
  grandparentKind : Option String := none

/-- The kept trees of a list, waiting to be added below a node. -/
def waiting (parent : Nat) (parentKind grandparentKind : Option String)
    (trees : List ConcreteTree) :
    List Pending :=
  (trees.filter fun tree => tree.value.isKept).map fun tree =>
    { tree, parent := some parent, role := tree.value.field.bind Role.ofField?, parentKind,
      grandparentKind }

namespace Pending

variable (categorize : Categorize) (source : String) (bytes : List UInt8)

/-- The node that is added. -/
def node (item : Pending) : Node :=
  { nodeOf categorize source bytes (item.parentKind, item.grandparentKind) item.tree with
    parent := item.parent
    role := item.role }

/-- The nodes that a stack yields in at most `fuel` steps, numbered from `next` on. -/
def addFrom : Nat → Nat → List Pending → List Node
  | 0, _, _ | _, _, [] => []
  | fuel + 1, next, item :: rest =>
    item.node categorize source bytes :: addFrom fuel (next + 1)
      (waiting next (some item.tree.value.kind) item.parentKind item.tree.children ++ rest)

/-- What is added for a waiting node and all that it keeps, as an ordered tree. -/
def rose (item : Pending) : Rose Node :=
  withRole item.role (prune categorize source bytes item.parentKind item.grandparentKind item.tree)

/-- The nodes of the trees of a stack, one tree after the other. -/
def numbered (next : Nat) : List Pending → List Node
  | [] => []
  | item :: rest =>
    number item.parent next (item.rose categorize source bytes)
      ++ numbered (next + (item.rose categorize source bytes).size) rest

theorem waiting_cons {parent : Nat} {parentKind grandparentKind : Option String}
    {tree : ConcreteTree} {trees : List ConcreteTree} :
    waiting parent parentKind grandparentKind (tree :: trees) =
      if tree.value.isKept then
        { tree, parent := some parent, role := tree.value.field.bind Role.ofField?, parentKind,
          grandparentKind } :: waiting parent parentKind grandparentKind trees
      else waiting parent parentKind grandparentKind trees := by
  rw [waiting, List.filter_cons]
  split <;> rfl

/-- A child waits with its own role. -/
theorem withRole_prune (parentKind grandparentKind : Option String) (tree : ConcreteTree) :
    withRole (tree.value.field.bind Role.ofField?)
      (prune categorize source bytes parentKind grandparentKind tree) =
      prune categorize source bytes parentKind grandparentKind tree := by
  cases tree
  rfl

theorem size_waiting (parent : Nat) (parentKind grandparentKind : Option String)
    (trees : List ConcreteTree) :
    ((waiting parent parentKind grandparentKind trees).map
      fun item => (item.rose categorize source bytes).size).sum =
      Rose.sizeAll (pruneAll categorize source bytes parentKind grandparentKind trees) := by
  induction trees with
  | nil => rfl
  | cons tree trees ih =>
    rw [waiting_cons, pruneAll]
    split
    · rw [List.map_cons, List.sum_cons, ih, Rose.sizeAll, rose, withRole_prune]
    · exact ih

theorem numbered_waiting (parent : Nat) (parentKind grandparentKind : Option String)
    (trees : List ConcreteTree) (next : Nat) (rest : List Pending) :
    numbered categorize source bytes next
        (waiting parent parentKind grandparentKind trees ++ rest) =
      numberAll (some parent) next
          (pruneAll categorize source bytes parentKind grandparentKind trees) ++
        numbered categorize source bytes (next + Rose.sizeAll
          (pruneAll categorize source bytes parentKind grandparentKind trees)) rest := by
  induction trees generalizing next with
  | nil => rfl
  | cons tree trees ih =>
    rw [waiting_cons, pruneAll]
    split
    · rw [List.cons_append, numbered, rose, withRole_prune, ih, numberAll, List.append_assoc,
        Rose.sizeAll, Nat.add_assoc]
    · exact ih next

/-- With steps enough, a stack yields the nodes of its trees, one tree after the other. -/
theorem addFrom_eq (fuel next : Nat) (stack : List Pending)
    (hfuel : (stack.map fun item => (item.rose categorize source bytes).size).sum ≤ fuel) :
    addFrom categorize source bytes fuel next stack =
      numbered categorize source bytes next stack := by
  induction fuel generalizing next stack with
  | zero =>
    cases stack with
    | nil => rfl
    | cons item rest =>
      obtain ⟨⟨value, children⟩, parent, role, parentKind, grandparentKind⟩ := item
      simp [rose, prune, withRole, Rose.size] at hfuel
  | succ fuel ih =>
    cases stack with
    | nil => rfl
    | cons item rest =>
      obtain ⟨⟨value, children⟩, parent, role, parentKind, grandparentKind⟩ := item
      have hrose : rose categorize source bytes
          ⟨.node value children, parent, role, parentKind, grandparentKind⟩ =
          .node { nodeOf categorize source bytes (parentKind, grandparentKind)
                    (.node value children) with role }
            (pruneAll categorize source bytes (some value.kind) parentKind children) := rfl
      rw [List.map_cons, List.sum_cons, hrose, Rose.size] at hfuel
      rw [addFrom, numbered, hrose, number, Rose.size, List.cons_append, ih]
      · rw [numbered_waiting, Nat.add_right_comm]
        rfl
      · rw [List.map_append, List.sum_append, size_waiting]
        simp only [Rose.value, Rose.children]
        omega

end Pending

end Reshape.ConcreteTree
