import Mathlib
import Reshape.Proofs.Concrete.Kept
import Reshape.Proofs.Tree.Address
import Reshape.Proofs.Tree.Measure

/-! # The syntax tree of a concrete tree

The syntax tree has one node for each kept node of the concrete tree, and the numbers of the nodes
follow the order of the addresses.  So every node stands below the node one step up, the children of
a node keep their order, and every subtree is an interval of numbers. -/

namespace Reshape.ConcreteTree

/-- The number above an address is smaller than the number of the address. -/
theorem IsAbove.lt {addresses : List (List Nat)} {id parent : Nat} {address : List Nat}
    {up : Option Nat} (h : IsAbove addresses none 0 address up)
    (hsorted : addresses.Pairwise (· < ·)) (hid : addresses[id]? = some address)
    (hup : up = some parent) : parent < id := by
  induction address using List.reverseRecOn with
  | nil => rw [h.top_eq rfl] at hup; cases hup
  | append_singleton above place =>
    obtain ⟨j, hj, hup'⟩ := h.below above place rfl
    obtain rfl : parent = j := by simpa [hup] using hup'
    obtain ⟨hid', heq⟩ := List.getElem?_eq_some_iff.mp hid
    obtain ⟨hj', heq'⟩ := List.getElem?_eq_some_iff.mp hj
    have hle : ¬ above ++ [place] < above := List.le_append_left
    rcases Nat.lt_trichotomy parent id with hlt | rfl | hgt
    · exact hlt
    · rw [heq'] at heq
      simp at heq
    · exact absurd (heq ▸ heq' ▸ List.pairwise_iff_getElem.mp hsorted id parent hid' hj' hgt) hle

section SyntaxTree

variable (categorize : Categorize) (path : Path) (source : String) (concrete : ConcreteTree)
variable {id : Nat} {address : List Nat}

/-- The kept nodes of a concrete tree as an ordered tree.  The top plays no role. -/
def topRose : Rose Node :=
  withRole none (prune categorize source source.toUTF8.toList none none concrete)

theorem getElem?_topRose (h : concrete.keptAddresses[id]? = some address) :
    ∃ kept up, concrete.keptAt? address = some kept ∧
      IsAbove concrete.keptAddresses none 0 address up ∧
      (number none 0 (topRose categorize source concrete))[id]? =
        some { nodeOf categorize source source.toUTF8.toList
                (kindsAbove none none concrete address) kept with
                parent := up
                role := if id = 0 then none else kept.value.field.bind Role.ofField? } := by
  obtain ⟨kept, up, hat, habove, hnode⟩ :=
    getElem?_number_prune categorize source source.toUTF8.toList none 0 none none concrete h
  refine ⟨kept, up, hat, habove, ?_⟩
  rw [topRose, getElem?_number_withRole, hnode, Option.map_some]
  split <;> rfl

theorem length_topRose :
    (number none 0 (topRose categorize source concrete)).length =
      concrete.keptAddresses.length := by
  rw [length_number, length_keptAddresses categorize source source.toUTF8.toList none none, topRose]
  cases prune categorize source source.toUTF8.toList none none concrete
  rfl

/-- No parent is dropped: every node comes after its parent. -/
theorem nodes_toTree : (concrete.toTree categorize path source).nodes =
    (number none 0 (topRose categorize source concrete)).toArray := by
  have hnodes : (concrete.toTree categorize path source).nodes =
      Tree.parentsFirst (number none 0 (topRose categorize source concrete)).toArray := by
    rw [toTree, topRose]
    cases prune categorize source source.toUTF8.toList none none concrete
    rfl
  rw [hnodes, Tree.parentsFirst]
  refine Array.ext (by simp) fun id hid hid' => ?_
  have hlt : id < concrete.keptAddresses.length := by
    rw [← length_topRose categorize source]
    simpa using hid'
  obtain ⟨kept, up, -, habove, hnode⟩ :=
    getElem?_topRose categorize source concrete (List.getElem?_eq_getElem hlt)
  have hat := (List.getElem?_eq_some_iff.mp hnode).2
  have hup : up.filter (· < id) = up := by
    cases up with
    | none => rfl
    | some parent =>
      have hparent := habove.lt (pairwise_keptAddresses concrete) (List.getElem?_eq_getElem hlt) rfl
      simp [Option.filter, hparent]
  simp [hat, hup]

theorem exists_node_toTree (h : concrete.keptAddresses[id]? = some address) :
    ∃ kept up, concrete.keptAt? address = some kept ∧
      IsAbove concrete.keptAddresses none 0 address up ∧
      (concrete.toTree categorize path source).parent id = up ∧
      (concrete.toTree categorize path source).node id =
        { nodeOf categorize source source.toUTF8.toList
            (kindsAbove none none concrete address) kept with
          parent := up
          role := if id = 0 then none else kept.value.field.bind Role.ofField? } := by
  obtain ⟨kept, up, hat, habove, hnode⟩ := getElem?_topRose categorize source concrete h
  have hget : (concrete.toTree categorize path source).nodes[id]? =
      (number none 0 (topRose categorize source concrete))[id]? := by
    rw [nodes_toTree, List.getElem?_toArray]
  rw [hnode] at hget
  refine ⟨kept, up, hat, habove, ?_, ?_⟩
  · rw [Tree.parent, Node.parentIn, hget, Option.bind_some]
  · rw [Tree.node, hget, Option.getD_some]

theorem addressed_toTree :
    (concrete.toTree categorize path source).Addressed concrete.keptAddresses where
  size_eq := by
    rw [Tree.size, nodes_toTree, List.size_toArray, length_topRose]
  sorted := pairwise_keptAddresses concrete
  nil_mem := (mem_keptAddresses concrete).mpr ⟨concrete, rfl⟩
  above_mem := by
    intro above place h
    obtain ⟨kept, hkept⟩ := (mem_keptAddresses concrete).mp h
    rw [keptAt?_append] at hkept
    obtain ⟨parent, hparent, -⟩ := Option.bind_eq_some_iff.mp hkept
    exact (mem_keptAddresses concrete).mpr ⟨parent, hparent⟩
  parent_iff := by
    intro id address h parent
    obtain ⟨kept, up, -, habove, hup, -⟩ := exists_node_toTree categorize path source concrete h
    rw [hup]
    constructor
    · intro hparent
      induction address using List.reverseRecOn with
      | nil => rw [habove.top_eq rfl] at hparent; cases hparent
      | append_singleton above place =>
        obtain ⟨j, hj, hup'⟩ := habove.below above place rfl
        obtain rfl : parent = j := by simpa [hparent] using hup'
        exact ⟨above, place, hj, rfl⟩
    · rintro ⟨above, place, hparent, rfl⟩
      obtain ⟨j, hj, hup'⟩ := habove.below above place rfl
      have hnodup := (pairwise_keptAddresses concrete).nodup
      have heq :=
        (List.getElem?_inj (List.getElem?_eq_some_iff.mp hj).1 hnodup).mp (hj.trans hparent.symm)
      rw [hup', heq, Nat.zero_add]

/-! ### What a node shows -/

/-- A node of a syntax tree shows the kept node at an address: kind, bytes and role are those of the
kept node, its label is its own text if it keeps no child and the label tokens among its children if
it does, its parent is the node one step up, and its children are its kept children in their
order. -/
structure Shows (addresses : List (List Nat)) (tree : Tree) (id : Nat) (address : List Nat)
    (kept : ConcreteTree) : Prop where
  kind_eq : tree.kind id = kept.value.kind
  startByte_eq : (tree.span id).startByte = kept.value.startByte
  endByte_eq : (tree.span id).endByte = kept.value.endByte
  role_eq : tree.role id = if address = [] then none else kept.value.field.bind Role.ofField?
  label_leaf : (∀ child ∈ kept.children, child.value.isKept = false) →
    tree.label id = Text.compact (kept.value.text source)
  label_inner : (∃ child ∈ kept.children, child.value.isKept = true) →
    tree.label id = " ".intercalate ((((kept.children.map Rose.value).filter (!·.named)).map
      (ConcreteNode.text source)).filter ConcreteNode.isLabelToken)
  category_eq : tree.category id = categorize (tree.kind id) ((tree.parent id).map tree.kind)
    (((tree.parent id).bind tree.parent).map tree.kind)
  parent_iff : ∀ parent, tree.parent id = some parent ↔
    ∃ above place, addresses[parent]? = some above ∧ address = above ++ [place]
  children_eq : (tree.children id).map (addresses[·]?) =
    kept.keptPlaces.map fun place => some (address ++ [place])

theorem kindsAbove_concat {parentKind grandparentKind : Option String}
    {tree parent kept : ConcreteTree} {above : List Nat} {place : Nat}
    (habove : tree.keptAt? above = some parent)
    (hkept : tree.keptAt? (above ++ [place]) = some kept) :
    kindsAbove parentKind grandparentKind tree (above ++ [place]) =
      (some parent.value.kind, (kindsAbove parentKind grandparentKind tree above).1) := by
  induction above generalizing tree parentKind grandparentKind with
  | nil =>
    obtain rfl : tree = parent := Option.some.inj habove
    obtain ⟨child, hchild, -, -⟩ := (keptAt?_cons ..).mp hkept
    simp [kindsAbove, hchild]
  | cons step above ih =>
    obtain ⟨child, hchild, -, hbelow⟩ := (keptAt?_cons ..).mp habove
    obtain ⟨child', hchild', -, hbelow'⟩ := (keptAt?_cons ..).mp hkept
    obtain rfl : child = child' := Option.some.inj (hchild.symm.trans hchild')
    simp only [List.cons_append, kindsAbove, hchild]
    exact ih hbelow hbelow'

theorem parentKind_eq (h : concrete.keptAddresses[id]? = some address) :
    (kindsAbove none none concrete address).1 =
      ((concrete.toTree categorize path source).parent id).map
        (concrete.toTree categorize path source).kind := by
  obtain ⟨kept, up, hat, habove, hup, -⟩ := exists_node_toTree categorize path source concrete h
  rw [hup]
  induction address using List.reverseRecOn with
  | nil => rw [habove.top_eq rfl]; rfl
  | append_singleton above place =>
    obtain ⟨j, hj, rfl⟩ := habove.below above place rfl
    obtain ⟨parent, up, hparent, -, -, hnode⟩ :=
      exists_node_toTree categorize path source concrete hj
    rw [kindsAbove_concat hparent hat, Nat.zero_add, Option.map_some, Tree.kind, hnode]
    rfl

theorem grandparentKind_eq (h : concrete.keptAddresses[id]? = some address) :
    (kindsAbove none none concrete address).2 =
      (((concrete.toTree categorize path source).parent id).bind
        (concrete.toTree categorize path source).parent).map
        (concrete.toTree categorize path source).kind := by
  obtain ⟨kept, up, hat, habove, hup, -⟩ := exists_node_toTree categorize path source concrete h
  rw [hup]
  induction address using List.reverseRecOn with
  | nil => rw [habove.top_eq rfl]; rfl
  | append_singleton above place =>
    obtain ⟨j, hj, rfl⟩ := habove.below above place rfl
    obtain ⟨parent, -, hparent, -⟩ := exists_node_toTree categorize path source concrete hj
    rw [kindsAbove_concat hparent hat, Nat.zero_add, Option.bind_some,
      parentKind_eq categorize path source concrete hj]

theorem mem_keptPlaces {kept : ConcreteTree} (hat : concrete.keptAt? address = some kept)
    (place : Nat) :
    place ∈ kept.keptPlaces ↔ address ++ [place] ∈ concrete.keptAddresses := by
  rw [mem_keptAddresses, keptAt?_append, hat, Option.bind_some, keptPlaces, List.mem_filter,
    List.mem_range, Option.any_eq_true]
  constructor
  · rintro ⟨-, child, hchild, hkept⟩
    exact ⟨child, (keptAt?_cons ..).mpr ⟨child, hchild, hkept, rfl⟩⟩
  · rintro ⟨below, hbelow⟩
    obtain ⟨child, hchild, hkept, -⟩ := (keptAt?_cons ..).mp hbelow
    exact ⟨(List.getElem?_eq_some_iff.mp hchild).1, child, hchild, hkept⟩

theorem exists_shows (h : concrete.keptAddresses[id]? = some address) :
    ∃ kept, concrete.keptAt? address = some kept ∧ Shows categorize source concrete.keptAddresses
      (concrete.toTree categorize path source) id address kept := by
  have haddressed := addressed_toTree categorize path source concrete
  obtain ⟨kept, up, hat, -, -, hnode⟩ := exists_node_toTree categorize path source concrete h
  have hroot : id = 0 ↔ address = [] := by
    constructor
    · rintro rfl
      exact Option.some.inj (h.symm.trans haddressed.getElem?_root)
    · rintro rfl
      exact haddressed.eq_of_getElem? h haddressed.getElem?_root
  refine ⟨kept, hat, ?_⟩
  constructor
  case kind_eq => rw [Tree.kind, hnode]; rfl
  case startByte_eq => rw [Tree.span, hnode]; rfl
  case endByte_eq => rw [Tree.span, hnode]; rfl
  case role_eq => rw [Tree.role, hnode]; simp only [hroot]
  case label_leaf =>
    intro hleaf
    have hany : (kept.children.map Rose.value).any ConcreteNode.isKept = false := by
      simpa using hleaf
    rw [Tree.label, hnode]
    simp [nodeOf, ConcreteNode.toNode, ConcreteNode.labelOf, hany]
  case label_inner =>
    intro hinner
    have hany : (kept.children.map Rose.value).any ConcreteNode.isKept = true := by
      simpa using hinner
    rw [Tree.label, hnode]
    simp only [nodeOf, ConcreteNode.toNode, ConcreteNode.labelOf, hany, if_true]
  case category_eq =>
    rw [← parentKind_eq categorize path source concrete h,
      ← grandparentKind_eq categorize path source concrete h, Tree.category, Tree.kind, hnode]
    rfl
  case parent_iff => exact haddressed.parent_iff id address h
  case children_eq =>
    exact haddressed.map_children h (List.pairwise_lt_range.filter _) (mem_keptPlaces concrete hat)

end SyntaxTree

/-- A syntax tree has one node for each node of the concrete tree that is reached through kept
nodes, in the order of their addresses, and each shows the node at its address.  The preorder from
the root lists all numbers in order, and the subtree at a node consists of as many numbers from its
own on as it has nodes.  The nodes are those that a stack of waiting nodes yields, whatever steps it
is given beyond one for each. -/
theorem toTree_shows_kept_nodes (categorize : Categorize) (path : Path) (source : String)
    (concrete : ConcreteTree) :
    let tree := concrete.toTree categorize path source
    (∃ addresses : List (List Nat),
      (∀ address, address ∈ addresses ↔ ∃ kept, concrete.keptAt? address = some kept) ∧
      addresses.Pairwise (· < ·) ∧ tree.size = addresses.length ∧
      ∀ id address, addresses[id]? = some address →
        ∃ kept, concrete.keptAt? address = some kept ∧
          Shows categorize source addresses tree id address kept) ∧
    tree.preorder tree.root = List.range tree.size ∧
    (∀ id < tree.size, tree.preorder id = List.range' id (tree.sizes.getD id 0)) ∧
    ∀ fuel ≥ tree.size, tree.nodes.toList =
      Pending.addFrom categorize source source.toUTF8.toList fuel 0 [{ tree := concrete }] := by
  intro tree
  have haddressed := addressed_toTree categorize path source concrete
  refine ⟨⟨concrete.keptAddresses, fun address => mem_keptAddresses concrete, haddressed.sorted,
    haddressed.size_eq, fun id address h => exists_shows categorize path source concrete h⟩,
    haddressed.preorder_root, fun id hid => ?_, fun fuel hfuel => ?_⟩
  · rw [tree.getD_sizes hid]
    exact haddressed.preorder_eq_range' hid
  · have hsize : tree.size = (topRose categorize source concrete).size := by
      rw [haddressed.size_eq, ← length_topRose categorize source, length_number]
    have hstack : Pending.rose categorize source source.toUTF8.toList { tree := concrete } =
        topRose categorize source concrete := rfl
    rw [Pending.addFrom_eq, nodes_toTree, Pending.numbered, Pending.numbered,
      List.append_nil, hstack]
    rw [List.map_singleton, List.sum_singleton, hstack, ← hsize]
    exact hfuel

end Reshape.ConcreteTree
