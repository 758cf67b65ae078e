import Mathlib
import Reshape.Proofs.Tree.Measure

/-! # The tests for equal subtrees

The test that counts labels says yes exactly for alike subtrees.  The test that does not count them
is the same comparison on the trees without their labels, so what is known of the first carries
over: it says yes exactly for subtrees with the same kinds in the same shape.  Both look at digests
and sizes first.  These are measured bottom up from what is compared, so they never tell equal
subtrees apart, whatever the digest function is; and where they agree by accident, the comparison
node by node decides. -/

namespace Reshape

namespace Rose

variable {α β γ : Type}

mutual

theorem map_map (f : α → β) (g : β → γ) : (rose : Rose α) →
    (rose.map f).map g = rose.map (g ∘ f)
  | .node value below => by rw [map, map, map, mapAll_mapAll f g below]; rfl

theorem mapAll_mapAll (f : α → β) (g : β → γ) : (roses : List (Rose α)) →
    mapAll g (mapAll f roses) = mapAll (g ∘ f) roses
  | [] => rfl
  | rose :: roses => by rw [mapAll, mapAll, mapAll, map_map f g rose, mapAll_mapAll f g roses]

end

end Rose

namespace Tree

variable {source target tree : Tree} {a b : Nat}

/-- The kinds of a subtree, in its shape. -/
def kinds (tree : Tree) (id : Nat) : Rose String :=
  (tree.subtree id).map tree.kind

theorem kinds_eq_map_texts (tree : Tree) (id : Nat) :
    tree.kinds id = (tree.texts id).map Prod.fst := by
  rw [texts, Rose.map_map]
  rfl

/-! ### Trees without labels -/

theorem parentIn_map_label (nodes : Array Node) (id : Nat) :
    Node.parentIn (nodes.map fun node => { node with label := "" }) id =
      Node.parentIn nodes id := by
  rw [Node.parentIn, Node.parentIn, Array.getElem?_map]
  cases nodes[id]? <;> rfl

/-- The tree with all labels dropped. -/
def unlabelled (tree : Tree) : Tree where
  path := tree.path
  source := tree.source
  nodes := tree.nodes.map fun node => { node with label := "" }
  parent_lt := by simpa only [parentIn_map_label] using tree.parent_lt
  childTable := tree.childTable
  childTable_eq := by
    rw [tree.childTable_eq]
    simp only [Node.childTable, Node.childrenIn, parentIn_map_label]
    apply Array.ext <;> simp

@[simp] theorem size_unlabelled : tree.unlabelled.size = tree.size :=
  Array.size_map

@[simp] theorem children_unlabelled (id : Nat) :
    tree.unlabelled.children id = tree.children id := rfl

theorem node_unlabelled (id : Nat) :
    tree.unlabelled.node id = { tree.node id with label := "" } := by
  rw [node, node, unlabelled, Array.getElem?_map]
  cases tree.nodes[id]? <;> rfl

@[simp] theorem kind_unlabelled (id : Nat) : tree.unlabelled.kind id = tree.kind id := by
  rw [kind, node_unlabelled, kind]

@[simp] theorem label_unlabelled (id : Nat) : tree.unlabelled.label id = "" := by
  rw [label, node_unlabelled]

theorem subtreeWithin_unlabelled (fuel id : Nat) :
    tree.unlabelled.subtreeWithin fuel id = tree.subtreeWithin fuel id := by
  induction fuel generalizing id with
  | zero => rfl
  | succ fuel ih =>
    rw [subtreeWithin, subtreeWithin, children_unlabelled,
      List.map_congr_left fun child _ => ih child]

theorem subtree_unlabelled (id : Nat) : tree.unlabelled.subtree id = tree.subtree id := by
  rw [subtree, subtree, size_unlabelled, subtreeWithin_unlabelled]

theorem kinds_unlabelled (id : Nat) : tree.unlabelled.kinds id = tree.kinds id := by
  rw [kinds, kinds, subtree_unlabelled]
  exact congrArg (Rose.map · _) (funext kind_unlabelled)

theorem texts_unlabelled (id : Nat) : tree.unlabelled.texts id = (tree.kinds id).map (·, "") := by
  rw [texts, kinds, Rose.map_map, subtree_unlabelled]
  exact congrArg (Rose.map · _) (funext fun node => by simp)

/-- Without labels, subtrees are alike if they have the same kinds in the same shape. -/
theorem alike_unlabelled_iff :
    source.unlabelled.Alike target.unlabelled a b ↔ source.kinds a = target.kinds b := by
  constructor
  · intro h
    have hkinds := congrArg (Rose.map Prod.fst) h
    rwa [← kinds_eq_map_texts, ← kinds_eq_map_texts, kinds_unlabelled, kinds_unlabelled] at hkinds
  · intro h
    rw [Alike, texts_unlabelled, texts_unlabelled, h]

theorem foldUp_unlabelled {β : Type} (tree : Tree) (blank : β) (f : Nat → List β → β) :
    tree.unlabelled.foldUp blank f = tree.foldUp blank f := by
  simp only [foldUp, ids, size_unlabelled, children_unlabelled]

theorem sameFrom_unlabelled (fuel : Nat) (pairs : List (Nat × Nat)) :
    sameFrom true source.unlabelled target.unlabelled fuel pairs =
      sameFrom false source target fuel pairs := by
  induction fuel generalizing pairs with
  | zero => cases pairs <;> rfl
  | succ fuel ih =>
    rcases pairs with - | ⟨⟨a, b⟩, rest⟩
    · rfl
    · simp [sameFrom, sameNode, ih]

/-- What is measured from kinds alone is the same where the kinds are. -/
theorem getD_foldUp_eq_of_kinds {β : Type} {blank : β} {f g : Nat → List β → β}
    (hfg : ∀ a b below, source.kind a = target.kind b → f a below = g b below)
    (h : source.kinds a = target.kinds b) (ha : a < source.size) (hb : b < target.size) :
    (source.foldUp blank f).getD a blank = (target.foldUp blank g).getD b blank := by
  rw [← foldUp_unlabelled source, ← foldUp_unlabelled target]
  refine (alike_unlabelled_iff.2 h).getD_foldUp_eq ?_ (by simpa using ha) (by simpa using hb)
  intro a b below hkind _
  exact hfg a b below (by simpa using hkind)

/-- Comparing two subtrees node by node finds whether they have the same kinds in the same shape. -/
theorem sameSubtree_iff_kinds :
    sameSubtree false source a target b = true ↔ source.kinds a = target.kinds b := by
  have hsame : sameSubtree false source a target b =
      sameSubtree true source.unlabelled a target.unlabelled b := by
    rw [sameSubtree, sameSubtree, sameFrom_unlabelled, size_unlabelled]
  rw [hsame, ← alike_unlabelled_iff]
  exact ⟨alike_of_sameSubtree, Alike.sameSubtree⟩

end Tree

namespace Measured

variable {digest : Digest} {source target : Measured digest} {a b : Nat}

theorem isomorphic_iff (ha : a < source.tree.size) (hb : b < target.tree.size) :
    source.isomorphic a target b = true ↔ source.tree.texts a = target.tree.texts b :=
  ⟨alike_of_isomorphic, fun h => isomorphic_of_alike h ha hb⟩

theorem size_eq_of_kinds (h : source.tree.kinds a = target.tree.kinds b) (ha : a < source.tree.size)
    (hb : b < target.tree.size) : source.size a = target.size b := by
  rw [size, size, source.sizes_eq, target.sizes_eq]
  exact Tree.getD_foldUp_eq_of_kinds (fun _ _ _ _ => rfl) h ha hb

theorem shapeDigest_eq_of_kinds (h : source.tree.kinds a = target.tree.kinds b)
    (ha : a < source.tree.size) (hb : b < target.tree.size) :
    source.shapeDigests.getD a 0 = target.shapeDigests.getD b 0 := by
  rw [source.shapeDigests_eq, target.shapeDigests_eq]
  exact Tree.getD_foldUp_eq_of_kinds (fun _ _ _ hkind => by rw [hkind]) h ha hb

theorem structurallyIsomorphic_iff (ha : a < source.tree.size) (hb : b < target.tree.size) :
    source.structurallyIsomorphic a target b = true ↔
      source.tree.kinds a = target.tree.kinds b := by
  simp only [structurallyIsomorphic, Bool.and_eq_true, beq_iff_eq,
    Tree.sameSubtree_iff_kinds]
  constructor
  · exact fun h => h.2
  · exact fun h => ⟨⟨shapeDigest_eq_of_kinds h ha hb, size_eq_of_kinds h ha hb⟩, h⟩

end Measured

/-- A node of a tree that has been measured. -/
structure Site (digest : Digest) where
  measured : Measured digest
  id : Nat
  lt_size : id < measured.tree.size

namespace Site

variable {digest : Digest}

/-- The kinds and labels from a node down, in their shape. -/
def texts (x : Site digest) : Rose (String × String) :=
  x.measured.tree.texts x.id

/-- The kinds from a node down, in their shape. -/
def kinds (x : Site digest) : Rose String :=
  x.measured.tree.kinds x.id

/-- Two nodes, maybe of two trees, pass the test that counts labels. -/
def Isomorphic (x y : Site digest) : Prop :=
  x.measured.isomorphic x.id y.measured y.id = true

/-- Two nodes, maybe of two trees, pass the test that does not count labels. -/
def StructurallyIsomorphic (x y : Site digest) : Prop :=
  x.measured.structurallyIsomorphic x.id y.measured y.id = true

theorem isomorphic_iff {x y : Site digest} : x.Isomorphic y ↔ x.texts = y.texts :=
  Measured.isomorphic_iff x.lt_size y.lt_size

theorem structurallyIsomorphic_iff {x y : Site digest} :
    x.StructurallyIsomorphic y ↔ x.kinds = y.kinds :=
  Measured.structurallyIsomorphic_iff x.lt_size y.lt_size

theorem kinds_eq_of_texts_eq {x y : Site digest} (h : x.texts = y.texts) : x.kinds = y.kinds := by
  rw [kinds, kinds, Tree.kinds_eq_map_texts, Tree.kinds_eq_map_texts]
  exact congrArg _ h

/-- **The tests decide equality of subtrees.**  Whatever the digest function is, two nodes of any
two trees pass the test that counts labels exactly if they have the same kinds and labels in the
same shape, and the other test exactly if they have the same kinds in the same shape.  Digests and
sizes, which are looked at first, are equal then.  Both tests are equivalences, and what passes the
first passes the second. -/
theorem tests_decide_equality (digest : Digest) :
    (∀ x y : Site digest, (x.Isomorphic y ↔ x.texts = y.texts) ∧
      (x.StructurallyIsomorphic y ↔ x.kinds = y.kinds)) ∧
    (∀ x y : Site digest, x.texts = y.texts →
      x.measured.digests.getD x.id 0 = y.measured.digests.getD y.id 0 ∧
      x.measured.size x.id = y.measured.size y.id) ∧
    (∀ x y : Site digest, x.kinds = y.kinds →
      x.measured.shapeDigests.getD x.id 0 = y.measured.shapeDigests.getD y.id 0 ∧
      x.measured.size x.id = y.measured.size y.id) ∧
    Equivalence (@Isomorphic digest) ∧ Equivalence (@StructurallyIsomorphic digest) ∧
    ∀ x y : Site digest, x.Isomorphic y → x.StructurallyIsomorphic y := by
  have hsize : ∀ x y : Site digest, x.kinds = y.kinds →
      x.measured.size x.id = y.measured.size y.id :=
    fun x y h => Measured.size_eq_of_kinds h x.lt_size y.lt_size
  refine ⟨fun x y => ⟨isomorphic_iff, structurallyIsomorphic_iff⟩, fun x y h => ⟨?_, ?_⟩,
    fun x y h => ⟨?_, hsize x y h⟩, ?_, ?_, fun x y h => ?_⟩
  · exact Measured.digest_eq_of_alike h x.lt_size y.lt_size
  · exact hsize x y (kinds_eq_of_texts_eq h)
  · exact Measured.shapeDigest_eq_of_kinds h x.lt_size y.lt_size
  · -- Equality of what is compared is an equivalence.
    have htests : @Isomorphic digest = fun x y => x.texts = y.texts := by
      funext x y
      exact propext isomorphic_iff
    rw [htests]
    exact eq_equivalence.comap texts
  · have htests : @StructurallyIsomorphic digest = fun x y => x.kinds = y.kinds := by
      funext x y
      exact propext structurallyIsomorphic_iff
    rw [htests]
    exact eq_equivalence.comap kinds
  · exact structurallyIsomorphic_iff.2 (kinds_eq_of_texts_eq (isomorphic_iff.1 h))

/-- Under a digest function that collides on everything, two subtrees that differ in a label have
equal digests and sizes, and only the test that does not count labels says yes. -/
theorem tests_decide_equality_collision :
    let digest : Digest := fun _ _ => 0
    let tree (label : String) : Tree :=
      .ofNodes default "" #[{ kind := "call" }, { kind := "name", label, parent := some 0 }]
    let x : Site digest := ⟨(tree "f").measured digest, 0, by decide⟩
    let y : Site digest := ⟨(tree "g").measured digest, 0, by decide⟩
    x.measured.digests.getD x.id 0 = y.measured.digests.getD y.id 0 ∧
      x.measured.size x.id = y.measured.size y.id ∧ x.kinds = y.kinds ∧ x.texts ≠ y.texts ∧
      x.StructurallyIsomorphic y ∧ ¬ x.Isomorphic y := by
  intro digest tree x y
  obtain ⟨htests, -, hshortcuts, -⟩ := tests_decide_equality digest
  have hkinds : x.kinds = y.kinds := rfl
  have htexts : x.texts ≠ y.texts := fun h => absurd (congrArg Rose.preorder h) (by decide)
  exact ⟨rfl, (hshortcuts x y hkinds).2, hkinds, htexts, (htests x y).2.2 hkinds,
    fun h => htexts ((htests x y).1.1 h)⟩

end Site

end Reshape
