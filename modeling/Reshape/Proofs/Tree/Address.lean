import Mathlib
import Reshape.Proofs.Tree

/-! # Trees numbered by addresses

An address leads from the root to a node: it lists, for every step down, the place of the child that
is taken.  In preorder a node comes right before the nodes below it and these come in the order of
the places, so preorder is the lexicographic order of addresses.

A tree whose nodes are numbered in that order has simple walks.  A subtree consists of the nodes
whose addresses go on from that of its top, and these are neighbours in lexicographic order, so the
preorder of every subtree is an interval of numbers. -/

namespace Reshape.Tree

/-! ### The order of addresses -/

/-- What comes behind a prefix but not behind an address that goes on from it goes on from it
too. -/
theorem prefix_of_between {a b c : List Nat} (hab : ¬ b < a) (hbc : ¬ c < b) (hac : a <+: c) :
    a <+: b := by
  induction a generalizing b c with
  | nil => exact List.nil_prefix
  | cons x a ih =>
    obtain ⟨rest, rfl⟩ := hac
    cases b with
    | nil => exact absurd (List.nil_lt_cons x a) hab
    | cons y b =>
      rw [List.cons_lt_cons_iff] at hab
      rw [List.cons_append, List.cons_lt_cons_iff] at hbc
      have hxy : x = y := by omega
      subst hxy
      refine List.cons_prefix_cons.mpr ⟨rfl, ih ?_ ?_ (List.prefix_append a rest)⟩
      · exact fun h => hab (Or.inr ⟨rfl, h⟩)
      · exact fun h => hbc (Or.inr ⟨rfl, h⟩)

/-- Of two children the one at the smaller place comes first, with all that is below it. -/
theorem lt_of_prefix_of_lt {above a b : List Nat} {place other : Nat} (hlt : place < other)
    (ha : above ++ [place] <+: a) (hb : above ++ [other] <+: b) : a < b := by
  obtain ⟨rest, rfl⟩ := ha
  obtain ⟨rest', rfl⟩ := hb
  rw [List.append_assoc, List.append_assoc]
  exact List.append_left_lt (List.cons_lt_cons_iff.mpr (Or.inl hlt))

theorem lt_of_concat_lt {above : List Nat} {place other : Nat}
    (h : above ++ [place] < above ++ [other]) : place < other := by
  rcases Nat.lt_trichotomy place other with hlt | rfl | hgt
  · exact hlt
  · exact absurd h (List.lt_irrefl _)
  · exact absurd h (List.lt_asymm (lt_of_prefix_of_lt hgt List.prefix_rfl List.prefix_rfl))

theorem pairwise_children (tree : Tree) (id : Nat) : (tree.children id).Pairwise (· < ·) := by
  rw [children_eq]
  exact List.pairwise_lt_range.filter _

/-- The nodes of a tree are numbered in the order of their addresses.  The address of a parent is
that of the child without its last step. -/
structure Addressed (tree : Tree) (addresses : List (List Nat)) : Prop where
  size_eq : tree.size = addresses.length
  sorted : addresses.Pairwise (· < ·)
  nil_mem : [] ∈ addresses
  above_mem : ∀ above place, above ++ [place] ∈ addresses → above ∈ addresses
  parent_iff : ∀ id address, addresses[id]? = some address → ∀ parent,
    tree.parent id = some parent ↔
      ∃ above place, addresses[parent]? = some above ∧ address = above ++ [place]

namespace Addressed

variable {tree : Tree} {addresses : List (List Nat)} {i j id : Nat} {a b address : List Nat}

theorem exists_address (h : tree.Addressed addresses) (hid : id < tree.size) :
    ∃ address, addresses[id]? = some address :=
  ⟨_, List.getElem?_eq_getElem (h.size_eq ▸ hid)⟩

theorem lt_size (h : tree.Addressed addresses) (hi : addresses[i]? = some a) : i < tree.size := by
  rw [h.size_eq]
  exact (List.getElem?_eq_some_iff.mp hi).1

theorem lt_of_lt (h : tree.Addressed addresses) (hi : addresses[i]? = some a)
    (hj : addresses[j]? = some b) (hlt : i < j) : a < b := by
  obtain ⟨hi', rfl⟩ := List.getElem?_eq_some_iff.mp hi
  obtain ⟨hj', rfl⟩ := List.getElem?_eq_some_iff.mp hj
  exact List.pairwise_iff_getElem.mp h.sorted i j hi' hj' hlt

theorem lt_iff (h : tree.Addressed addresses) (hi : addresses[i]? = some a)
    (hj : addresses[j]? = some b) : i < j ↔ a < b := by
  refine ⟨h.lt_of_lt hi hj, fun hab => ?_⟩
  rcases Nat.lt_trichotomy i j with hlt | rfl | hgt
  · exact hlt
  · obtain rfl : a = b := Option.some.inj (hi.symm.trans hj)
    exact absurd hab (List.lt_irrefl a)
  · exact absurd (h.lt_of_lt hj hi hgt) (List.lt_asymm hab)

theorem eq_of_getElem? (h : tree.Addressed addresses) (hi : addresses[i]? = some a)
    (hj : addresses[j]? = some a) : i = j := by
  rcases Nat.lt_trichotomy i j with hlt | heq | hgt
  · exact absurd (h.lt_of_lt hi hj hlt) (List.lt_irrefl a)
  · exact heq
  · exact absurd (h.lt_of_lt hj hi hgt) (List.lt_irrefl a)

theorem getElem?_root (h : tree.Addressed addresses) : addresses[tree.root]? = some [] := by
  obtain ⟨i, hi⟩ := List.mem_iff_getElem?.mp h.nil_mem
  have hsize := h.lt_size hi
  obtain ⟨address, hroot⟩ := h.exists_address (Nat.lt_of_le_of_lt (Nat.zero_le i) hsize)
  cases i with
  | zero => exact hi
  | succ i => exact absurd (h.lt_of_lt hroot hi (Nat.succ_pos i)) (List.not_lt_nil address)

theorem exists_of_parent (h : tree.Addressed addresses) {parent : Nat}
    (hi : addresses[id]? = some a) (hp : tree.parent id = some parent) :
    ∃ above place, addresses[parent]? = some above ∧ a = above ++ [place] :=
  (h.parent_iff id a hi parent).mp hp

/-- A subtree consists of the nodes whose addresses go on from that of its top. -/
theorem within_iff (h : tree.Addressed addresses) (hi : addresses[i]? = some a)
    (hj : addresses[j]? = some b) : tree.Within i j ↔ a <+: b := by
  constructor
  · intro hwithin
    induction hwithin using Relation.ReflTransGen.head_induction_on generalizing b with
    | refl =>
      obtain rfl : a = b := Option.some.inj (hi.symm.trans hj)
      exact List.prefix_rfl
    | head hp _ ih =>
      obtain ⟨above, place, habove, rfl⟩ := h.exists_of_parent hj hp
      exact (ih habove).trans (List.prefix_append above [place])
  · rintro ⟨steps, rfl⟩
    induction steps using List.reverseRecOn generalizing j with
    | nil =>
      rw [List.append_nil] at hj
      exact h.eq_of_getElem? hi hj ▸ Leads.refl i
    | append_singleton steps place ih =>
      rw [← List.append_assoc] at hj
      have habove := h.above_mem _ place (List.mem_of_getElem? hj)
      obtain ⟨parent, hparent⟩ := List.mem_iff_getElem?.mp habove
      have hup := (h.parent_iff j _ hj parent).mpr ⟨_, place, hparent, rfl⟩
      exact Leads.step hup (ih hparent)

/-! ### Children -/

/-- The address of a child goes one step further than that of its parent. -/
theorem exists_place (h : tree.Addressed addresses) (hid : addresses[id]? = some address)
    {child : Nat} (hchild : child ∈ tree.children id) :
    ∃ place, addresses[child]? = some (address ++ [place]) := by
  have hparent := tree.mem_children.mp hchild
  obtain ⟨a, ha⟩ := h.exists_address (tree.lt_size_of_parent hparent)
  obtain ⟨above, place, habove, rfl⟩ := h.exists_of_parent ha hparent
  obtain rfl : above = address := Option.some.inj (habove.symm.trans hid)
  exact ⟨place, ha⟩

/-- The children of a node are the nodes one step further, in the order of their places. -/
theorem map_children (h : tree.Addressed addresses) (hid : addresses[id]? = some address)
    {places : List Nat} (hsorted : places.Pairwise (· < ·))
    (hmem : ∀ place, place ∈ places ↔ address ++ [place] ∈ addresses) :
    (tree.children id).map (addresses[·]?) = places.map fun place => some (address ++ [place]) := by
  have hplace := fun child (hchild : child ∈ tree.children id) => h.exists_place hid hchild
  have hmap : (tree.children id).map (addresses[·]?) =
      ((tree.children id).map (addresses.getD · [])).map some := by
    rw [List.map_map]
    refine List.map_congr_left fun child hchild => ?_
    obtain ⟨place, hat⟩ := hplace child hchild
    simp [hat]
  -- Both lists of addresses ascend, so it is enough that they have the same members.
  have haddresses : (tree.children id).map (addresses.getD · []) =
      places.map fun place => address ++ [place] := by
    refine List.Pairwise.eq_of_mem_iff (r := (· < ·)) ?_ ?_ fun a => ?_
    · rw [List.pairwise_map]
      refine (tree.pairwise_children id).imp_of_mem fun {c d} hc hd hlt => ?_
      obtain ⟨place, hcat⟩ := hplace c hc
      obtain ⟨place', hdat⟩ := hplace d hd
      simpa [hcat, hdat] using h.lt_of_lt hcat hdat hlt
    · rw [List.pairwise_map]
      exact hsorted.imp fun hlt => lt_of_prefix_of_lt hlt List.prefix_rfl List.prefix_rfl
    · rw [List.mem_map, List.mem_map]
      constructor
      · rintro ⟨child, hchild, rfl⟩
        obtain ⟨place, hat⟩ := hplace child hchild
        exact ⟨place, (hmem place).mpr (List.mem_of_getElem? hat), by simp [hat]⟩
      · rintro ⟨place, hin, rfl⟩
        obtain ⟨child, hchild⟩ := List.mem_iff_getElem?.mp ((hmem place).mp hin)
        have hparent := (h.parent_iff child _ hchild id).mpr ⟨address, place, hid, rfl⟩
        exact ⟨child, tree.mem_children.mpr hparent, by simp [hchild]⟩
  rw [hmap, haddresses, List.map_map]
  rfl

/-! ### Preorder -/

theorem prefix_of_mem_preorder (h : tree.Addressed addresses) (hi : addresses[i]? = some a)
    (hj : j ∈ tree.preorder i) : ∃ b, addresses[j]? = some b ∧ a <+: b := by
  have hwithin := tree.mem_preorder.mp hj
  have hsize : j < tree.size :=
    (tree.eq_or_lt_size_of_within hwithin).elim (· ▸ h.lt_size hi) fun hlt => hlt
  obtain ⟨b, hb⟩ := h.exists_address hsize
  exact ⟨b, hb, (h.within_iff hi hb).mp hwithin⟩

/-- The preorder of a subtree ascends. -/
theorem pairwise_preorder (h : tree.Addressed addresses) (id : Nat) :
    (tree.preorder id).Pairwise (· < ·) := by
  induction hn : tree.size - id using Nat.strongRecOn generalizing id with
  | ind n ih =>
    rw [preorder_eq_cons, List.pairwise_cons, List.pairwise_flatMap]
    refine ⟨fun x hx => ?_, fun c hc => ?_, ?_⟩
    · obtain ⟨c, hc, hx⟩ := List.mem_flatMap.mp hx
      exact Nat.lt_of_lt_of_le (tree.lt_of_mem_children hc)
        (tree.le_of_within (tree.mem_preorder.mp hx))
    · have hlt := tree.lt_of_mem_children hc
      have hsize := tree.lt_size_of_mem_children hc
      exact ih (tree.size - c) (by omega) c rfl
    · refine (tree.pairwise_children id).imp_of_mem fun {c d} hc hd hlt x hx y hy => ?_
      have hsize := tree.lt_size_of_mem_children hc
      obtain ⟨a, ha⟩ := h.exists_address (Nat.lt_trans (tree.lt_of_mem_children hc) hsize)
      obtain ⟨place, hca⟩ := h.exists_place ha hc
      obtain ⟨place', hda⟩ := h.exists_place ha hd
      obtain ⟨b, hb, hcb⟩ := h.prefix_of_mem_preorder hca hx
      obtain ⟨b', hb', hdb'⟩ := h.prefix_of_mem_preorder hda hy
      -- The two children part at their last step, and so does what is below them.
      have hplace : place < place' := lt_of_concat_lt (h.lt_of_lt hca hda hlt)
      exact (h.lt_iff hb hb').mpr (lt_of_prefix_of_lt hplace hcb hdb')

theorem eq_range'_of_convex {ids : List Nat} {first : Nat} (hsorted : ids.Pairwise (· < ·))
    (hfirst : ∀ y ∈ ids, first ≤ y) (hconvex : ∀ y ∈ ids, ∀ x, first ≤ x → x ≤ y → x ∈ ids) :
    ids = List.range' first ids.length := by
  induction ids generalizing first with
  | nil => rfl
  | cons y ids ih =>
    obtain ⟨hy, hrest⟩ := List.pairwise_cons.mp hsorted
    have hle : first ≤ y := hfirst y List.mem_cons_self
    obtain rfl : first = y := by
      rcases List.mem_cons.mp
        (hconvex y List.mem_cons_self first (Nat.le_refl _) hle) with heq | hmem
      · exact heq
      · have := hy first hmem
        omega
    rw [List.length_cons, List.range'_succ, ← ih hrest hy]
    intro z hz x hx hxz
    have hmem := hconvex z (List.mem_cons_of_mem _ hz) x (by omega) hxz
    exact (List.mem_cons.mp hmem).resolve_left (by omega)

/-- The preorder of a subtree is an interval of numbers. -/
theorem preorder_eq_range' (h : tree.Addressed addresses) (hid : id < tree.size) :
    tree.preorder id = List.range' id (tree.preorder id).length := by
  refine eq_range'_of_convex (h.pairwise_preorder id) (fun y hy => ?_) fun y hy x hidx hxy => ?_
  · exact tree.le_of_within (tree.mem_preorder.mp hy)
  · obtain ⟨a, ha⟩ := h.exists_address hid
    obtain ⟨c, hc, hac⟩ := h.prefix_of_mem_preorder ha hy
    obtain ⟨b, hb⟩ := h.exists_address (Nat.lt_of_le_of_lt hxy (h.lt_size hc))
    rw [mem_preorder, h.within_iff ha hb]
    refine prefix_of_between (fun hlt => ?_) (fun hlt => ?_) hac
    · have := (h.lt_iff hb ha).mpr hlt
      omega
    · have := (h.lt_iff hc hb).mpr hlt
      omega

/-- The preorder of the whole tree lists the numbers from zero on. -/
theorem preorder_root (h : tree.Addressed addresses) :
    tree.preorder tree.root = List.range tree.size := by
  refine List.Pairwise.eq_of_mem_iff (r := (· < ·)) (h.pairwise_preorder _)
    List.pairwise_lt_range ?_
  intro id
  have hroot := h.getElem?_root
  rw [List.mem_range]
  constructor
  · intro hmem
    obtain ⟨address, haddress, -⟩ := h.prefix_of_mem_preorder hroot hmem
    exact h.lt_size haddress
  · intro hid
    obtain ⟨address, haddress⟩ := h.exists_address hid
    exact tree.mem_preorder.mpr ((h.within_iff hroot haddress).mpr List.nil_prefix)

end Addressed

end Reshape.Tree
