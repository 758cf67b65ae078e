import Mathlib
import Reshape.Proofs.Forest
import Reshape.Tree.Traversal

/-! # Subtrees of numbered trees

The walks of a numbered tree list the nodes of a subtree: exactly the nodes whose way up passes the
top of the subtree, each once.  In preorder a parent comes before its children, in postorder after
them. -/

namespace Reshape.Tree

variable (tree : Tree) {root id : Nat}

/-- A node belongs to the subtree at `root`. -/
abbrev Within (root id : Nat) : Prop := Leads tree.parent id root

theorem root_lt_size (h : tree.isEmpty = false) : tree.root < tree.size := by
  rw [isEmpty, Array.isEmpty_eq_false_iff] at h
  exact Array.size_pos_iff.2 h

theorem nodup_children (id : Nat) : (tree.children id).Nodup := by
  rw [children_eq]
  exact List.nodup_range.filter _

theorem isForest : IsForest tree.parent tree.children where
  mem_down := tree.mem_children
  nodup_down := tree.nodup_children

/-- Numbers grow on the way down. -/
theorem climbs : Climbs tree.parent (tree.size - ·) := by
  intro c p h
  have hlt := tree.lt_of_parent h
  have hsize := tree.lt_size_of_parent h
  show tree.size - c < tree.size - p
  omega

theorem le_of_within (h : tree.Within root id) : root ≤ id := by
  induction h with
  | refl => exact Nat.le_refl _
  | tail _ hp ih => exact Nat.le_trans (Nat.le_of_lt (tree.lt_of_parent hp)) ih

/-- A child of a node of the subtree is not its top. -/
theorem ne_root_of_parent {p : Nat} (h : tree.Within root p) (hp : tree.parent id = some p) :
    id ≠ root := by
  have hlt := tree.lt_of_parent hp
  have hle := tree.le_of_within h
  omega

theorem eq_or_lt_size_of_within (h : tree.Within root id) : id = root ∨ id < tree.size := by
  rcases h.eq_or_step with rfl | ⟨p, hp, -⟩
  · exact Or.inl rfl
  · exact Or.inr (tree.lt_size_of_parent hp)

/-! ### Ancestors -/

theorem mem_ancestorsWithin {fuel a : Nat} (h : id ≤ fuel) :
    a ∈ tree.ancestorsWithin fuel id ↔ ∃ p, tree.parent id = some p ∧ tree.Within a p := by
  induction fuel generalizing id with
  | zero =>
    have hparent : ∀ p, tree.parent id ≠ some p := fun p hp => by
      have := tree.lt_of_parent hp
      omega
    simp [ancestorsWithin, hparent]
  | succ fuel ih =>
    rw [ancestorsWithin]
    cases hp : tree.parent id with
    | none => simp
    | some p =>
      have hlt := tree.lt_of_parent hp
      simp only [List.mem_cons, ih (by omega : p ≤ fuel), Option.some.injEq, exists_eq_left']
      constructor
      · rintro (rfl | ⟨q, hq, h⟩)
        · exact Leads.refl _
        · exact Leads.step hq h
      · intro h
        rcases h.eq_or_step with rfl | ⟨q, hq, h⟩
        · exact Or.inl rfl
        · exact Or.inr ⟨q, hq, h⟩

theorem mem_ancestors {a : Nat} :
    a ∈ tree.ancestors id ↔ ∃ p, tree.parent id = some p ∧ tree.Within a p :=
  tree.mem_ancestorsWithin (Nat.le_refl id)

theorem isAncestorOrSelf_iff {a : Nat} : tree.isAncestorOrSelf a id = true ↔ tree.Within a id := by
  rw [isAncestorOrSelf, List.contains_iff_mem, List.mem_cons, mem_ancestors]
  constructor
  · rintro (rfl | ⟨p, hp, h⟩)
    · exact Leads.refl _
    · exact Leads.step hp h
  · intro h
    rcases h.eq_or_step with rfl | ⟨p, hp, h⟩
    · exact Or.inl rfl
    · exact Or.inr ⟨p, hp, h⟩

/-- Whether a node belongs to a subtree is found by going up. -/
instance (root id : Nat) : Decidable (tree.Within root id) :=
  decidable_of_iff _ tree.isAncestorOrSelf_iff

theorem ancestorsWithin_eq {fuel fuel' : Nat} (h : id ≤ fuel) (h' : id ≤ fuel') :
    tree.ancestorsWithin fuel id = tree.ancestorsWithin fuel' id := by
  induction id using Nat.strongRecOn generalizing fuel fuel' with
  | ind id ih =>
    cases hp : tree.parent id with
    | none => cases fuel <;> cases fuel' <;> simp [ancestorsWithin, hp]
    | some p =>
      have hlt := tree.lt_of_parent hp
      obtain ⟨fuel, rfl⟩ := Nat.exists_eq_succ_of_ne_zero (by omega : fuel ≠ 0)
      obtain ⟨fuel', rfl⟩ := Nat.exists_eq_succ_of_ne_zero (by omega : fuel' ≠ 0)
      simp only [ancestorsWithin, hp]
      rw [ih p hlt (by omega : p ≤ fuel) (by omega : p ≤ fuel')]

theorem ancestors_of_parent {p : Nat} (h : tree.parent id = some p) :
    tree.ancestors id = p :: tree.ancestors p := by
  have hlt := tree.lt_of_parent h
  obtain ⟨fuel, rfl⟩ := Nat.exists_eq_succ_of_ne_zero (by omega : id ≠ 0)
  rw [ancestors, ancestorsWithin, h]
  exact congrArg _ (tree.ancestorsWithin_eq (by omega) (Nat.le_refl p))

theorem ancestors_of_none (h : tree.parent id = none) : tree.ancestors id = [] := by
  cases id <;> simp [ancestors, ancestorsWithin, h]

/-- The ancestors of a node are the nodes whose subtrees it belongs to, itself excepted. -/
theorem mem_ancestors_iff {a : Nat} : a ∈ tree.ancestors id ↔ a ≠ id ∧ tree.Within a id := by
  rw [mem_ancestors]
  constructor
  · rintro ⟨p, hp, ha⟩
    have hlt := tree.lt_of_parent hp
    have hle := tree.le_of_within ha
    exact ⟨by omega, Leads.step hp ha⟩
  · rintro ⟨hne, ha⟩
    exact ha.eq_or_step.resolve_left (Ne.symm hne)

theorem nodup_ancestors (id : Nat) : (tree.ancestors id).Nodup := by
  induction id using Nat.strongRecOn with
  | ind id ih =>
    cases hp : tree.parent id with
    | none => simp [tree.ancestors_of_none hp]
    | some p =>
      rw [tree.ancestors_of_parent hp, List.nodup_cons]
      exact ⟨fun hmem => (tree.mem_ancestors_iff.1 hmem).1 rfl, ih p (tree.lt_of_parent hp)⟩

/-! ### The subtree at a node -/

@[simp] theorem value_subtree (id : Nat) : (tree.subtree id).value = id := by
  rw [subtree_eq, Rose.value_node]

theorem subtree_follows (id : Nat) : (tree.subtree id).Follows tree.children := by
  induction hn : tree.size - id using Nat.strongRecOn generalizing id with
  | ind n ih =>
    rw [subtree_eq]
    refine .node (by simp [Function.comp_def]) fun rose hrose => ?_
    obtain ⟨c, hc, rfl⟩ := List.mem_map.1 hrose
    have hlt := tree.lt_of_mem_children hc
    have hsize := tree.lt_size_of_mem_children hc
    exact ih (tree.size - c) (by omega) c rfl

theorem length_preorder_subtree_le (id : Nat) :
    (tree.subtree id).preorder.length ≤ tree.size + 1 := by
  have hnodup := (tree.subtree_follows id).nodup_preorder tree.isForest tree.climbs
  have hsub : (tree.subtree id).preorder ⊆ id :: tree.ids := by
    intro x hx
    rw [(tree.subtree_follows id).mem_preorder tree.isForest, value_subtree] at hx
    rcases tree.eq_or_lt_size_of_within hx with rfl | hlt
    · exact List.mem_cons_self ..
    · exact List.mem_cons_of_mem _ (List.mem_range.2 hlt)
  simpa [ids] using (List.subperm_of_subset hnodup hsub).length_le

theorem preorderFrom_eq (fuel : Nat) (roses : List (Rose Nat))
    (hall : ∀ rose ∈ roses, rose.Follows tree.children)
    (hfuel : (roses.map fun rose => rose.preorder.length).sum ≤ fuel) :
    tree.preorderFrom fuel (roses.map Rose.value) = roses.flatMap Rose.preorder := by
  induction fuel generalizing roses with
  | zero =>
    cases roses with
    | nil => rfl
    | cons rose roses =>
      have hpos := List.length_pos_of_mem rose.value_mem_preorder
      rw [List.map_cons, List.sum_cons] at hfuel
      omega
  | succ fuel ih =>
    rcases roses with - | ⟨⟨value, below⟩, roses⟩
    · rfl
    · obtain ⟨hvalues, hbelow⟩ := hall _ (List.mem_cons_self ..)
      have hboth : ∀ rose ∈ below ++ roses, rose.Follows tree.children := by
        intro rose hrose
        rcases List.mem_append.1 hrose with hrose | hrose
        · exact hbelow rose hrose
        · exact hall rose (List.mem_cons_of_mem _ hrose)
      simp only [List.map_cons, List.sum_cons, Rose.preorder_node, List.length_cons,
        List.length_flatMap] at hfuel
      rw [List.map_cons, Rose.value_node, preorderFrom, ← hvalues, ← List.map_append, ih _ hboth]
      · simp [Rose.preorder_node]
      · rw [List.map_append, List.sum_append]
        omega

/-- The preorder walk lists the preorder of the subtree. -/
theorem preorder_eq (id : Nat) : tree.preorder id = (tree.subtree id).preorder := by
  have hwalk := tree.preorderFrom_eq (tree.size + 1) [tree.subtree id]
    (by simpa using tree.subtree_follows id) (by simpa using tree.length_preorder_subtree_le id)
  simpa [preorder] using hwalk

/-- The postorder walk lists the postorder of the subtree. -/
theorem postorder_eq (id : Nat) : tree.postorder id = (tree.subtree id).postorder := by
  have hwalk := @Rose.Follows.postorder_walk tree.children tree.postorderFrom
    (fun fuel => by cases fuel <;> rfl) (fun _ _ _ => rfl) (fun _ _ _ => rfl)
    (2 * (tree.size + 1)) [(tree.subtree id, false)]
    (by simpa using tree.subtree_follows id) (by
      have := tree.length_preorder_subtree_le id
      simp only [List.map_cons, List.map_nil, List.sum_cons, List.sum_nil, Bool.false_eq_true,
        ↓reduceIte]
      omega)
  simpa [postorder] using hwalk

theorem mem_preorder : id ∈ tree.preorder root ↔ tree.Within root id := by
  rw [preorder_eq, (tree.subtree_follows root).mem_preorder tree.isForest, value_subtree]

theorem nodup_preorder (root : Nat) : (tree.preorder root).Nodup := by
  rw [preorder_eq]
  exact (tree.subtree_follows root).nodup_preorder tree.isForest tree.climbs

theorem postorder_perm_preorder (root : Nat) :
    (tree.postorder root).Perm (tree.preorder root) := by
  rw [preorder_eq, postorder_eq]
  exact (tree.subtree_follows root).perm_postorder

theorem mem_postorder : id ∈ tree.postorder root ↔ tree.Within root id := by
  rw [(tree.postorder_perm_preorder root).mem_iff, mem_preorder]

theorem nodup_postorder (root : Nat) : (tree.postorder root).Nodup :=
  (tree.postorder_perm_preorder root).nodup_iff.2 (tree.nodup_preorder root)

theorem preorder_eq_cons (root : Nat) :
    tree.preorder root = root :: (tree.children root).flatMap tree.preorder := by
  have hpre : tree.preorder = fun id => (tree.subtree id).preorder := funext tree.preorder_eq
  rw [preorder_eq, subtree_eq, Rose.preorder_node, List.flatMap_map, hpre]

/-- In preorder the parent of a node comes before it. -/
theorem parent_mem_of_preorder {seen rest : List Nat} (h : tree.preorder root = seen ++ id :: rest)
    (hne : id ≠ root) : ∃ p ∈ seen, tree.parent id = some p := by
  rw [preorder_eq] at h
  exact (tree.subtree_follows root).mem_seen_of_preorder tree.isForest h (by simpa using hne)

/-- In preorder the children of a node come after it. -/
theorem child_notMem_of_preorder {seen rest : List Nat} {c : Nat}
    (h : tree.preorder root = seen ++ id :: rest) (hc : tree.parent c = some id) : c ∉ seen := by
  intro hmem
  have hid : tree.Within root id := tree.mem_preorder.1 (by rw [h]; simp)
  have hne : c ≠ root := by
    have hlt := tree.lt_of_parent hc
    have hle := tree.le_of_within hid
    omega
  obtain ⟨before, after, rfl⟩ := List.append_of_mem hmem
  have hnodup := h ▸ tree.nodup_preorder root
  rw [List.append_assoc, List.cons_append] at h
  obtain ⟨p, hp, hparent⟩ := tree.parent_mem_of_preorder h hne
  obtain rfl : p = id := Option.some.inj (hparent.symm.trans hc)
  exact (List.nodup_append.1 hnodup).2.2 p (List.mem_append_left _ hp) p (by simp) rfl

/-- In postorder the children of a node come before it. -/
theorem child_mem_of_postorder {seen rest : List Nat} {c : Nat}
    (h : tree.postorder root = seen ++ id :: rest) (hc : tree.parent c = some id) : c ∈ seen := by
  rw [postorder_eq] at h
  exact (tree.subtree_follows root).mem_seen_of_postorder h (tree.mem_children.2 hc)

/-- The subtrees of two children of a node have no node in common. -/
theorem eq_of_within_siblings {a b p : Nat} (ha : a ∈ tree.children p) (hb : b ∈ tree.children p)
    (hida : tree.Within a id) (hidb : tree.Within b id) : a = b :=
  Rose.Follows.siblings_disjoint tree.isForest tree.climbs ha hb hida hidb

end Reshape.Tree
