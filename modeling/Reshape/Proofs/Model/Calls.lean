import Mathlib
import Reshape.Proofs.Model.Location
import Reshape.Proofs.Tree.Address

/-! # The calls of an operation

An operation knows the calls of its statements.  The statements are those of its body that no
operation or class declared there hides.  A statement knows the calls of its header, which ends
before its first child that is a block or a statement, and of nothing after it.  So a call below a
statement may be lost: the condition of a loop that follows the block of the loop belongs to no
header. -/

namespace Reshape

namespace Tree

variable {tree : Tree} {root id : Nat}

theorem within_iff_eq_or_inside : tree.Within root id ↔ id = root ∨ tree.Inside root id := by
  constructor
  · intro h
    rw [← tree.mem_preorder, tree.preorder_eq_cons, List.mem_cons, List.mem_flatMap] at h
    exact h.imp_right fun ⟨child, hchild, hid⟩ => ⟨child, hchild, tree.mem_preorder.1 hid⟩
  · rintro (rfl | h)
    · exact Leads.refl _
    · exact h.within

theorem Inside.lt (h : tree.Inside root id) : root < id := by
  obtain ⟨child, hchild, hwithin⟩ := h
  have hlt := tree.lt_of_mem_children hchild
  have hle := tree.le_of_within hwithin
  omega

end Tree

namespace Statement

variable {tree : Tree} {root id s v : Nat}

/-! ### Nodes that are not hidden -/

/-- A node inside another one, and not inside an operation or a class that is declared there. -/
def Shown (tree : Tree) (root id : Nat) : Prop :=
  tree.Inside root id ∧ ∀ a, tree.Inside root a → tree.Within a id → hides tree a = false

/-- What is above a shown node is shown. -/
theorem Shown.above (h : Shown tree root v) (hs : tree.Inside root s) (hv : tree.Within s v) :
    Shown tree root s :=
  ⟨hs, fun a ha hsa => h.2 a ha (hv.trans hsa)⟩

/-- A shown node is a child that hides nothing, or it is shown inside one. -/
theorem shown_iff : Shown tree root id ↔
    ∃ child ∈ tree.children root, hides tree child = false ∧
      (id = child ∨ Shown tree child id) := by
  constructor
  · rintro ⟨hinside, hshown⟩
    obtain ⟨child, hchild, hid⟩ := hinside
    have hself : tree.Inside root child := ⟨child, hchild, Leads.refl _⟩
    refine ⟨child, hchild, hshown child hself hid, ?_⟩
    refine (Tree.within_iff_eq_or_inside.1 hid).imp_right fun hbelow => ⟨hbelow, fun a ha => ?_⟩
    exact hshown a (hself.trans_within ha.within)
  · rintro ⟨child, hchild, hhides, hid⟩
    have hwithin : tree.Within child id := by
      rcases hid with rfl | hid
      · exact Leads.refl _
      · exact hid.1.within
    refine ⟨⟨child, hchild, hwithin⟩, fun a ⟨other, hother, ha⟩ haid => ?_⟩
    -- The node is below one child only, and so is all that lies between.
    obtain rfl := tree.eq_of_within_siblings hother hchild (haid.trans ha) hwithin
    rcases Tree.within_iff_eq_or_inside.1 ha with rfl | ha
    · exact hhides
    · rcases hid with rfl | hid
      · have hle := tree.le_of_within haid
        have hlt := ha.lt
        omega
      · exact hid.2 a ha haid

/-- A statement of a body. -/
def StatementIn (tree : Tree) (body s : Nat) : Prop :=
  Shown tree body s ∧ (tree.category s).isStatement = true

/-- What a body lists are its statements. -/
theorem mem_nodes_ofBody {body : Nat} :
    s ∈ (ofBody tree body).map Statement.node ↔ StatementIn tree body s := by
  simp only [map_node_ofBody, List.mem_filter, Tree.mem_descendants, ← Tree.inside_iff, isListed,
    Bool.and_eq_true, List.all_eq_true, Tree.mem_between, Tree.Between, Bool.not_eq_true']
  constructor
  · rintro ⟨hinside, hs, hbetween⟩
    refine ⟨⟨hinside, fun a ha hwithin => ?_⟩, hs⟩
    by_cases heq : a = s
    · subst heq
      by_contra hhides
      rw [isStatement_of_hides (Bool.not_eq_false _ ▸ hhides)] at hs
      cases hs
    · exact hbetween a ⟨ha, heq, hwithin⟩
  · rintro ⟨⟨hinside, hshown⟩, hs⟩
    exact ⟨hinside, hs, fun a ha => hshown a ha.1 ha.2.2⟩

theorem invocations_of_mem_ofBody {body : Nat} {statement : Statement}
    (h : statement ∈ ofBody tree body) :
    statement.invocations = invocationsAt tree statement.node := by
  rw [ofBody_eq] at h
  obtain ⟨id, -, rfl⟩ := List.mem_map.1 h
  rfl

/-! ### Headers -/

/-- A node below a child of a statement such that neither this child nor one before it is a block or
a statement. -/
def InHeader (tree : Tree) (s v : Nat) : Prop :=
  ∃ child ∈ tree.children s, tree.Within child v ∧
    ∀ before ∈ tree.children s, before ≤ child → endsHeader tree before = false

theorem InHeader.within (h : InHeader tree s v) : tree.Within s v := by
  obtain ⟨child, hchild, hv, -⟩ := h
  exact Tree.Inside.within ⟨child, hchild, hv⟩

-- Children are listed by number, so what comes before the end of the header has smaller numbers.
theorem mem_takeWhile_iff {p : Nat → Bool} {l : List Nat} (h : l.Pairwise (· < ·)) {x : Nat} :
    x ∈ l.takeWhile p ↔ x ∈ l ∧ ∀ y ∈ l, y ≤ x → p y = true := by
  induction l with
  | nil => simp
  | cons a l ih =>
    obtain ⟨ha, hl⟩ := List.pairwise_cons.1 h
    rw [List.takeWhile_cons]
    split
    · rename_i hp
      rw [List.mem_cons, List.mem_cons, List.forall_mem_cons, ih hl]
      constructor
      · rintro (rfl | ⟨hx, hall⟩)
        · exact ⟨Or.inl rfl, fun _ => hp, fun y hy hle => absurd (ha y hy) (Nat.not_lt.2 hle)⟩
        · exact ⟨Or.inr hx, fun _ => hp, hall⟩
      · rintro ⟨hx, -, hall⟩
        exact hx.imp_right fun hx => ⟨hx, hall⟩
    · rename_i hp
      refine ⟨fun hx => absurd hx List.not_mem_nil, fun ⟨hx, hall⟩ => absurd (hall a ?_ ?_) hp⟩
      · exact List.mem_cons_self ..
      · rcases List.mem_cons.1 hx with rfl | hx
        · exact Nat.le_refl _
        · exact Nat.le_of_lt (ha x hx)

/-- The call at a node, by the name of what it calls. -/
def IsCall (tree : Tree) (v : Nat) (name : String) : Prop :=
  tree.category v = .invocation ∧ invocationName? tree v = some name

theorem node_of_invocation? {call : Invocation} (h : invocation? tree v = some call) :
    call.node = v := by
  rw [invocation?] at h
  split at h
  · obtain ⟨name, -, rfl⟩ := Option.map_eq_some_iff.1 h
    rfl
  · cases h

/-- A node is a call if there is an invocation of the name at it. -/
theorem isCall_iff {name : String} :
    IsCall tree v name ↔ ∃ call : Invocation, call.name = name ∧
      invocation? tree v = some call := by
  rw [IsCall, invocation?]
  by_cases hcategory : tree.category v = .invocation
  · simp [hcategory, eq_comm]
  · simp [hcategory]

/-- A statement knows the calls of its header. -/
theorem mem_invocationsAt {call : Invocation} :
    call ∈ invocationsAt tree s ↔
      InHeader tree s call.node ∧ invocation? tree call.node = some call := by
  rw [invocationsAt, List.mem_filterMap]
  constructor
  · rintro ⟨v, hv, hcall⟩
    obtain rfl := node_of_invocation? hcall
    obtain ⟨child, hchild, hv⟩ := List.mem_flatMap.1 hv
    obtain ⟨hmem, hbefore⟩ := (mem_takeWhile_iff (tree.pairwise_children s)).1 hchild
    refine ⟨⟨child, hmem, tree.mem_preorder.1 hv, fun before hb hle => ?_⟩, hcall⟩
    simpa using hbefore before hb hle
  · rintro ⟨⟨child, hchild, hv, hbefore⟩, hcall⟩
    refine ⟨call.node, List.mem_flatMap.2 ⟨child, ?_, tree.mem_preorder.2 hv⟩, hcall⟩
    refine (mem_takeWhile_iff (tree.pairwise_children s)).2 ⟨hchild, fun before hb hle => ?_⟩
    simpa using hbefore before hb hle

/-! ### Bodies -/

/-- The calls that a body knows are those of the headers of its statements. -/
theorem mem_invocations_ofBody {body : Nat} {call : Invocation} :
    (∃ statement ∈ ofBody tree body, call ∈ statement.invocations) ↔
      ∃ s, StatementIn tree body s ∧ InHeader tree s call.node ∧
        invocation? tree call.node = some call := by
  constructor
  · rintro ⟨statement, hstatement, hcall⟩
    rw [invocations_of_mem_ofBody hstatement, mem_invocationsAt] at hcall
    exact ⟨statement.node, mem_nodes_ofBody.1 (List.mem_map_of_mem hstatement), hcall⟩
  · rintro ⟨s, hs, hcall⟩
    obtain ⟨statement, hstatement, rfl⟩ := List.mem_map.1 (mem_nodes_ofBody.2 hs)
    refine ⟨statement, hstatement, ?_⟩
    rw [invocations_of_mem_ofBody hstatement, mem_invocationsAt]
    exact hcall

end Statement

namespace Model

open Statement

variable {tree : Tree} {model next : Model} {op : Operation}

/-! ### The operations of a model -/

theorem getElem?_operations {number : Nat} (h : number < model.operations.size) :
    model.operations[number]? = some (model.operationAt number) := by
  rw [operationAt, Array.getElem?_eq_getElem h, Option.getD_some]

/-- An operation whose statements are those of its body in a file. -/
def FromBody (tree : Tree) (op : Operation) : Prop :=
  op.statements = (op.body.map (Statement.ofBody tree)).getD []

theorem fromBody_step (h : ∀ op ∈ model.operations, FromBody tree op)
    (hstep : Step tree model next) :
    ∀ op ∈ next.operations, FromBody tree op := by
  cases hstep with
  | addClass _ _ => exact h
  | addAttributes _ => exact h
  | addOperation _ hop =>
    intro op hmem
    rcases Array.mem_push.1 hmem with hmem | rfl
    · exact h op hmem
    · obtain ⟨name, -, rfl⟩ := Option.map_eq_some_iff.1 hop
      rfl

theorem fromBody_ofTrees (trees : List Tree) :
    Placed .operation FromBody trees (ofTrees trees).operations := by
  induction trees using List.reverseRecOn with
  | nil => exact fun i op hop => by simp [ofTrees, empty] at hop
  | append_singleton trees tree ih =>
    obtain ⟨found, hfound, heq⟩ :=
      @exists_found tree (fun model => ∀ op ∈ model.operations, FromBody tree op) fromBody_step
        fun _ h => absurd h (Array.not_mem_empty _)
    have hfile : ∀ op ∈ (ofTree tree).operations, FromBody tree op := by
      rw [heq]
      exact hfound
    rw [ofTrees_concat]
    exact ih.append_map rfl hfile rfl fun _ hop => hop

/-- The calls that an operation knows are those of the headers of the statements of its body. -/
theorem FromBody.mem_invocations (h : FromBody tree op) {call : Invocation} :
    (∃ statement ∈ op.statements, call ∈ statement.invocations) ↔
      ∃ body ∈ op.body, ∃ s, StatementIn tree body s ∧ InHeader tree s call.node ∧
        invocation? tree call.node = some call := by
  rw [h]
  cases op.body with
  | none => simp
  | some body => simpa using mem_invocations_ofBody

theorem calls_iff_exists {name : String} : op.calls name = true ↔
    ∃ call, (∃ statement ∈ op.statements, call ∈ statement.invocations) ∧ call.name = name := by
  simp only [Operation.calls, List.any_eq_true, beq_iff_eq]
  constructor
  · rintro ⟨statement, hstatement, call, hcall, hname⟩
    exact ⟨call, ⟨statement, hstatement, hcall⟩, hname⟩
  · rintro ⟨call, ⟨statement, hstatement, hcall⟩, hname⟩
    exact ⟨statement, hstatement, call, hcall, hname⟩

/-- An operation calls what the headers of the statements of its body call.  A call in its body that
nothing hides is known exactly if it belongs to the header of a statement above it. -/
theorem calls_iff_inHeader {trees : List Tree} {number : Nat} {op : Operation}
    (hop : (ofTrees trees).operations[number]? = some op) :
    ∃ tree, treeOf? .operation trees number = some tree ∧
      (∀ name, op.calls name = true ↔
        ∃ body ∈ op.body, ∃ s v, StatementIn tree body s ∧ InHeader tree s v ∧ IsCall tree v name) ∧
      ∀ body ∈ op.body, ∀ v name, Shown tree body v → IsCall tree v name →
        ((∃ statement ∈ op.statements, ∃ call ∈ statement.invocations, call.node = v) ↔
          ∃ s, tree.Inside body s ∧ (tree.category s).isStatement = true ∧ InHeader tree s v) := by
  obtain ⟨tree, htree, hbody⟩ := fromBody_ofTrees trees number op hop
  refine ⟨tree, htree, fun name => ?_, fun body hb v name hshown hcall => ?_⟩
  · rw [calls_iff_exists]
    constructor
    · rintro ⟨call, hknown, rfl⟩
      obtain ⟨body, hb, s, hs, hheader, hcall⟩ := hbody.mem_invocations.1 hknown
      exact ⟨body, hb, s, call.node, hs, hheader, isCall_iff.2 ⟨call, rfl, hcall⟩⟩
    · rintro ⟨body, hb, s, v, hs, hheader, hcall⟩
      obtain ⟨call, rfl, hfound⟩ := isCall_iff.1 hcall
      obtain rfl := node_of_invocation? hfound
      exact ⟨call, hbody.mem_invocations.2 ⟨body, hb, s, hs, hheader, hfound⟩, rfl⟩
  · constructor
    · rintro ⟨statement, hstatement, call, hmem, rfl⟩
      obtain ⟨body', hb', s, hs, hheader, -⟩ :=
        hbody.mem_invocations.1 ⟨statement, hstatement, hmem⟩
      obtain rfl : body = body' := Option.some.inj (hb.symm.trans hb')
      exact ⟨s, hs.1.1, hs.2, hheader⟩
    · rintro ⟨s, hinside, hs, hheader⟩
      obtain ⟨call, -, hfound⟩ := isCall_iff.1 hcall
      obtain rfl := node_of_invocation? hfound
      have hin : StatementIn tree body s := ⟨hshown.above hinside hheader.within, hs⟩
      obtain ⟨statement, hstatement, hmem⟩ :=
        hbody.mem_invocations.2 ⟨body, hb, s, hin, hheader, hfound⟩
      exact ⟨statement, hstatement, call, hmem, rfl⟩

/-- The condition of a loop stands before its block, so the operation knows that it calls another
one. -/
theorem calls_iff_inHeader_leading_condition :
    let tree : Tree := .ofNodes default "" #[{ kind := "program" },
      { kind := "op", category := .operation, parent := some 0 },
      { kind := "n", category := .identifier, role := some .name, label := "f", parent := some 1 },
      { kind := "blk", category := .block, role := some .body, parent := some 1 },
      { kind := "while", category := .statement, parent := some 3 },
      { kind := "call", category := .invocation, label := "more", parent := some 4 },
      { kind := "n", category := .identifier, role := some .name, label := "more",
        parent := some 5 },
      { kind := "blk", category := .block, parent := some 4 }]
    let op := (ofTrees [tree]).operationAt 0
    (ofTrees [tree]).operations[0]? = some op ∧ op.calls "more" = true := by
  intro tree op
  have hop : (ofTrees [tree]).operations[0]? = some op := getElem?_operations (by decide +kernel)
  have hfile : treeOf? .operation [tree] 0 = some tree := if_pos (by decide +kernel)
  obtain ⟨tree', htree', hcalls, -⟩ := calls_iff_inHeader hop
  obtain rfl : tree = tree' := Option.some.inj (hfile.symm.trans htree')
  refine ⟨hop, (hcalls "more").2 ⟨3, by decide +kernel, 4, 5, ⟨?_, by decide +kernel⟩, ?_, ?_⟩⟩
  · exact shown_iff.2 ⟨4, by decide +kernel, by decide +kernel, Or.inl rfl⟩
  · exact ⟨5, by decide +kernel, Leads.refl _, by decide +kernel⟩
  · exact ⟨by decide +kernel, by decide +kernel⟩

/-- The condition of a loop stands after its block.  It is a call below a statement of the body that
nothing hides, but the operation does not know of it. -/
theorem calls_misses_trailing_condition :
    let tree : Tree := .ofNodes default "" #[{ kind := "program" },
      { kind := "op", category := .operation, parent := some 0 },
      { kind := "n", category := .identifier, role := some .name, label := "f", parent := some 1 },
      { kind := "blk", category := .block, role := some .body, parent := some 1 },
      { kind := "do", category := .statement, parent := some 3 },
      { kind := "blk", category := .block, parent := some 4 },
      { kind := "call", category := .invocation, label := "more", parent := some 4 },
      { kind := "n", category := .identifier, role := some .name, label := "more",
        parent := some 6 }]
    let op := (ofTrees [tree]).operationAt 0
    (ofTrees [tree]).operations[0]? = some op ∧ op.body = some 3 ∧
      StatementIn tree 3 4 ∧ tree.Inside 4 6 ∧ Shown tree 3 6 ∧ IsCall tree 6 "more" ∧
      op.calls "more" = false := by
  intro tree op
  have hcall : 6 ∈ tree.children 4 := by decide +kernel
  have hloop : 4 ∈ tree.children 3 := by decide +kernel
  have hshown : Shown tree 4 6 := shown_iff.2 ⟨6, hcall, by decide +kernel, Or.inl rfl⟩
  refine ⟨getElem?_operations (by decide +kernel), by decide +kernel, ⟨?_, by decide +kernel⟩,
    ⟨6, hcall, Leads.refl _⟩, ?_, ⟨by decide +kernel, by decide +kernel⟩, by decide +kernel⟩
  · exact shown_iff.2 ⟨4, hloop, by decide +kernel, Or.inl rfl⟩
  · exact shown_iff.2 ⟨4, hloop, by decide +kernel, Or.inr hshown⟩

end Model

end Reshape
