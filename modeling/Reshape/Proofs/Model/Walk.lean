import Mathlib
import Reshape.Proofs.Model.Members

/-! # One walk through all files

The model of a list of files joins the models of the files.  It is also what one walk through all
files finds that carries a model along: every declaration gets the next number at once, and a member
is entered in its class as soon as it is found.

Two facts make the difference disappear.  Declarations do not look at the numbers that were given
before, so a walk that starts from a model finds what it finds from the empty model, with the
numbers moved up.  And what is entered in a class one by one is what the members, once all are
found, say about their owners. -/

namespace Reshape

/-! ### Moving numbers up -/

namespace Offset

/-- Two moves, one after the other. -/
def plus (first second : Offset) : Offset where
  classes := first.classes + second.classes
  operations := first.operations + second.operations
  attributes := first.attributes + second.attributes

variable (first second : Offset)

theorem onClass_plus (c : Class) :
    (first.plus second).onClass c = first.onClass (second.onClass c) := by
  simp [onClass, plus, Function.comp_def, Nat.add_comm, Nat.add_left_comm]

theorem onOperation_plus (op : Operation) :
    (first.plus second).onOperation op = first.onOperation (second.onOperation op) := by
  simp [onOperation, plus, Function.comp_def, Nat.add_comm, Nat.add_left_comm]

theorem onAttribute_plus (a : Attribute) :
    (first.plus second).onAttribute a = first.onAttribute (second.onAttribute a) := by
  simp [onAttribute, plus, Nat.add_comm, Nat.add_left_comm]

theorem onVariable_plus (v : Variable) :
    (first.plus second).onVariable v = first.onVariable (second.onVariable v) := by
  simp [onVariable, plus, Nat.add_comm, Nat.add_left_comm]

end Offset

namespace Model

variable {tree : Tree} {model other base : Model} {owner : Option Nat} {paths : List Path}

theorem counts_append (model other : Model) :
    (model.append other).counts = model.counts.plus other.counts := by
  simp [Model.append, shift, counts, Offset.plus]

theorem append_map_append_map {α : Type} {f g h : α → α} (hh : ∀ x, h x = f (g x))
    (a b c : Array α) :
    a ++ b.map f ++ c.map h = a ++ (b ++ c.map g).map f := by
  have hcomp : h = f ∘ g := funext hh
  simp [Array.append_assoc, hcomp]

theorem append_assoc (first second third : Model) :
    (first.append second).append third = first.append (second.append third) := by
  have hcounts := counts_append first second
  apply ext_parts
  · refine append_map_append_map (fun c => ?_) ..
    rw [hcounts, Offset.onClass_plus]
  · refine append_map_append_map (fun op => ?_) ..
    rw [hcounts, Offset.onOperation_plus]
  · refine append_map_append_map (fun a => ?_) ..
    rw [hcounts, Offset.onAttribute_plus]
  · refine append_map_append_map (fun v => ?_) ..
    rw [hcounts, Offset.onVariable_plus]

theorem append_empty (model : Model) : model.append empty = model := by
  simp [Model.append, shift, empty]

/-- The model of several files is the model of the first ones, followed by that of the others with
its numbers moved up. -/
theorem ofTrees_append (trees more : List Tree) :
    ofTrees (trees ++ more) = (ofTrees trees).append (ofTrees more) := by
  induction more using List.reverseRecOn with
  | nil => rw [List.append_nil]; exact (append_empty _).symm
  | append_singleton more tree ih =>
    rw [← List.append_assoc, ofTrees_concat, ofTrees_concat, ih, append_assoc]

/-! ### A walk that carries the model along -/

section Walk

variable (tree : Tree)

/-- Change the class of a number, if there is one. -/
def enter (model : Model) (owner : Option Nat) (change : Class → Class) : Model :=
  match owner with
  | none => model
  | some id => { model with classes := model.classes.modify id change }

/-- Add an operation and its variables, and enter it in its class. -/
def enterOperation (model : Model) (op : Operation) : Model :=
  enter
    { model with
      operations := model.operations.push op
      locals := model.locals ++ op.statements.flatMap (variablesAt tree op.id) }
    op.owner fun c => { c with operations := c.operations ++ [op.id] }

/-- Add an attribute, and enter it in its class. -/
def enterAttribute (model : Model) (a : Attribute) : Model :=
  enter { model with attributes := model.attributes.push a } (some a.owner) fun c =>
    { c with attributes := c.attributes ++ [a.id] }

mutual

/-- Visit the declarations of a subtree. -/
def visitSubtree (model : Model) (container : String) (owner : Option Nat) : Rose Nat → Model
  | .node id below =>
    match tree.category id with
    | .typeDeclaration =>
      match class? tree id container owner model.classes.size with
      | none => model
      | some c =>
        visitBody { model with classes := model.classes.push c } c.qualifiedName (some c.id)
          (tree.childWithRole? id .body) below
    | .operation =>
      ((operation? tree id container owner model.operations.size).map
        (enterOperation tree model)).getD
        model
    | .attribute =>
      match owner with
      | some owner =>
        (attributesAt tree id container owner model.attributes.size).foldl enterAttribute model
      | none => model
    | _ => visitSubtrees model container owner below

/-- Visit the declarations of a list of subtrees. -/
def visitSubtrees (model : Model) (container : String) (owner : Option Nat) :
    List (Rose Nat) → Model
  | [] => model
  | subtree :: rest =>
    visitSubtrees (visitSubtree model container owner subtree) container owner rest

/-- Visit the declarations below the body among the children of a class. -/
def visitBody (model : Model) (container : String) (owner : Option Nat) (body : Option Nat) :
    List (Rose Nat) → Model
  | [] => model
  | .node id below :: rest =>
    if some id = body then visitSubtrees model container owner below
    else visitBody model container owner body rest

end

end Walk

/-- Visit one more file. -/
def visitTree (model : Model) (tree : Tree) : Model :=
  visitSubtrees tree model (moduleName tree) none (tree.subtree tree.root).children

/-! ### Declarations do not look at numbers given before -/

section Offset

variable (offset : Offset) (id number : Nat) (container : String) (owner : Option Nat)

theorem class?_offset :
    class? tree id container (owner.map (· + offset.classes)) (number + offset.classes) =
      (class? tree id container owner number).map offset.onClass := by
  simp [class?, Offset.onClass, Function.comp_def]

theorem operation?_offset :
    operation? tree id container (owner.map (· + offset.classes)) (number + offset.operations) =
      (operation? tree id container owner number).map offset.onOperation := by
  simp [operation?, Offset.onOperation, Function.comp_def, parametersOf]

theorem attributesAt_offset (owner : Nat) :
    attributesAt tree id container (owner + offset.classes) (number + offset.attributes) =
      (attributesAt tree id container owner number).map offset.onAttribute := by
  simp [attributesAt, Offset.onAttribute, Nat.add_right_comm]

theorem variablesAt_offset (statement : Statement) :
    variablesAt tree (number + offset.operations) statement =
      (variablesAt tree number statement).map offset.onVariable := by
  rw [variablesAt, variablesAt]
  split
  · simp [Offset.onVariable]
  · rfl

end Offset

/-! ### Entering members one by one -/

theorem append_map_modify {α : Type} (xs ys : Array α) {f g g' : α → α}
    (h : ∀ y, g' (f y) = f (g y)) (i : Nat) :
    (xs ++ ys.map f).modify (i + xs.size) g' = xs ++ (ys.modify i g).map f := by
  apply Array.ext_getElem?
  intro j
  rw [Array.getElem?_modify, Array.getElem?_append, Array.getElem?_append]
  by_cases hj : j < xs.size
  · have hne : ¬ i + xs.size = j := by omega
    simp [hj, hne]
  · have hiff : i + xs.size = j ↔ i = j - xs.size := by omega
    simp only [hj, if_false, hiff, Array.getElem?_map, Array.getElem?_modify]
    split <;> simp [Function.comp_def, h]

/-- Entering a member behind a model is entering it and moving the numbers up. -/
theorem enter_append (change change' : Class → Class)
    (h : ∀ c, change' (base.counts.onClass c) = base.counts.onClass (change c)) :
    enter (base.append model) (owner.map (· + base.counts.classes)) change' =
      base.append (enter model owner change) := by
  cases owner with
  | none => rfl
  | some id =>
    refine ext_parts ?_ rfl rfl rfl
    exact append_map_modify _ _ h id

/-- Where classes are numbered by their places, a class is changed by its number. -/
theorem modify_withMembers (h : Numbered Class.id Class.path paths model.classes) (number : Nat)
    (change : Class → Class) :
    model.withMembers.classes.modify number change = model.classes.map fun c =>
      if number = c.id then change (model.listed c) else model.listed c := by
  apply Array.ext_getElem?
  intro i
  rw [Array.getElem?_modify, classes_withMembers, Array.getElem?_map, Array.getElem?_map]
  cases hc : model.classes[i]? with
  | none => simp
  | some c =>
    rw [← (h i c hc).1]
    by_cases heq : number = c.id <;> simp [heq]

/-- A new operation is listed last in its class. -/
theorem withMembers_push_operation (h : Numbered Class.id Class.path paths model.classes)
    (op : Operation) (locals : Array Variable) :
    { model with operations := model.operations.push op, locals }.withMembers =
      enter { model.withMembers with operations := model.operations.push op, locals } op.owner
        fun c => { c with operations := c.operations ++ [op.id] } := by
  cases howner : op.owner with
  | none =>
    refine ext_parts ?_ rfl rfl rfl
    simp [enter, classes_withMembers, listed, operationsOf, attributesOf, membersOf_push, howner]
  | some owner =>
    refine ext_parts ?_ rfl rfl rfl
    dsimp only [enter]
    rw [modify_withMembers h, classes_withMembers]
    refine Array.map_congr_left fun c _ => ?_
    by_cases heq : owner = c.id <;>
      simp [listed, operationsOf, attributesOf, membersOf_push, howner, heq]

/-- A new attribute is listed last in its class. -/
theorem withMembers_push_attribute (h : Numbered Class.id Class.path paths model.classes)
    (a : Attribute) :
    { model with attributes := model.attributes.push a }.withMembers =
      enter { model.withMembers with attributes := model.attributes.push a } (some a.owner) fun c =>
        { c with attributes := c.attributes ++ [a.id] } := by
  refine ext_parts ?_ rfl rfl rfl
  dsimp only [enter]
  rw [modify_withMembers h, classes_withMembers]
  refine Array.map_congr_left fun c _ => ?_
  by_cases heq : a.owner = c.id <;> simp [listed, operationsOf, attributesOf, membersOf_push, heq]

/-- A new class has no members yet. -/
theorem withMembers_push_class (h : model.Owned) {id : Nat} {container : String}
    {outer : Option Nat} {c : Class}
    (hc : class? tree id container outer model.classes.size = some c) :
    { model with classes := model.classes.push c }.withMembers =
      { model.withMembers with classes := model.withMembers.classes.push c } := by
  have hle : model.classes.size ≤ c.id := Nat.le_of_eq (id_of_class? hc).symm
  have hlisted : model.listed c = c := by
    rw [listed, h.operationsOf_eq_nil hle, h.attributesOf_eq_nil hle]
    obtain ⟨name, -, rfl⟩ := Option.map_eq_some_iff.1 hc
    rfl
  refine ext_parts ?_ rfl rfl rfl
  rw [classes_withMembers, Array.map_push, classes_withMembers]
  exact congrArg _ hlisted

/-! ### The walk finds the model of the next file -/

theorem enterOperation_append (h : Numbered Class.id Class.path paths model.classes)
    (op : Operation) :
    enterOperation tree (base.append model.withMembers) (base.counts.onOperation op) =
      base.append { model with
        operations := model.operations.push op
        locals := model.locals ++ op.statements.flatMap (variablesAt tree op.id) }.withMembers := by
  have hvariables : op.statements.flatMap (variablesAt tree (op.id + base.counts.operations)) =
      (op.statements.flatMap (variablesAt tree op.id)).map base.counts.onVariable := by
    rw [List.map_flatMap]
    exact List.flatMap_congr fun statement _ => variablesAt_offset ..
  rw [withMembers_push_operation h, ← enter_append _
    (fun c => { c with operations := c.operations ++ [op.id + base.counts.operations] })
    fun c => by simp [Offset.onClass]]
  rw [enterOperation]
  congr 1
  refine ext_parts rfl ?_ rfl ?_
  · simp [Model.append, shift, withMembers]
  · apply Array.ext'
    simp [Model.append, shift, withMembers, Offset.onOperation, hvariables]

theorem enterAttribute_append (h : Numbered Class.id Class.path paths model.classes)
    (a : Attribute) :
    enterAttribute (base.append model.withMembers) (base.counts.onAttribute a) =
      base.append { model with attributes := model.attributes.push a }.withMembers := by
  rw [withMembers_push_attribute h, ← enter_append _
    (fun c => { c with attributes := c.attributes ++ [a.id + base.counts.attributes] })
    fun c => by simp [Offset.onClass]]
  rw [enterAttribute]
  congr 1
  refine ext_parts rfl rfl ?_ rfl
  simp [Model.append, shift, withMembers]

-- Only the numbers of the classes tell where a member is entered, and attributes leave them alone.
theorem foldl_enterAttribute_append (attributes : List Attribute) {model : Model}
    (h : Numbered Class.id Class.path paths model.classes) :
    (attributes.map base.counts.onAttribute).foldl enterAttribute (base.append model.withMembers) =
      base.append { model with attributes := model.attributes ++ attributes }.withMembers := by
  induction attributes generalizing model with
  | nil => simp
  | cons a attributes ih =>
    have hnext := @ih { model with attributes := model.attributes.push a } h
    rw [List.map_cons, List.foldl_cons, enterAttribute_append h, hnext]
    simp

theorem size_classes_append_withMembers :
    (base.append model.withMembers).classes.size = model.classes.size + base.counts.classes := by
  simp [Model.append, shift, withMembers, counts, Nat.add_comm]

theorem size_operations_append_withMembers :
    (base.append model.withMembers).operations.size =
      model.operations.size + base.counts.operations := by
  simp [Model.append, shift, withMembers, counts, Nat.add_comm]

theorem size_attributes_append_withMembers :
    (base.append model.withMembers).attributes.size =
      model.attributes.size + base.counts.attributes := by
  simp [Model.append, shift, withMembers, counts, Nat.add_comm]

theorem push_class_append (h : model.Owned) {id : Nat} {container : String} {outer : Option Nat}
    {c : Class} (hc : class? tree id container outer model.classes.size = some c) :
    { base.append model.withMembers with
      classes := (base.append model.withMembers).classes.push (base.counts.onClass c) } =
      base.append { model with classes := model.classes.push c }.withMembers := by
  rw [withMembers_push_class h hc]
  refine ext_parts ?_ rfl rfl rfl
  simp [Model.append, shift]

mutual

/-- A walk that starts from a model finds what a walk through the file alone finds, with the numbers
moved up and the members entered in their classes. -/
theorem visitSubtree_append {model : Model} {container : String} {owner : Option Nat}
    (hgrounded : model.Grounded [tree.path]) (howned : model.Owned)
    (hhome : model.IsHome container owner) :
    (rose : Rose Nat) →
      visitSubtree tree (base.append model.withMembers) container
        (owner.map (· + base.counts.classes))
        rose = base.append (addSubtree tree model container owner rose).withMembers
  | .node id below => by
    unfold visitSubtree addSubtree
    generalize tree.category id = category
    cases category with
    | typeDeclaration =>
      rw [size_classes_append_withMembers, class?_offset]
      cases hc : class? tree id container owner model.classes.size with
      | none => rfl
      | some c =>
        simp only [Option.map_some]
        rw [push_class_append howned hc]
        exact visitBody_append (hgrounded.addClass hc) (howned.step (.addClass hhome hc))
          (isHome_class? hc) _ below
    | operation =>
      rw [size_operations_append_withMembers, operation?_offset, addOperation]
      cases hop : operation? tree id container owner model.operations.size with
      | none => rfl
      | some op => exact enterOperation_append hgrounded.classes op
    | «attribute» =>
      cases owner with
      | none => rfl
      | some owner =>
        simp only [Option.map_some]
        rw [size_attributes_append_withMembers, attributesAt_offset]
        exact foldl_enterAttribute_append _ hgrounded.classes
    | _ => exact visitSubtrees_append hgrounded howned hhome below

theorem visitSubtrees_append {model : Model} {container : String} {owner : Option Nat}
    (hgrounded : model.Grounded [tree.path]) (howned : model.Owned)
    (hhome : model.IsHome container owner) :
    (roses : List (Rose Nat)) →
      visitSubtrees tree (base.append model.withMembers) container
        (owner.map (· + base.counts.classes))
        roses = base.append (addSubtrees tree model container owner roses).withMembers
  | [] => rfl
  | rose :: roses => by
    have hsteps : Steps tree model (addSubtree tree model container owner rose) :=
      steps_addSubtree hhome rose
    have howned' := hsteps.keeps Owned (fun h hstep => h.step hstep) howned
    rw [visitSubtrees, addSubtrees, visitSubtree_append hgrounded howned hhome rose]
    exact visitSubtrees_append (hgrounded.addSubtree container owner rose) howned'
      (hsteps.isHome hhome) roses

theorem visitBody_append {model : Model} {container : String} {owner : Option Nat}
    (hgrounded : model.Grounded [tree.path]) (howned : model.Owned)
    (hhome : model.IsHome container owner) (body : Option Nat) :
    (roses : List (Rose Nat)) →
      visitBody tree (base.append model.withMembers) container (owner.map (· + base.counts.classes))
        body roses = base.append (addBody tree model container owner body roses).withMembers
  | [] => rfl
  | .node id below :: roses => by
    rw [visitBody, addBody]
    split
    · exact visitSubtrees_append hgrounded howned hhome below
    · exact visitBody_append hgrounded howned hhome body roses

end

/-- Visiting one more file puts its model behind what was found before. -/
theorem visitTree_eq_append (base : Model) (tree : Tree) :
    visitTree base tree = base.append (ofTree tree) := by
  have hempty : base.append empty.withMembers = base := by
    simp [withMembers, empty, Model.append, shift]
  have hvisit :=
    @visitSubtrees_append tree base empty (moduleName tree) none grounded_empty owned_empty
    (isHome_none _ _) (tree.subtree tree.root).children
  rwa [hempty] at hvisit

/-- Visiting more files puts their model behind what was found before. -/
theorem foldl_visitTree (base : Model) (trees : List Tree) :
    trees.foldl visitTree base = base.append (ofTrees trees) := by
  induction trees using List.reverseRecOn with
  | nil => exact (append_empty base).symm
  | append_singleton trees tree ih =>
    rw [List.foldl_append, ih, List.foldl_cons, List.foldl_nil, visitTree_eq_append, append_assoc,
      ← ofTrees_concat]

end Model

end Reshape
