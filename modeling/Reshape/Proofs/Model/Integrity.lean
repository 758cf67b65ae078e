import Mathlib
import Reshape.Proofs.Model.Location
import Reshape.Proofs.Model.Walk

/-! # References within a model

Entities refer to each other by number.  A class lists its members, a member names its class, a
nested class the one around it, and a variable its operation.  No such number points elsewhere than
it says: the lists of a class hold exactly the members that name it, in ascending order, and the
container of an entity is the qualified name of the class that it names.

The lists follow from the owners, so it is enough that joining two models keeps them in step; the
containers hold of every step of the construction, because a step adds an entity where its class is
at hand. -/

namespace Reshape

namespace Model

variable {tree : Tree} {model next other : Model} {container : String} {owner : Option Nat}
  {paths : List Path}

/-! ### The containers -/

theorem IsHome.withMembers (h : model.IsHome container owner) :
    model.withMembers.IsHome container owner := by
  intro id hid
  obtain ⟨c, hc, hcontainer⟩ := h id hid
  exact ⟨model.listed c, by rw [classes_withMembers, Array.getElem?_map, hc, Option.map_some],
    hcontainer⟩

theorem IsHome.append_left (h : model.IsHome container owner) (other : Model) :
    (model.append other).IsHome container owner := by
  intro id hid
  obtain ⟨c, hc, hcontainer⟩ := h id hid
  have hlt := (Array.getElem?_eq_some_iff.1 hc).1
  exact ⟨c, (Array.getElem?_append_left hlt).trans hc, hcontainer⟩

theorem IsHome.append_right (h : other.IsHome container owner) (model : Model) :
    (model.append other).IsHome container (owner.map (· + model.counts.classes)) := by
  intro id hid
  obtain ⟨number, hnumber, rfl⟩ := Option.map_eq_some_iff.1 hid
  obtain ⟨c, hc, hcontainer⟩ := h number hnumber
  refine ⟨model.counts.onClass c, ?_, hcontainer⟩
  show (model.classes ++ _)[number + model.classes.size]? = _
  rw [Nat.add_comm, Array.getElem?_append_right (Nat.le_add_right _ _), Nat.add_sub_cancel_left]
  simp [shift, hc]

/-- What is declared in a class has its qualified name as container.  Outer classes come first. -/
structure Contained (model : Model) : Prop where
  classes : ∀ c ∈ model.classes, model.IsHome c.container c.outer
  outer_lt : ∀ c ∈ model.classes, ∀ outer ∈ c.outer, outer < c.id
  operations : ∀ op ∈ model.operations, model.IsHome op.container op.owner
  attributes : ∀ a ∈ model.attributes, model.IsHome a.container (some a.owner)

theorem contained_empty : empty.Contained where
  classes := fun _ h => absurd h (Array.not_mem_empty _)
  outer_lt := fun _ h => absurd h (Array.not_mem_empty _)
  operations := fun _ h => absurd h (Array.not_mem_empty _)
  attributes := fun _ h => absurd h (Array.not_mem_empty _)

theorem Contained.step (h : model.Contained) (hstep : Step tree model next) : next.Contained := by
  have hkeep {container : String} {owner : Option Nat} (hhome : model.IsHome container owner) :
      next.IsHome container owner := hstep.isHome hhome
  cases hstep with
  | addClass hhome hc =>
    obtain ⟨name, -, rfl⟩ := Option.map_eq_some_iff.1 hc
    refine ⟨fun c hmem => ?_, fun c hmem => ?_, fun op hop => hkeep (h.operations op hop),
      fun a ha => hkeep (h.attributes a ha)⟩
    · rcases Array.mem_push.1 hmem with hmem | rfl
      · exact hkeep (h.classes c hmem)
      · exact hkeep hhome
    · rcases Array.mem_push.1 hmem with hmem | rfl
      · exact h.outer_lt c hmem
      · exact hhome.hasOwner
  | addOperation hhome hop =>
    refine ⟨h.classes, h.outer_lt, fun op hmem => ?_, h.attributes⟩
    rcases Array.mem_push.1 hmem with hmem | rfl
    · exact h.operations op hmem
    · obtain ⟨name, -, rfl⟩ := Option.map_eq_some_iff.1 hop
      exact hhome
  | addAttributes hhome =>
    refine ⟨h.classes, h.outer_lt, h.operations, fun a hmem => ?_⟩
    rcases mem_addAttributes hmem with hmem | hmem
    · exact h.attributes a hmem
    · obtain ⟨_, -, rfl⟩ := List.mem_map.1 hmem
      exact hhome

theorem Contained.withMembers (h : model.Contained) : model.withMembers.Contained := by
  refine ⟨fun c hc => ?_, fun c hc => ?_, fun op hop => (h.operations op hop).withMembers,
    fun a ha => (h.attributes a ha).withMembers⟩
  · obtain ⟨old, hold, rfl⟩ := Array.mem_map.1 hc
    exact (h.classes old hold).withMembers
  · obtain ⟨old, hold, rfl⟩ := Array.mem_map.1 hc
    exact h.outer_lt old hold

theorem Contained.append (h : model.Contained) (hother : other.Contained) :
    (model.append other).Contained := by
  refine ⟨fun c hc => ?_, fun c hc => ?_, fun op hop => ?_, fun a ha => ?_⟩
  · rcases Array.mem_append.1 hc with hc | hc
    · exact (h.classes c hc).append_left other
    · obtain ⟨old, hold, rfl⟩ := Array.mem_map.1 hc
      exact (hother.classes old hold).append_right model
  · rcases Array.mem_append.1 hc with hc | hc
    · exact h.outer_lt c hc
    · obtain ⟨old, hold, rfl⟩ := Array.mem_map.1 hc
      intro outer houter
      obtain ⟨number, hnumber, rfl⟩ := Option.map_eq_some_iff.1 houter
      exact Nat.add_lt_add_right (hother.outer_lt old hold number hnumber) _
  · rcases Array.mem_append.1 hop with hop | hop
    · exact (h.operations op hop).append_left other
    · obtain ⟨old, hold, rfl⟩ := Array.mem_map.1 hop
      exact (hother.operations old hold).append_right model
  · rcases Array.mem_append.1 ha with ha | ha
    · exact (h.attributes a ha).append_left other
    · obtain ⟨old, hold, rfl⟩ := Array.mem_map.1 ha
      exact (hother.attributes old hold).append_right model

theorem contained_ofTree (tree : Tree) : (ofTree tree).Contained := by
  obtain ⟨found, hfound, heq⟩ :=
    @exists_found tree Contained (fun h hstep => h.step hstep) contained_empty
  rw [heq]
  exact hfound.withMembers

theorem contained_ofTrees (trees : List Tree) : (ofTrees trees).Contained := by
  induction trees using List.reverseRecOn with
  | nil => exact contained_empty
  | append_singleton trees tree ih =>
    rw [ofTrees_concat]
    exact ih.append (contained_ofTree tree)

/-! ### Intact models -/

/-- A model of some files whose references all point where they should. -/
structure Intact (model : Model) (trees : List Tree) : Prop where
  class_id : ∀ (i : Nat) (c : Class), model.classes[i]? = some c → c.id = i
  operation_id : ∀ (i : Nat) (op : Operation), model.operations[i]? = some op → op.id = i
  attribute_id : ∀ (i : Nat) (a : Attribute), model.attributes[i]? = some a → a.id = i
  /-- A class lists exactly the operations that name it, each once, by number. -/
  operations_lt : ∀ c ∈ model.classes, c.operations.Pairwise (· < ·)
  mem_operations : ∀ c ∈ model.classes, ∀ id, id ∈ c.operations ↔
    ∃ op, model.operations[id]? = some op ∧ op.owner = some c.id
  attributes_lt : ∀ c ∈ model.classes, c.attributes.Pairwise (· < ·)
  mem_attributes : ∀ c ∈ model.classes, ∀ id, id ∈ c.attributes ↔
    ∃ a, model.attributes[id]? = some a ∧ a.owner = c.id
  /-- The class that an entity names exists, and its qualified name is the container. -/
  contained : model.Contained
  /-- The operation of a variable exists, and the variable stands inside its body. -/
  variable_inside : ∀ v ∈ model.locals, ∃ tree op body,
    treeOf? .operation trees v.operation = some tree ∧ v.path = tree.path ∧
    model.operations[v.operation]? = some op ∧ op.path = tree.path ∧
    op.body = some body ∧ tree.Inside body v.node

theorem intact_ofTrees (trees : List Tree) : (ofTrees trees).Intact trees := by
  have hgrounded := grounded_ofTrees trees
  have hlisted : ∀ c ∈ (ofTrees trees).classes, c.operations = (ofTrees trees).operationsOf c.id ∧
      c.attributes = (ofTrees trees).attributesOf c.id := by
    intro c hc
    rw [← withMembers_ofTrees, classes_withMembers] at hc
    obtain ⟨old, -, rfl⟩ := Array.mem_map.1 hc
    exact ⟨rfl, rfl⟩
  constructor
  case class_id => exact fun i c hc => (hgrounded.classes i c hc).1
  case operation_id => exact fun i op hop => (hgrounded.operations i op hop).1
  case attribute_id => exact fun i a ha => (hgrounded.attributes i a ha).1
  case operations_lt =>
    intro c hc
    rw [(hlisted c hc).1]
    exact hgrounded.operations.pairwise_membersOf _
  case mem_operations =>
    intro c hc id
    rw [(hlisted c hc).1]
    exact hgrounded.operations.mem_membersOf
  case attributes_lt =>
    intro c hc
    rw [(hlisted c hc).2]
    exact hgrounded.attributes.pairwise_membersOf _
  case mem_attributes =>
    intro c hc id
    rw [(hlisted c hc).2, attributesOf, hgrounded.attributes.mem_membersOf]
    simp only [Option.some.injEq]
  case contained => exact contained_ofTrees trees
  case variable_inside =>
    intro v hv
    have hlocated := located_ofTrees trees
    obtain ⟨tree, htree, hpath, op, hop, -, body, hbody, hinside⟩ := hlocated.locals v hv
    obtain ⟨tree', htree', hin, -⟩ := hlocated.operations v.operation op hop
    obtain rfl : tree = tree' := Option.some.inj (htree.symm.trans htree')
    exact ⟨tree, op, body, htree, hpath, hop, hin, hbody, hinside⟩

/-- The model of a list of files is intact.  The model of more files is the model of the first ones
followed by that of the others with its numbers moved up; it is also what a walk through the others
finds that goes on from the model of the first ones. -/
theorem ofTrees_intact_append (trees more : List Tree) :
    (ofTrees trees).Intact trees ∧
    ofTrees (trees ++ more) = (ofTrees trees).append (ofTrees more) ∧
    ofTrees (trees ++ more) = more.foldl visitTree (ofTrees trees) :=
  ⟨intact_ofTrees trees, ofTrees_append trees more,
    (ofTrees_append trees more).trans (foldl_visitTree _ more).symm⟩

end Model

end Reshape
