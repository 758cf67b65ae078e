import Mathlib
import Reshape.Proofs.Model.Entities

/-! # How a model is built up

Visiting the nodes of a file changes its model in three ways: by a class, by an operation with its
variables, or by the attributes of one declaration.  Members come after the class that they belong
to, and its qualified name is their container.  Whatever these steps keep, the model of a file
has. -/

namespace Reshape.Model

variable {tree : Tree} {model next other : Model} {owner : Option Nat}

/-- The class around a declaration, if any, is one of the model. -/
def HasOwner (model : Model) (owner : Option Nat) : Prop :=
  ∀ id ∈ owner, id < model.classes.size

/-- What is declared in a class of the model has the class as its container. -/
def IsHome (model : Model) (container : String) (owner : Option Nat) : Prop :=
  ∀ id ∈ owner, ∃ c, model.classes[id]? = some c ∧ container = c.qualifiedName

theorem IsHome.hasOwner {container : String} (h : model.IsHome container owner) :
    model.HasOwner owner := by
  intro id hid
  obtain ⟨c, hc, -⟩ := h id hid
  exact (Array.getElem?_eq_some_iff.1 hc).1

/-- What visiting one declaration of a file does to the model. -/
inductive Step (tree : Tree) (model : Model) : Model → Prop
  | addClass {id : Nat} {container : String} {outer : Option Nat} {c : Class}
      (hhome : model.IsHome container outer)
      (hc : class? tree id container outer model.classes.size = some c) :
      Step tree model { model with classes := model.classes.push c }
  | addOperation {id : Nat} {container : String} {owner : Option Nat} {op : Operation}
      (hhome : model.IsHome container owner)
      (hop : operation? tree id container owner model.operations.size = some op) :
      Step tree model
        { model with
          operations := model.operations.push op
          locals := model.locals ++ op.statements.flatMap (variablesAt tree op.id) }
  | addAttributes {id : Nat} {container : String} {owner : Nat}
      (hhome : model.IsHome container (some owner)) :
      Step tree model (addAttributes tree model id container owner)

/-- Any number of steps. -/
def Steps (tree : Tree) : Model → Model → Prop :=
  Relation.ReflTransGen (Step tree)

/-- Classes stay where they are. -/
theorem Step.getElem?_classes (h : Step tree model next) {id : Nat} {c : Class}
    (hc : model.classes[id]? = some c) : next.classes[id]? = some c := by
  cases h with
  | addClass _ _ =>
    have hlt := (Array.getElem?_eq_some_iff.1 hc).1
    rw [Array.getElem?_push_lt hlt, ← hc, Array.getElem?_eq_getElem]
  | addOperation _ _ => exact hc
  | addAttributes _ => exact hc

theorem Step.isHome {container : String} (h : Step tree model next)
    (hhome : model.IsHome container owner) : next.IsHome container owner := by
  intro id hid
  obtain ⟨c, hc, hcontainer⟩ := hhome id hid
  exact ⟨c, h.getElem?_classes hc, hcontainer⟩

/-- Whatever each step keeps, any number of steps keep. -/
theorem Steps.keeps (holds : Model → Prop)
    (hstep : ∀ {model next}, holds model → Step tree model next → holds next)
    (h : Steps tree model next) (hmodel : holds model) : holds next := by
  induction h with
  | refl => exact hmodel
  | tail _ hlast ih => exact hstep ih hlast

theorem Steps.isHome {container : String} (h : Steps tree model next)
    (hhome : model.IsHome container owner) : next.IsHome container owner :=
  h.keeps (IsHome · container owner) (fun hmodel hstep => hstep.isHome hmodel) hhome

theorem isHome_none (model : Model) (container : String) : model.IsHome container none :=
  fun _ hid => by cases hid

/-! ### Visiting takes steps -/

theorem id_of_class? {id number : Nat} {container : String} {outer : Option Nat} {c : Class}
    (h : class? tree id container outer number = some c) : c.id = number := by
  obtain ⟨name, -, rfl⟩ := Option.map_eq_some_iff.1 h
  rfl

/-- A new class is home to what its body declares. -/
theorem isHome_class? {id : Nat} {container : String} {outer : Option Nat} {c : Class}
    (h : class? tree id container outer model.classes.size = some c) :
    { model with classes := model.classes.push c }.IsHome c.qualifiedName (some c.id) := by
  intro number hmem
  obtain rfl := Option.some.inj hmem
  exact ⟨c, by simp [id_of_class? h], rfl⟩

theorem steps_addOperation {container : String} (hhome : model.IsHome container owner) (id : Nat) :
    Steps tree model (addOperation tree model id container owner) := by
  rw [addOperation]
  split
  · exact .refl
  · rename_i op hop
    exact .single (.addOperation hhome hop)

mutual

theorem steps_addSubtree {model : Model} {container : String} {owner : Option Nat}
    (hhome : model.IsHome container owner) :
    (rose : Rose Nat) → Steps tree model (addSubtree tree model container owner rose)
  | .node id below => by
    unfold addSubtree
    split
    · split
      · exact .refl
      · rename_i c hc
        exact .head (.addClass hhome hc) (steps_addBody (isHome_class? hc) _ below)
    · exact steps_addOperation hhome id
    · split
      · exact .single (.addAttributes hhome)
      · exact .refl
    · exact steps_addSubtrees hhome below

theorem steps_addSubtrees {model : Model} {container : String} {owner : Option Nat}
    (hhome : model.IsHome container owner) :
    (roses : List (Rose Nat)) → Steps tree model (addSubtrees tree model container owner roses)
  | [] => .refl
  | rose :: roses => by
    rw [addSubtrees]
    have hfirst := steps_addSubtree hhome rose
    exact hfirst.trans (steps_addSubtrees (hfirst.isHome hhome) roses)

theorem steps_addBody {model : Model} {container : String} {owner : Option Nat}
    (hhome : model.IsHome container owner) (body : Option Nat) :
    (roses : List (Rose Nat)) → Steps tree model (addBody tree model container owner body roses)
  | [] => .refl
  | .node id below :: roses => by
    rw [addBody]
    split
    · exact steps_addSubtrees hhome below
    · exact steps_addBody hhome body roses

end

/-- The model of a file is made of the empty model by steps, with the members of its classes.  So it
comes from a model that has whatever steps keep. -/
theorem exists_found (holds : Model → Prop)
    (hstep : ∀ {model next}, holds model → Step tree model next → holds next)
    (hempty : holds empty) :
    ∃ found, holds found ∧ ofTree tree = found.withMembers :=
  ⟨_, (steps_addSubtrees (isHome_none _ _) _).keeps holds hstep hempty, rfl⟩

/-! ### Members belong to classes of the model -/

/-- The members of a model belong to classes of the model. -/
structure Owned (model : Model) : Prop where
  operations : ∀ op ∈ model.operations, model.HasOwner op.owner
  attributes : ∀ a ∈ model.attributes, a.owner < model.classes.size

theorem owned_empty : empty.Owned :=
  ⟨fun _ h => absurd h (Array.not_mem_empty _), fun _ h => absurd h (Array.not_mem_empty _)⟩

theorem mem_addAttributes {id owner : Nat} {container : String} {a : Attribute}
    (h : a ∈ (addAttributes tree model id container owner).attributes) :
    a ∈ model.attributes ∨ a ∈ attributesAt tree id container owner model.attributes.size := by
  rw [← Array.mem_toList_iff] at h
  simpa [addAttributes] using h

theorem Owned.step (h : model.Owned) (hstep : Step tree model next) : next.Owned := by
  cases hstep with
  | addClass _ _ =>
    constructor
    · intro op hop id hid
      rw [Array.size_push]
      exact Nat.lt_succ_of_lt (h.operations op hop id hid)
    · intro a ha
      rw [Array.size_push]
      exact Nat.lt_succ_of_lt (h.attributes a ha)
  | addOperation hhome hop =>
    refine ⟨fun op hmem => ?_, h.attributes⟩
    rcases Array.mem_push.1 hmem with hmem | rfl
    · exact h.operations op hmem
    · obtain ⟨name, -, rfl⟩ := Option.map_eq_some_iff.1 hop
      exact hhome.hasOwner
  | addAttributes hhome =>
    refine ⟨h.operations, fun a hmem => ?_⟩
    rcases mem_addAttributes hmem with hmem | hmem
    · exact h.attributes a hmem
    · obtain ⟨_, -, rfl⟩ := List.mem_map.1 hmem
      exact hhome.hasOwner _ rfl

theorem Owned.withMembers (h : model.Owned) : model.withMembers.Owned := by
  have hsize : model.withMembers.classes.size = model.classes.size := Array.size_map
  constructor
  · intro op hop id hid
    rw [hsize]
    exact h.operations op hop id hid
  · intro a ha
    rw [hsize]
    exact h.attributes a ha

theorem owned_ofTree (tree : Tree) : (ofTree tree).Owned := by
  obtain ⟨found, hfound, heq⟩ := @exists_found tree Owned (fun h hstep => h.step hstep) owned_empty
  rw [heq]
  exact hfound.withMembers

theorem Owned.append (h : model.Owned) (hother : other.Owned) : (model.append other).Owned := by
  have hsize : (model.append other).classes.size = model.classes.size + other.classes.size := by
    simp [Model.append, shift]
  constructor
  · intro op hop id hid
    rw [hsize]
    rcases Array.mem_append.1 hop with hop | hop
    · exact Nat.lt_add_right _ (h.operations op hop id hid)
    · obtain ⟨old, hold, rfl⟩ := Array.mem_map.1 hop
      obtain ⟨number, hnumber, rfl⟩ := Option.map_eq_some_iff.1 hid
      have hlt := hother.operations old hold number hnumber
      show number + model.classes.size < _
      omega
  · intro a ha
    rw [hsize]
    rcases Array.mem_append.1 ha with ha | ha
    · exact Nat.lt_add_right _ (h.attributes a ha)
    · obtain ⟨old, hold, rfl⟩ := Array.mem_map.1 ha
      have hlt := hother.attributes old hold
      show old.owner + model.classes.size < _
      omega

theorem ofTrees_concat (trees : List Tree) (tree : Tree) :
    ofTrees (trees ++ [tree]) = (ofTrees trees).append (ofTree tree) := by
  simp [ofTrees, List.foldl_append]

theorem owned_ofTrees (trees : List Tree) : (ofTrees trees).Owned := by
  induction trees using List.reverseRecOn with
  | nil => exact owned_empty
  | append_singleton trees tree ih =>
    rw [ofTrees_concat]
    exact ih.append (owned_ofTree tree)

end Reshape.Model
