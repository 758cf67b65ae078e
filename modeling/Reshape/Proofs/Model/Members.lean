import Mathlib
import Reshape.Proofs.Model.Construction

/-! # The members of classes

A class lists its members by number.  The lists are made from what the members say about their
owners, so they stay right as long as every change to a model is seen on both sides: a new member is
listed last in its class, and joining two models moves owners and numbers up together. -/

namespace Reshape

/-! ### Members by what they say -/

section MembersOf

variable {α : Type} {owner : α → Option Nat} {id : α → Nat} {path : α → Path} {paths : List Path}
  {entities more : Array α}

/-- The entities that name a class, by number. -/
def membersOf (owner : α → Option Nat) (id : α → Nat) (entities : Array α) (number : Nat) :
    List Nat :=
  (entities.toList.filter (owner · == some number)).map id

theorem membersOf_eq_nil {number : Nat} (h : ∀ e ∈ entities, owner e ≠ some number) :
    membersOf owner id entities number = [] := by
  rw [membersOf, List.map_eq_nil_iff, List.filter_eq_nil_iff]
  intro e he heq
  exact h e (Array.mem_toList_iff.1 he) (eq_of_beq heq)

theorem membersOf_push (e : α) (number : Nat) :
    membersOf owner id (entities.push e) number =
      membersOf owner id entities number ++ if owner e = some number then [id e] else [] := by
  by_cases h : owner e = some number <;> simp [membersOf, h]

theorem membersOf_append (number : Nat) :
    membersOf owner id (entities ++ more) number =
      membersOf owner id entities number ++ membersOf owner id more number := by
  simp [membersOf]

section Shift

variable {f : α → α} {shift number : Nat}

/-- Entities whose owners have moved up are no members of the classes that come first. -/
theorem membersOf_append_map_of_lt (hf : ∀ e, owner (f e) = (owner e).map (· + shift))
    (h : number < shift) :
    membersOf owner id (entities ++ more.map f) number = membersOf owner id entities number := by
  have hnone : membersOf owner id (more.map f) number = [] := by
    refine membersOf_eq_nil fun e he heq => ?_
    obtain ⟨old, -, rfl⟩ := Array.mem_map.1 he
    rw [hf] at heq
    obtain ⟨place, -, hplace⟩ := Option.map_eq_some_iff.1 heq
    omega
  rw [membersOf_append, hnone, List.append_nil]

/-- Where owners and numbers move up, so do the members. -/
theorem membersOf_append_map (hf : ∀ e, owner (f e) = (owner e).map (· + shift)) {up : Nat}
    (hid : ∀ e, id (f e) = id e + up) (hnone : membersOf owner id entities (number + shift) = []) :
    membersOf owner id (entities ++ more.map f) (number + shift) =
      (membersOf owner id more number).map (· + up) := by
  have hsame : ∀ e, (owner (f e) == some (number + shift)) = (owner e == some number) := by
    intro e
    rw [hf]
    cases owner e <;> simp
  rw [membersOf_append, hnone, membersOf, membersOf, Array.toList_map, List.filter_map,
    List.map_map, List.map_map]
  simp only [Function.comp_def, hsame, hid, List.nil_append]

end Shift

/-- Entities that are numbered by their places are listed in ascending order. -/
theorem Numbered.pairwise_membersOf (h : Numbered id path paths entities) (number : Nat) :
    (membersOf owner id entities number).Pairwise (· < ·) := by
  have hsublist : (membersOf owner id entities number).Sublist (List.range entities.size) := by
    rw [← h.map_id]
    exact List.filter_sublist.map id
  exact List.pairwise_lt_range.sublist hsublist

theorem Numbered.mem_membersOf (h : Numbered id path paths entities) {number i : Nat} :
    i ∈ membersOf owner id entities number ↔ ∃ e, entities[i]? = some e ∧
      owner e = some number := by
  rw [membersOf, List.mem_map]
  constructor
  · rintro ⟨e, he, rfl⟩
    obtain ⟨hmem, howner⟩ := List.mem_filter.1 he
    obtain ⟨i, hi⟩ := Array.mem_iff_getElem?.1 (Array.mem_toList_iff.1 hmem)
    obtain ⟨hid, -⟩ := h i e hi
    exact ⟨e, by rw [hid, hi], eq_of_beq howner⟩
  · rintro ⟨e, he, howner⟩
    have hmem := Array.mem_toList_iff.2 (Array.mem_of_getElem? he)
    exact ⟨e, List.mem_filter.2 ⟨hmem, beq_iff_eq.2 howner⟩, (h i e he).1⟩

end MembersOf

namespace Model

variable {model other : Model} {paths : List Path}

theorem ext_parts (hclasses : model.classes = other.classes)
    (hoperations : model.operations = other.operations)
    (hattributes : model.attributes = other.attributes) (hlocals : model.locals = other.locals) :
    model = other := by
  cases model
  cases other
  simp_all

/-- The operations that name a class, by number. -/
def operationsOf (model : Model) : Nat → List Nat :=
  membersOf Operation.owner Operation.id model.operations

/-- The attributes that name a class, by number. -/
def attributesOf (model : Model) : Nat → List Nat :=
  membersOf (fun a => some a.owner) Attribute.id model.attributes

/-- A class with the lists of its members. -/
def listed (model : Model) (c : Class) : Class :=
  { c with operations := model.operationsOf c.id, attributes := model.attributesOf c.id }

theorem classes_withMembers (model : Model) :
    model.withMembers.classes = model.classes.map model.listed := by
  simp [withMembers, listed, operationsOf, attributesOf, membersOf]

theorem counts_withMembers (model : Model) : model.withMembers.counts = model.counts := by
  simp [counts, withMembers]

theorem withMembers_withMembers (model : Model) :
    model.withMembers.withMembers = model.withMembers := by
  refine ext_parts ?_ rfl rfl rfl
  rw [classes_withMembers, classes_withMembers, Array.map_map]
  rfl

/-! ### Joining models -/

/-- Nothing names a class that the model does not have. -/
theorem Owned.operationsOf_eq_nil (h : model.Owned) {id : Nat} (hid : model.classes.size ≤ id) :
    model.operationsOf id = [] :=
  membersOf_eq_nil fun op hop heq => absurd (h.operations op hop id heq) (Nat.not_lt.2 hid)

theorem Owned.attributesOf_eq_nil (h : model.Owned) {id : Nat} (hid : model.classes.size ≤ id) :
    model.attributesOf id = [] :=
  membersOf_eq_nil fun a ha heq =>
    absurd (Option.some.inj heq ▸ h.attributes a ha) (Nat.not_lt.2 hid)

-- The classes of the second model move past those of the first one, so neither model has members in
-- the classes of the other.
theorem listed_append_left {c : Class} (h : c.id < model.classes.size) :
    (model.append other).listed c = model.listed c := by
  have hoperations : (model.append other).operationsOf c.id = model.operationsOf c.id :=
    membersOf_append_map_of_lt (fun _ => rfl) h
  have hattributes : (model.append other).attributesOf c.id = model.attributesOf c.id :=
    membersOf_append_map_of_lt (fun _ => rfl) h
  rw [listed, hoperations, hattributes, listed]

theorem listed_append_right (h : model.Owned) (c : Class) :
    (model.append other).listed (model.counts.onClass c) =
      model.counts.onClass (other.listed c) := by
  have hle : model.classes.size ≤ c.id + model.classes.size := Nat.le_add_left ..
  have hoperations : (model.append other).operationsOf (c.id + model.counts.classes) =
      (other.operationsOf c.id).map (· + model.counts.operations) := by
    refine membersOf_append_map (fun _ => ?_) (fun _ => ?_) (h.operationsOf_eq_nil hle) <;> rfl
  have hattributes : (model.append other).attributesOf (c.id + model.counts.classes) =
      (other.attributesOf c.id).map (· + model.counts.attributes) := by
    refine membersOf_append_map (fun _ => ?_) (fun _ => ?_) (h.attributesOf_eq_nil hle) <;> rfl
  rw [listed, Offset.onClass, hoperations, hattributes]
  rfl

/-- Telling the classes of two models their members and joining the models come to the same in
either order. -/
theorem withMembers_append (hgrounded : model.Grounded paths) (howned : model.Owned) :
    (model.append other).withMembers = model.withMembers.append other.withMembers := by
  have hclasses : (model.append other).withMembers.classes =
      model.withMembers.classes ++ other.withMembers.classes.map model.counts.onClass := by
    rw [classes_withMembers, classes_withMembers, classes_withMembers, Array.map_map]
    refine Array.map_append.trans ?_
    rw [shift, Array.map_map]
    congr 1
    · exact Array.map_congr_left fun c hc => listed_append_left (hgrounded.classes.lt_size hc)
    · exact Array.map_congr_left fun c _ => listed_append_right howned c
  conv_rhs => rw [Model.append, shift, counts_withMembers]
  exact ext_parts hclasses rfl rfl rfl

/-- The classes of the model of a list of files list what their members say. -/
theorem withMembers_ofTrees (trees : List Tree) : (ofTrees trees).withMembers = ofTrees trees := by
  induction trees using List.reverseRecOn with
  | nil => simp [ofTrees, withMembers, empty]
  | append_singleton trees tree ih =>
    rw [ofTrees_concat, withMembers_append (grounded_ofTrees trees) (owned_ofTrees trees),
      ih, ofTree, withMembers_withMembers]

end Model

end Reshape
