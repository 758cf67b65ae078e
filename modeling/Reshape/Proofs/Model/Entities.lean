import Mathlib
import Reshape.Model.Build

/-! # The entities of a model

Entities are numbered by their places, and each is declared in one of the files that the model was
made of.  Every step of the construction keeps this: declarations get the next free number, and the
numbers of a model that is appended move up by as much as its entities do. -/

namespace Reshape

section Numbered

variable {α : Type} {id : α → Nat} {path : α → Path} {paths : List Path} {entities more : Array α}

/-- Entities that are numbered by their places and declared in some files. -/
def Numbered (id : α → Nat) (path : α → Path) (paths : List Path) (entities : Array α) : Prop :=
  ∀ (i : Nat) (e : α), entities[i]? = some e → id e = i ∧ path e ∈ paths

theorem numbered_empty : Numbered id path paths #[] := by
  intro i e he
  simp at he

theorem Numbered.append (h : Numbered id path paths entities)
    (hmore : ∀ (i : Nat) (e : α), more[i]? = some e →
      id e = entities.size + i ∧ path e ∈ paths) :
    Numbered id path paths (entities ++ more) := by
  intro i e he
  rw [Array.getElem?_append] at he
  split at he
  · exact h i e he
  · rename_i hi
    obtain ⟨hid, hpath⟩ := hmore _ e he
    exact ⟨by omega, hpath⟩

theorem Numbered.push (h : Numbered id path paths entities) {e : α} (hid : id e = entities.size)
    (hpath : path e ∈ paths) : Numbered id path paths (entities.push e) := by
  rw [Array.push_eq_append]
  refine h.append fun i e' he' => ?_
  obtain ⟨hi, rfl⟩ := Array.getElem?_eq_some_iff.1 he'
  obtain rfl : i = 0 := by simpa using hi
  exact ⟨hid, hpath⟩

/-- Entities may be changed as long as they keep number and file. -/
theorem Numbered.map (h : Numbered id path paths entities) {f : α → α}
    (hid : ∀ e, id (f e) = id e) (hpath : ∀ e, path (f e) = path e) :
    Numbered id path paths (entities.map f) := by
  intro i e he
  rw [Array.getElem?_map, Option.map_eq_some_iff] at he
  obtain ⟨e, he, rfl⟩ := he
  rw [hid, hpath]
  exact h i e he

/-- Entities whose numbers have moved up may follow others. -/
theorem Numbered.append_map (h : Numbered id path paths entities)
    (hmore : Numbered id path paths more) {f : α → α}
    (hid : ∀ e, id (f e) = id e + entities.size) (hpath : ∀ e, path (f e) = path e) :
    Numbered id path paths (entities ++ more.map f) := by
  refine h.append fun i e he => ?_
  rw [Array.getElem?_map, Option.map_eq_some_iff] at he
  obtain ⟨e, he, rfl⟩ := he
  obtain ⟨rfl, hpath'⟩ := hmore i e he
  rw [hid, hpath]
  exact ⟨Nat.add_comm .., hpath'⟩

theorem Numbered.mono (h : Numbered id path paths entities) {other : List Path}
    (hsub : paths ⊆ other) : Numbered id path other entities :=
  fun i e he => ⟨(h i e he).1, hsub (h i e he).2⟩

theorem Numbered.lt_size (h : Numbered id path paths entities) {e : α} (he : e ∈ entities) :
    id e < entities.size := by
  obtain ⟨i, hi⟩ := Array.mem_iff_getElem?.1 he
  rw [(h i e hi).1]
  exact (Array.getElem?_eq_some_iff.1 hi).1

/-- The numbers of the entities are those below their count. -/
theorem Numbered.map_id (h : Numbered id path paths entities) :
    entities.toList.map id = List.range entities.size := by
  refine List.ext_getElem (by simp) fun i hi hi' => ?_
  have hsize : i < entities.size := by simpa using hi
  rw [List.getElem_map, Array.getElem_toList, List.getElem_range]
  exact (h i entities[i] (Array.getElem?_eq_getElem hsize)).1

theorem Numbered.getD [Inhabited α] (h : Numbered id path paths entities) {i : Nat}
    (hi : i < entities.size) :
    id (entities[i]?.getD default) = i ∧ path (entities[i]?.getD default) ∈ paths := by
  have he : entities[i]? = some entities[i] := Array.getElem?_eq_getElem hi
  rw [he]
  exact h i _ he

theorem Numbered.id_getD_lt [Inhabited α] (h : Numbered id path paths entities) {i : Nat}
    (hi : i < entities.size) : id (entities[i]?.getD default) < entities.size := by
  rw [(h.getD hi).1]
  exact hi

end Numbered

namespace Model

variable {model other : Model} {paths more : List Path}

/-- A model whose entities are numbered by their places and declared in some files.  The operations
of its classes are operations of the model. -/
structure Grounded (model : Model) (paths : List Path) : Prop where
  classes : Numbered Class.id Class.path paths model.classes
  operations : Numbered Operation.id Operation.path paths model.operations
  attributes : Numbered Attribute.id Attribute.path paths model.attributes
  members : ∀ c ∈ model.classes, ∀ id ∈ c.operations, id < model.operations.size

theorem grounded_empty : empty.Grounded paths :=
  ⟨numbered_empty, numbered_empty, numbered_empty, fun _ hc => absurd hc (Array.not_mem_empty _)⟩

theorem Grounded.mono (h : model.Grounded paths) (hsub : paths ⊆ more) : model.Grounded more :=
  ⟨h.classes.mono hsub, h.operations.mono hsub, h.attributes.mono hsub, h.members⟩

/-! ### Descriptions of entities -/

/-- The number of entities of a kind. -/
def size (model : Model) : EntityKind → Nat
  | .type => model.classes.size
  | .operation => model.operations.size
  | .attribute => model.attributes.size

/-- A description of an entity that the model holds. -/
def Holds (model : Model) (ref : EntityRef) : Prop :=
  ref.id.index < model.size ref.id.kind ∧ ref = model.entityRef ref.id

theorem holds_classRef {id : Nat} (h : id < model.classes.size) : model.Holds (model.classRef id) :=
  ⟨h, rfl⟩

theorem holds_operationRef {id : Nat} (h : id < model.operations.size) :
    model.Holds (model.operationRef id) :=
  ⟨h, rfl⟩

theorem holds_attributeRef {id : Nat} (h : id < model.attributes.size) :
    model.Holds (model.attributeRef id) :=
  ⟨h, rfl⟩

theorem Grounded.path_mem (h : model.Grounded paths) {ref : EntityRef} (href : model.Holds ref) :
    ref.path ∈ paths := by
  obtain ⟨hlt, heq⟩ := href
  rw [heq]
  generalize ref.id = id at hlt
  obtain ⟨kind, index⟩ := id
  cases kind
  · exact (h.classes.getD hlt).2
  · exact (h.operations.getD hlt).2
  · exact (h.attributes.getD hlt).2

/-! ### The model of a file -/

section File

variable {tree : Tree}

theorem Grounded.addOperation (h : model.Grounded [tree.path]) (id : Nat) (container : String)
    (owner : Option Nat) : (addOperation tree model id container owner).Grounded [tree.path] := by
  rw [Model.addOperation]
  split
  · exact h
  · rename_i op hop
    obtain ⟨name, -, rfl⟩ := Option.map_eq_some_iff.1 hop
    refine ⟨h.classes, h.operations.push rfl (List.mem_singleton_self _), h.attributes, ?_⟩
    intro c hc id hid
    rw [Array.size_push]
    exact Nat.lt_succ_of_lt (h.members c hc id hid)

theorem Grounded.addAttributes (h : model.Grounded [tree.path]) (id : Nat) (container : String)
    (owner : Nat) : (addAttributes tree model id container owner).Grounded [tree.path] := by
  refine ⟨h.classes, h.operations, ?_, h.members⟩
  have happend : (Model.addAttributes tree model id container owner).attributes =
      model.attributes ++
      (attributesAt tree id container owner model.attributes.size).toArray :=
    Array.ext' (by simp [Model.addAttributes])
  rw [happend]
  refine h.attributes.append fun i e he => ?_
  rw [List.getElem?_toArray, attributesAt, List.getElem?_map, Option.map_eq_some_iff] at he
  obtain ⟨⟨⟨name, node⟩, place⟩, hplace, rfl⟩ := he
  rw [List.getElem?_zipIdx, Option.map_eq_some_iff] at hplace
  obtain ⟨_, -, heq⟩ := hplace
  obtain ⟨-, rfl⟩ := Prod.mk.inj heq
  exact ⟨by rw [Nat.zero_add], List.mem_singleton_self _⟩

theorem Grounded.addClass (h : model.Grounded [tree.path]) {id : Nat} {container : String}
    {outer : Option Nat} {c : Class}
    (hc : class? tree id container outer model.classes.size = some c) :
    { model with classes := model.classes.push c }.Grounded [tree.path] := by
  obtain ⟨name, -, rfl⟩ := Option.map_eq_some_iff.1 hc
  refine ⟨h.classes.push rfl (List.mem_singleton_self _), h.operations, h.attributes, ?_⟩
  intro c hc
  rcases Array.mem_push.1 hc with hc | rfl
  · exact h.members c hc
  · exact fun _ hid => absurd hid List.not_mem_nil

mutual

theorem Grounded.addSubtree {model : Model} (h : model.Grounded [tree.path]) (container : String)
    (owner : Option Nat) :
    (rose : Rose Nat) → (addSubtree tree model container owner rose).Grounded [tree.path]
  | .node id below => by
    unfold Model.addSubtree
    split
    · split
      · exact h
      · rename_i c hc
        exact (h.addClass hc).addBody _ _ _ below
    · exact h.addOperation id container owner
    · split
      · exact h.addAttributes id container _
      · exact h
    · exact h.addSubtrees container owner below

theorem Grounded.addSubtrees {model : Model} (h : model.Grounded [tree.path]) (container : String)
    (owner : Option Nat) :
    (roses : List (Rose Nat)) → (addSubtrees tree model container owner roses).Grounded [tree.path]
  | [] => h
  | rose :: roses => by
    rw [Model.addSubtrees]
    exact (h.addSubtree container owner rose).addSubtrees container owner roses

theorem Grounded.addBody {model : Model} (h : model.Grounded [tree.path]) (container : String)
    (owner body : Option Nat) :
    (roses : List (Rose Nat)) → (addBody tree model container owner body roses).Grounded [tree.path]
  | [] => h
  | .node id below :: roses => by
    rw [Model.addBody]
    split
    · exact h.addSubtrees container owner below
    · exact h.addBody container owner body roses

end

theorem Grounded.withMembers (h : model.Grounded paths) : model.withMembers.Grounded paths := by
  refine ⟨h.classes.map (fun _ => rfl) (fun _ => rfl), h.operations, h.attributes, ?_⟩
  intro c hc id hid
  obtain ⟨c, -, rfl⟩ := Array.mem_map.1 hc
  obtain ⟨op, hop, rfl⟩ := List.mem_map.1 hid
  exact h.operations.lt_size (Array.mem_toList_iff.1 (List.mem_of_mem_filter hop))

theorem grounded_ofTree (tree : Tree) : (ofTree tree).Grounded [tree.path] :=
  (grounded_empty.addSubtrees _ _ _).withMembers

end File

/-! ### The model of several files -/

theorem Grounded.append (h : model.Grounded paths) (hother : other.Grounded paths) :
    (model.append other).Grounded paths := by
  refine ⟨h.classes.append_map hother.classes (fun _ => rfl) fun _ => rfl,
    h.operations.append_map hother.operations (fun _ => rfl) fun _ => rfl,
    h.attributes.append_map hother.attributes (fun _ => rfl) fun _ => rfl, ?_⟩
  intro c hc id hid
  have hsize : (model.append other).operations.size =
      model.operations.size + other.operations.size := by
    simp [Model.append, shift]
  rw [hsize]
  rcases Array.mem_append.1 hc with hc | hc
  · exact Nat.lt_add_right _ (h.members c hc id hid)
  · obtain ⟨old, hold, rfl⟩ := Array.mem_map.1 hc
    obtain ⟨number, hnumber, rfl⟩ := List.mem_map.1 hid
    have hlt := hother.members old hold number hnumber
    show number + model.operations.size < _
    omega

/-- The entities of a model of trees are declared in the files of these trees. -/
theorem grounded_ofTrees (trees : List Tree) : (ofTrees trees).Grounded (trees.map Tree.path) := by
  suffices hfold : ∀ (rest : List Tree) (model : Model), model.Grounded (trees.map Tree.path) →
      rest ⊆ trees → ((rest.map ofTree).foldl append model).Grounded (trees.map Tree.path) from
    hfold trees empty grounded_empty fun _ => id
  intro rest
  induction rest with
  | nil => exact fun model h _ => h
  | cons tree rest ih =>
    intro model h hsub
    have htree : tree ∈ trees := hsub (List.mem_cons_self ..)
    refine ih _ (h.append ((grounded_ofTree tree).mono ?_)) fun t ht =>
      hsub (List.mem_cons_of_mem _ ht)
    exact List.cons_subset.2 ⟨List.mem_map_of_mem htree, List.nil_subset _⟩

end Model

end Reshape
