import Mathlib
import Reshape.Proofs.Pairing.Range
import Reshape.Refactoring.Detect

/-! # Refactorings relate entities that exist

Detectors go through pairs, additions and removals, and describe the entities that they find there.
So each pair of entities that a refactoring relates is one of an entity of the version before and an
entity of the version after.  Resolving conflicts and dropping repetitions adds nothing. -/

namespace Reshape.Comparison

variable {c : Comparison} {paths paths' : List Path} {r : Refactoring}

/-- A comparison of two models and a pairing of their entities. -/
structure Grounded (c : Comparison) (paths paths' : List Path) : Prop where
  before : c.before.Grounded paths
  after : c.after.Grounded paths'
  pairing : c.pairing.InRange c.before c.after

/-- Two descriptions, one of an entity before and one of an entity after. -/
def Holds (c : Comparison) (refs : EntityRef × EntityRef) : Prop :=
  c.before.Holds refs.1 ∧ c.after.Holds refs.2

/-- A refactoring relates only entities of the two models. -/
def Relates (c : Comparison) (r : Refactoring) : Prop :=
  ∀ refs ∈ r.fact.entityPairs, c.Holds refs

theorem relates_of_eq {refs : EntityRef × EntityRef} (h : c.Holds refs)
    (heq : r.fact.entityPairs = [refs]) : c.Relates r := by
  rw [Relates, heq]
  exact List.forall_mem_singleton.2 h

/-- A detector finds what it makes if nothing speaks against it. -/
theorem eq_of_guarded {refused : Prop} [Decidable refused] {made : Refactoring}
    (hr : (if refused then none else some made) = some r) : r = made :=
  (Option.some.inj (Option.ite_none_left_eq_some.1 hr).2).symm

theorem holds_operationRefs {b a : Operation} (hb : b.id < c.before.operations.size)
    (ha : a.id < c.after.operations.size) : c.Holds (c.operationRefs b a) :=
  ⟨Model.holds_operationRef hb, Model.holds_operationRef ha⟩

namespace Grounded

variable (h : c.Grounded paths paths')

include h

/-! ### What detectors go through -/

theorem operation_pair {b a : Operation} (hmem : (b, a) ∈ c.operationPairs) :
    b.id < c.before.operations.size ∧ a.id < c.after.operations.size := by
  obtain ⟨p, hp, heq⟩ := List.mem_map.1 hmem
  obtain ⟨rfl, rfl⟩ := Prod.mk.inj heq
  obtain ⟨hb, ha⟩ := h.pairing.operations.pairs p hp
  exact ⟨h.before.operations.id_getD_lt hb, h.after.operations.id_getD_lt ha⟩

theorem operation_refs {b a : Operation} (hmem : (b, a) ∈ c.operationPairs) :
    c.Holds (c.operationRefs b a) :=
  holds_operationRefs (h.operation_pair hmem).1 (h.operation_pair hmem).2

theorem removed_operation {op : Operation} (hop : op ∈ c.removedOperations) :
    op.id < c.before.operations.size := by
  obtain ⟨id, hid, rfl⟩ := List.mem_map.1 hop
  exact h.before.operations.id_getD_lt (h.pairing.operations.removed id hid)

theorem added_operation {op : Operation} (hop : op ∈ c.addedOperations) :
    op.id < c.after.operations.size := by
  obtain ⟨id, hid, rfl⟩ := List.mem_map.1 hop
  exact h.after.operations.id_getD_lt (h.pairing.operations.added id hid)

theorem class_refs {b a : Class} (hmem : (b, a) ∈ c.classPairs) : c.Holds (c.classRefs b a) := by
  obtain ⟨p, hp, heq⟩ := List.mem_map.1 hmem
  obtain ⟨rfl, rfl⟩ := Prod.mk.inj heq
  obtain ⟨hb, ha⟩ := h.pairing.classes.pairs p hp
  exact ⟨Model.holds_classRef (h.before.classes.id_getD_lt hb),
    Model.holds_classRef (h.after.classes.id_getD_lt ha)⟩

theorem attribute_refs {b a : Attribute} (hmem : (b, a) ∈ c.attributePairs) :
    c.Holds (c.attributeRefs b a) := by
  obtain ⟨p, hp, heq⟩ := List.mem_map.1 hmem
  obtain ⟨rfl, rfl⟩ := Prod.mk.inj heq
  obtain ⟨hb, ha⟩ := h.pairing.attributes.pairs p hp
  exact ⟨Model.holds_attributeRef (h.before.attributes.id_getD_lt hb),
    Model.holds_attributeRef (h.after.attributes.id_getD_lt ha)⟩

/-- The operations of a class; a number out of range has a class without any. -/
theorem member_lt {target id : Nat} (hid : id ∈ (c.after.classAt target).operations) :
    id < c.after.operations.size := by
  rw [Model.classAt] at hid
  cases hclass : c.after.classes[target]? with
  | none =>
    rw [hclass] at hid
    exact absurd hid List.not_mem_nil
  | some home =>
    rw [hclass] at hid
    exact h.after.members home (Array.mem_of_getElem? hclass) id hid

theorem member_operation {target id : Nat} (hid : id ∈ (c.after.classAt target).operations) :
    (c.after.operationAt id).id < c.after.operations.size :=
  h.after.operations.id_getD_lt (h.member_lt hid)

/-! ### What detectors find -/

theorem renames (hr : r ∈ c.renames) : c.Relates r := by
  rw [Comparison.renames, List.mem_append, List.mem_append] at hr
  rcases hr with (hr | hr) | hr <;> obtain ⟨⟨b, a⟩, hp, hr⟩ := List.mem_filterMap.1 hr
  · obtain rfl := eq_of_guarded hr
    exact relates_of_eq (h.class_refs hp) rfl
  · obtain rfl := eq_of_guarded hr
    exact relates_of_eq (h.operation_refs hp) rfl
  · obtain rfl := eq_of_guarded hr
    exact relates_of_eq (h.attribute_refs hp) rfl

theorem pulledCopies {signature : String} {target : Nat}
    (hr : r ∈ c.pulledCopies signature target) : c.Relates r := by
  simp only [Comparison.pulledCopies] at hr
  split at hr
  · cases hr
  · rename_i targetOp htarget
    obtain ⟨op, hop, rfl⟩ := List.mem_map.1 hr
    obtain ⟨id, hid, rfl⟩ := List.mem_map.1 (List.mem_of_find?_eq_some htarget)
    exact relates_of_eq (holds_operationRefs (h.removed_operation (List.mem_of_mem_filter hop))
      (h.member_operation hid)) rfl

theorem moves (hr : r ∈ c.moves) : c.Relates r := by
  rw [Comparison.moves, List.mem_append, List.mem_append, List.mem_append] at hr
  rcases hr with ((hr | hr) | hr) | hr
  · obtain ⟨⟨b, a⟩, hp, hr⟩ := List.mem_filterMap.1 hr
    obtain rfl := eq_of_guarded hr
    exact relates_of_eq (h.class_refs hp) rfl
  · obtain ⟨⟨b, a⟩, hp, rfl⟩ := List.mem_map.1 hr
    exact relates_of_eq (h.operation_refs (List.mem_of_mem_filter hp)) rfl
  · obtain ⟨⟨signature, target⟩, -, hr⟩ := List.mem_flatMap.1 hr
    exact h.pulledCopies hr
  · obtain ⟨⟨b, a⟩, hp, hr⟩ := List.mem_filterMap.1 hr
    obtain rfl := eq_of_guarded hr
    exact relates_of_eq (h.attribute_refs hp) rfl

theorem extractions (hr : r ∈ c.extractions) : c.Relates r := by
  obtain ⟨op, hop, hr⟩ := List.mem_flatMap.1 hr
  obtain ⟨⟨b, a⟩, hp, hr⟩ := List.mem_filterMap.1 hr
  simp only [extraction?] at hr
  split at hr
  · cases hr
  · obtain ⟨call, -, hr⟩ := Option.bind_eq_some_iff.1 hr
    obtain ⟨found, -, hr⟩ := Option.bind_eq_some_iff.1 hr
    obtain rfl := Option.some.inj hr
    exact relates_of_eq (holds_operationRefs (h.operation_pair hp).1 (h.added_operation hop)) rfl

theorem inlinings (hr : r ∈ c.inlinings) : c.Relates r := by
  obtain ⟨op, hop, hr⟩ := List.mem_flatMap.1 hr
  obtain ⟨⟨b, a⟩, hp, hr⟩ := List.mem_filterMap.1 hr
  simp only [inlining?] at hr
  split at hr
  · cases hr
  · obtain ⟨call, -, hr⟩ := Option.bind_eq_some_iff.1 hr
    obtain ⟨found, -, hr⟩ := Option.bind_eq_some_iff.1 hr
    obtain rfl := Option.some.inj hr
    exact relates_of_eq (holds_operationRefs (h.removed_operation hop) (h.operation_pair hp).2) rfl

theorem merges (hr : r ∈ c.merges) : c.Relates r := by
  obtain ⟨target, htarget, hr⟩ := List.mem_filterMap.1 hr
  obtain rfl := eq_of_guarded hr
  intro refs hrefs
  obtain ⟨_, hmerged, rfl⟩ := List.mem_map.1 hrefs
  obtain ⟨op, hop, rfl⟩ := List.mem_map.1 hmerged
  exact holds_operationRefs (h.removed_operation (List.mem_of_mem_filter hop))
    (h.added_operation htarget)

theorem splits (hr : r ∈ c.splits) : c.Relates r := by
  obtain ⟨source, hsource, hr⟩ := List.mem_filterMap.1 hr
  obtain rfl := eq_of_guarded hr
  intro refs hrefs
  obtain ⟨_, hinto, rfl⟩ := List.mem_map.1 hrefs
  obtain ⟨op, hop, rfl⟩ := List.mem_map.1 hinto
  exact holds_operationRefs (h.removed_operation hsource)
    (h.added_operation (List.mem_of_mem_filter hop))

theorem parameterChanges (hr : r ∈ c.parameterChanges) : c.Relates r := by
  obtain ⟨⟨b, a⟩, hp, hr⟩ := List.mem_flatMap.1 hr
  obtain ⟨what, -, rfl⟩ := List.mem_map.1 hr
  exact relates_of_eq (h.operation_refs hp) rfl

omit h in
theorem typeChange_eq {before after : EntityRef} {old new : Variable}
    (hr : typeChange? before after old new = some r) : r.fact.entityPairs = [(before, after)] := by
  rw [typeChange?] at hr
  split at hr
  · obtain rfl := Option.some.inj hr
    rfl
  · cases hr

omit h in
theorem variableChangesOf_eq {b a : Operation} (hr : r ∈ c.variableChangesOf b a) :
    r.fact.entityPairs = [c.operationRefs b a] := by
  simp only [variableChangesOf, List.mem_append] at hr
  rcases hr with ((hr | hr) | hr) | hr
  · obtain ⟨p, -, hr⟩ := List.mem_filterMap.1 hr
    exact typeChange_eq hr
  · obtain ⟨p, -, hr⟩ := List.mem_flatMap.1 hr
    rcases List.mem_append.1 hr with hr | hr
    · exact typeChange_eq (Option.mem_toList.1 hr)
    · obtain rfl := List.mem_singleton.1 hr
      rfl
  · obtain ⟨v, -, hr⟩ := List.mem_filterMap.1 hr
    obtain rfl := eq_of_guarded hr
    rfl
  · obtain ⟨v, -, hr⟩ := List.mem_filterMap.1 hr
    obtain rfl := eq_of_guarded hr
    rfl

theorem variableChanges (hr : r ∈ c.variableChanges) : c.Relates r := by
  rcases List.mem_append.1 hr with hr | hr
  · obtain ⟨⟨b, a⟩, hp, hr⟩ := List.mem_flatMap.1 hr
    exact relates_of_eq (h.operation_refs hp) (variableChangesOf_eq hr)
  · obtain ⟨⟨b, a⟩, hp, hr⟩ := List.mem_filterMap.1 hr
    simp only [attributeTypeChange?] at hr
    split at hr
    · obtain rfl := Option.some.inj hr
      exact relates_of_eq (h.attribute_refs hp) rfl
    · cases hr

theorem findings (hr : r ∈ c.findings) : c.Relates r := by
  simp only [Comparison.findings, List.mem_append] at hr
  rcases hr with ((((((hr | hr) | hr) | hr) | hr) | hr) | hr) | hr
  · exact h.renames hr
  · exact h.moves hr
  · exact h.extractions hr
  · exact h.inlinings hr
  · exact h.merges hr
  · exact h.splits hr
  · exact h.parameterChanges hr
  · exact h.variableChanges hr

end Grounded

/-! ### What is left of it -/

theorem resolveFrom_sublist (reservations : Refactoring.Reservations) (found : List Refactoring) :
    (Refactoring.resolveFrom reservations found).Sublist found := by
  induction found generalizing reservations with
  | nil => exact List.Sublist.slnil
  | cons r rest ih =>
    rw [Refactoring.resolveFrom]
    split
    · exact (ih reservations).cons r
    · exact (ih _).cons_cons r

theorem dropRepeatsOf_sublist (last : Refactoring) (found : List Refactoring) :
    (Refactoring.dropRepeatsOf last found).Sublist found := by
  induction found generalizing last with
  | nil => exact List.Sublist.slnil
  | cons r rest ih =>
    rw [Refactoring.dropRepeatsOf]
    split
    · exact (ih last).cons r
    · exact (ih r).cons_cons r

theorem dropRepeats_sublist (found : List Refactoring) :
    (Refactoring.dropRepeats found).Sublist found := by
  cases found with
  | nil => exact List.Sublist.slnil
  | cons r rest => exact (dropRepeatsOf_sublist r rest).cons_cons r

theorem mem_findings_of_mem_refactorings (hr : r ∈ c.refactorings) : r ∈ c.findings := by
  have hresolved := (List.mergeSort_perm _ _).mem_iff.1 ((dropRepeats_sublist _).subset hr)
  exact (List.mergeSort_perm _ _).mem_iff.1 ((resolveFrom_sublist _ _).subset hresolved)

/-- **Refactorings relate entities that exist.** -/
theorem Grounded.refactorings (h : c.Grounded paths paths') (hr : r ∈ c.refactorings) :
    c.Relates r :=
  h.findings (mem_findings_of_mem_refactorings hr)

end Reshape.Comparison
