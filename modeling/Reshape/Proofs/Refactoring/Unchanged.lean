import Mathlib
import Reshape.ModelDiff
import Reshape.Proofs.Pairing.Self

/-! # An unchanged model has no refactorings

When every entity is paired with itself, there is nothing to extract, inline, merge or split, since
no operation is left over.  Renamings, moves and changes of types compare an entity with itself.
Parameters and variables are found again by their names.  Variables of one name are hidden by the
first of them, but parameters are not, so the names of the parameters of an operation have to
differ. -/

namespace Reshape

/-- Values with different keys are found by their keys. -/
theorem find?_key_eq_some {α : Type} {key : α → String} {xs : List α}
    (h : (xs.map key).Nodup) {x : α} (hx : x ∈ xs) :
    xs.find? (fun y => key y == key x) = some x := by
  obtain ⟨y, hy⟩ := Option.isSome_iff_exists.1
    (List.find?_isSome.2 ⟨x, hx, by simp⟩ : (xs.find? fun y => key y == key x).isSome)
  have hkey : key y = key x := by simpa using List.find?_some hy
  rw [hy, List.inj_on_of_nodup_map h (List.mem_of_find?_eq_some hy) hx hkey]

theorem filterMap_find?_key {α : Type} {key : α → String} {xs : List α}
    (h : (xs.map key).Nodup) :
    (xs.filterMap fun x => (xs.find? fun y => key y == key x).map (x, ·)) =
      xs.map fun x => (x, x) := by
  rw [← List.filterMap_eq_map]
  refine List.filterMap_congr fun x hx => ?_
  rw [find?_key_eq_some h hx]
  rfl

/-! ### Signatures -/

namespace ParameterChange

theorem missingFrom_self (parameters : List Parameter) :
    missingFrom parameters parameters = [] := by
  refine List.filter_eq_nil_iff.2 fun ⟨p, i⟩ hp => ?_
  have hmem : p ∈ parameters := List.fst_mem_of_mem_zipIdx hp
  simpa using ⟨p, hmem, rfl⟩

theorem ofParameters_self {parameters : List Parameter}
    (h : (parameters.map Parameter.name).Nodup) : ofParameters parameters parameters = [] := by
  have hcommon : common parameters parameters = parameters.map fun p => (p, p) :=
    filterMap_find?_key h
  have htypes : typeChanges (parameters.map fun p => (p, p)) = [] := by
    simp [typeChanges]
  have horder : reorder? (parameters.map fun p => (p, p)) parameters = none := by
    have hall : (parameters.map Parameter.name).filter (parameters.map Parameter.name).contains =
        parameters.map Parameter.name := List.filter_eq_self.2 fun name hname => by
          simpa using hname
    simp [reorder?, Function.comp_def, hall]
  simp [ofParameters, hcommon, htypes, horder, missingFrom_self, pairOff]

theorem ofOperations_self {op : Operation} (h : (op.parameters.map Parameter.name).Nodup) :
    ofOperations op op = [] := by
  simp [ofOperations, ofParameters_self h]

end ParameterChange

/-! ### Variables -/

namespace VariableChange

theorem nodup_firstDeclarations (seen : List String) (found : List Variable) :
    ((firstDeclarations seen found).map Variable.name).Nodup ∧
      ∀ v ∈ firstDeclarations seen found, v.name ∉ seen := by
  induction found generalizing seen with
  | nil => exact ⟨.nil, fun _ h => absurd h List.not_mem_nil⟩
  | cons v rest ih =>
    rw [firstDeclarations]
    split
    · exact ih seen
    · rename_i hnew
      obtain ⟨hnodup, hfresh⟩ := ih (v.name :: seen)
      grind

theorem nodup_declarations (model : Model) (op : Operation) :
    ((declarations model op).map Variable.name).Nodup :=
  ((List.mergeSort_perm _ _).map _).nodup_iff.2 (nodup_firstDeclarations [] _).1

theorem missingFrom_self (found : List Variable) : missingFrom found found = [] := by
  have hnone : (found.filter fun v => !found.any (·.name == v.name)) = [] := by
    refine List.filter_eq_nil_iff.2 fun v hv => ?_
    simpa using ⟨v, hv, rfl⟩
  rw [missingFrom, hnone, List.mergeSort_nil]

@[simp] theorem typesDiffer_self (type : Option String) : typesDiffer type type = false := by
  simp [typesDiffer]

end VariableChange

namespace Comparison

/-- A model compared with itself, entity by entity. -/
def ofSelf (model : Model) (thresholds : Thresholds) : Comparison where
  before := model
  after := model
  pairing := .identity model
  thresholds := thresholds

variable {model : Model} {thresholds : Thresholds}

/-! ### Every pair is an entity and itself -/

theorem self_of_mem_pairs {α : Type} [Inhabited α] {entities : Array α} {b a : α}
    (h : (b, a) ∈ (KindPairing.identity entities.size).pairs.map fun p =>
      (entities[p.before]?.getD default, entities[p.after]?.getD default)) :
    b ∈ entities ∧ a = b := by
  obtain ⟨p, hp, heq⟩ := List.mem_map.1 h
  obtain ⟨id, hid, rfl⟩ := List.mem_map.1 hp
  obtain ⟨rfl, rfl⟩ := Prod.mk.inj heq
  have hlt : id < entities.size := List.mem_range.1 hid
  refine ⟨?_, rfl⟩
  show entities[id]?.getD default ∈ entities
  rw [Array.getElem?_eq_getElem hlt]
  exact Array.getElem_mem hlt

theorem removedOperations_ofSelf : (ofSelf model thresholds).removedOperations = [] := rfl

theorem addedOperations_ofSelf : (ofSelf model thresholds).addedOperations = [] := rfl

theorem sameClass_ofSelf {id : Nat} (h : id < model.classes.size) :
    (ofSelf model thresholds).sameClass id id = true := by
  have hfind : (List.range model.classes.size).find? (fun i => (Pair.self i).before == id) =
      some id :=
    List.find?_range_eq_some.2 ⟨BEq.rfl, List.mem_range.2 h, fun j hj => by simp [Pair.self]; omega⟩
  have hafter : (KindPairing.identity model.classes.size).after? id = some id := by
    rw [KindPairing.after?, KindPairing.identity, List.find?_map]
    exact congrArg (Option.map Pair.after ∘ Option.map Pair.self) hfind
  exact beq_iff_eq.2 hafter

theorem sameContainer_ofSelf {op : Operation} (h : model.HasOwner op.owner) :
    (ofSelf model thresholds).sameContainer op op = true := by
  cases howner : op.owner with
  | none => simp [sameContainer, howner]
  | some id => simp [sameContainer, howner, sameClass_ofSelf (h id howner)]

/-! ### Nothing is found -/

theorem renames_ofSelf : (ofSelf model thresholds).renames = [] := by
  have hclasses : ∀ pair ∈ (ofSelf model thresholds).classPairs,
      (ofSelf model thresholds).classRename? pair.1 pair.2 = none := by
    rintro ⟨b, a⟩ h
    obtain ⟨-, rfl⟩ := self_of_mem_pairs h
    simp [classRename?]
  have hoperations : ∀ pair ∈ (ofSelf model thresholds).operationPairs,
      (ofSelf model thresholds).methodRename? pair.1 pair.2 = none := by
    rintro ⟨b, a⟩ h
    obtain ⟨-, rfl⟩ := self_of_mem_pairs h
    simp [methodRename?]
  have hattributes : ∀ pair ∈ (ofSelf model thresholds).attributePairs,
      (ofSelf model thresholds).attributeRename? pair.1 pair.2 = none := by
    rintro ⟨b, a⟩ h
    obtain ⟨-, rfl⟩ := self_of_mem_pairs h
    simp [attributeRename?]
  rw [renames, List.filterMap_eq_nil_iff.2 hclasses, List.filterMap_eq_nil_iff.2 hoperations,
    List.filterMap_eq_nil_iff.2 hattributes]
  rfl

theorem moves_ofSelf (howned : model.Owned) : (ofSelf model thresholds).moves = [] := by
  have hclasses : ∀ pair ∈ (ofSelf model thresholds).classPairs,
      (ofSelf model thresholds).classMove? pair.1 pair.2 = none := by
    rintro ⟨b, a⟩ h
    obtain ⟨-, rfl⟩ := self_of_mem_pairs h
    simp [classMove?]
  have hmethods : (ofSelf model thresholds).movedMethods = [] := by
    refine List.filter_eq_nil_iff.2 ?_
    rintro ⟨b, a⟩ h
    obtain ⟨hb, rfl⟩ := self_of_mem_pairs h
    simp [sameContainer_ofSelf (howned.operations _ hb)]
  have hpulled : (ofSelf model thresholds).pullTargets = [] := by
    simp [pullTargets, pulledUp, hmethods]
  have hattributes : ∀ pair ∈ (ofSelf model thresholds).attributePairs,
      (ofSelf model thresholds).attributeMove? pair.1 pair.2 = none := by
    rintro ⟨b, a⟩ h
    obtain ⟨hb, rfl⟩ := self_of_mem_pairs h
    simp [attributeMove?, sameClass_ofSelf (howned.attributes _ hb)]
  rw [moves, List.filterMap_eq_nil_iff.2 hclasses, hmethods, hpulled,
    List.filterMap_eq_nil_iff.2 hattributes]
  rfl

theorem parameterChanges_ofSelf
    (hparameters : ∀ op ∈ model.operations, (op.parameters.map Parameter.name).Nodup) :
    (ofSelf model thresholds).parameterChanges = [] := by
  refine List.flatMap_eq_nil_iff.2 ?_
  rintro ⟨b, a⟩ h
  obtain ⟨hb, rfl⟩ := self_of_mem_pairs h
  simp [signatureChanges, ParameterChange.ofOperations_self (hparameters _ hb)]

open VariableChange in
theorem variableChangesOf_ofSelf (op : Operation) :
    (ofSelf model thresholds).variableChangesOf op op = [] := by
  have hkept : (declarations model op).filterMap (fun v =>
      ((declarations model op).find? (·.name == v.name)).map (v, ·)) =
      (declarations model op).map fun v => (v, v) :=
        filterMap_find?_key (nodup_declarations model op)
  have hsame : (ofSelf model thresholds).before = model ∧ (ofSelf model thresholds).after = model :=
    ⟨rfl, rfl⟩
  simp [variableChangesOf, hsame, hkept, missingFrom_self, pairOff, typeChange?]

theorem variableChanges_ofSelf : (ofSelf model thresholds).variableChanges = [] := by
  have hoperations : ∀ pair ∈ (ofSelf model thresholds).operationPairs,
      (ofSelf model thresholds).variableChangesOf pair.1 pair.2 = [] := by
    rintro ⟨b, a⟩ h
    obtain ⟨-, rfl⟩ := self_of_mem_pairs h
    exact variableChangesOf_ofSelf _
  have hattributes : ∀ pair ∈ (ofSelf model thresholds).attributePairs,
      (ofSelf model thresholds).attributeTypeChange? pair.1 pair.2 = none := by
    rintro ⟨b, a⟩ h
    obtain ⟨-, rfl⟩ := self_of_mem_pairs h
    simp [attributeTypeChange?]
  rw [variableChanges, List.flatMap_eq_nil_iff.2 hoperations,
    List.filterMap_eq_nil_iff.2 hattributes]
  rfl

/-- No detector finds anything, so nothing is listed. -/
theorem refactorings_ofSelf (howned : model.Owned)
    (hparameters : ∀ op ∈ model.operations, (op.parameters.map Parameter.name).Nodup) :
    (ofSelf model thresholds).refactorings = [] := by
  have hfindings : (ofSelf model thresholds).findings = [] := by
    rw [findings, renames_ofSelf, moves_ofSelf howned, extractions, inlinings, merges, splits,
      addedOperations_ofSelf, removedOperations_ofSelf, parameterChanges_ofSelf hparameters,
      variableChanges_ofSelf]
    rfl
  rw [refactorings, hfindings]
  simp [Refactoring.resolve, Refactoring.resolveFrom, Refactoring.dropRepeats]

end Comparison

namespace ModelDiff

/-- **Comparing a model with itself finds nothing.**  Under a scoring by which entities score best
against themselves, and thresholds that are numbers, every entity is paired with itself at score
one, nothing is added or removed, and there are no refactorings.  Entities may share their qualified
names and signatures; only the parameters of one operation need different names. -/
theorem computeBy_self_finds_nothing (scoring : Scoring) (thresholds : Thresholds)
    (trees : List Tree) (hscoring : scoring.Proper (.ofTrees trees))
    (hnumbers : thresholds.AreNumbers) (hparameters : ∀ op ∈ (Model.ofTrees trees).operations,
      (op.parameters.map Parameter.name).Nodup) :
    let model := Model.ofTrees trees
    let diff := computeBy scoring thresholds model model
    (∀ kind, (diff.pairing.ofKind kind).pairs =
      (List.range (model.size kind)).map fun id => ⟨id, id, 1.0⟩) ∧
    diff.matched = (EntityKind.all.flatMap fun kind => (List.range (model.size kind)).map fun id =>
      ⟨model.entityRef ⟨kind, id⟩, model.entityRef ⟨kind, id⟩, 1.0⟩) ∧
    diff.removed = [] ∧ diff.added = [] ∧ diff.refactorings = [] ∧ diff.isEmpty = true := by
  intro model diff
  have howned : model.Owned := Model.owned_ofTrees trees
  have hpairing : Pairing.ofModels scoring thresholds.clamped model model = .identity model :=
    Pairing.ofModels_self (Model.grounded_ofTrees trees) howned hscoring hnumbers
  have hrefactorings : diff.refactorings = [] := by
    show Comparison.refactorings
      { before := model, after := model, pairing := _, thresholds := _ } = []
    rw [hpairing]
    exact Comparison.refactorings_ofSelf howned hparameters
  have hmatched : diff.matched = EntityKind.all.flatMap fun kind =>
      matchedOf model model kind ((Pairing.identity model).ofKind kind).pairs := by
    simp [diff, computeBy, hpairing, EntityKind.all, Pairing.ofKind]
  have hremoved : diff.removed = [] := by
    simp [diff, computeBy, hpairing, refsOf, Pairing.identity, KindPairing.identity]
  have hadded : diff.added = [] := by
    simp [diff, computeBy, hpairing, refsOf, Pairing.identity, KindPairing.identity]
  refine ⟨fun kind => ?_, ?_, hremoved, hadded, hrefactorings, ?_⟩
  · show ((Pairing.ofModels scoring thresholds.clamped model model).ofKind kind).pairs = _
    rw [hpairing, Pairing.ofKind_identity]
    rfl
  · rw [hmatched]
    refine congrArg EntityKind.all.flatMap (funext fun kind => ?_)
    rw [Pairing.ofKind_identity, KindPairing.identity, matchedOf, List.map_map]
    rfl
  · rw [isEmpty, hrefactorings, hadded, hremoved]
    rfl

/-- Two methods of one class have the same name and signature, and only their bodies tell them
apart.  Each is paired with itself. -/
theorem computeBy_self_finds_nothing_twins :
    let tree : Tree := .ofNodes default "" #[{ kind := "program" },
      { kind := "package_declaration", parent := some 0 },
      { kind := "identifier", category := .identifier, label := "p", parent := some 1 },
      { kind := "class_declaration", category := .typeDeclaration, parent := some 0 },
      { kind := "identifier", category := .identifier, role := some .name, label := "A",
        parent := some 3 },
      { kind := "class_body", category := .block, role := some .body, parent := some 3 },
      { kind := "field_declaration", category := .attribute, parent := some 5 },
      { kind := "identifier", category := .identifier, label := "f", parent := some 6 },
      { kind := "method_declaration", category := .operation, parent := some 5 },
      { kind := "identifier", category := .identifier, role := some .name, label := "m",
        parent := some 8 },
      { kind := "block", category := .block, role := some .body, parent := some 8 },
      { kind := "return_statement", category := .statement, label := "x", parent := some 10 },
      { kind := "method_declaration", category := .operation, parent := some 5 },
      { kind := "identifier", category := .identifier, role := some .name, label := "m",
        parent := some 12 },
      { kind := "block", category := .block, role := some .body, parent := some 12 },
      { kind := "return_statement", category := .statement, label := "y", parent := some 14 }]
    let model := Model.ofTrees [tree]
    Scoring.standard.Proper model ∧ Thresholds.AreNumbers {} ∧
      (∀ op ∈ model.operations, (op.parameters.map Parameter.name).Nodup) ∧
      (model.operationAt 0).exactKey = (model.operationAt 1).exactKey ∧
      (model.operationAt 0).statementTexts ≠ (model.operationAt 1).statementTexts ∧
      (compute {} model model).pairing.operations.pairs = [⟨0, 0, 1.0⟩, ⟨1, 1, 1.0⟩] ∧
      (compute {} model model).isEmpty = true := by
  intro tree model
  have hscoring : Scoring.standard.Proper model :=
    ⟨⟨by decide +kernel, by decide +kernel⟩, ⟨by decide +kernel, by decide +kernel⟩,
      ⟨by decide +kernel, by decide +kernel⟩⟩
  have hnumbers : Thresholds.AreNumbers {} := ⟨by decide, by decide, by decide⟩
  have hparameters : ∀ op ∈ model.operations, (op.parameters.map Parameter.name).Nodup := by
    decide +kernel
  obtain ⟨hpairs, -, -, -, -, hempty⟩ :=
    computeBy_self_finds_nothing .standard {} [tree] hscoring hnumbers hparameters
  have hcount : model.size .operation = 2 := by decide +kernel
  refine ⟨hscoring, hnumbers, hparameters, by decide +kernel, by decide +kernel, ?_, hempty⟩
  have hoperations := hpairs .operation
  rw [hcount] at hoperations
  exact hoperations

end ModelDiff

end Reshape
