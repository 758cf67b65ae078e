import Mathlib
import Reshape.Proofs.Model.Location
import Reshape.Proofs.Refactoring.Classification
import Reshape.Proofs.Sequence.Alignment
import Reshape.Proofs.Sequence.Overlap

/-! # Facts rest on the pairing and on the code

Whatever a refactoring names is an entity of one of the two models.  A fact about one entity speaks
of a pair; one that relates several speaks of operations that were added or removed, besides a pair.
What supports a fact are fragments of the two entities that it relates: their declarations, their
variables, or statements of their bodies that detectors found by their places. -/

namespace Reshape

/-! ### Places of statements -/

namespace Operation

variable {b a : Operation} {places : Nat × Nat}

/-- Places of statements of two operations. -/
def HasPlaces (b a : Operation) (places : Nat × Nat) : Prop :=
  places.1 < b.statements.length ∧ places.2 < a.statements.length

theorem hasPlaces_alignment (h : places ∈ b.alignment a) : b.HasPlaces a places := by
  obtain ⟨x, y, hx, hy, -⟩ := (Sequence.isAlignment_align _ _ _).related_of_mem places h
  have hb := (List.getElem?_eq_some_iff.1 hx).1
  have ha := (List.getElem?_eq_some_iff.1 hy).1
  exact ⟨by simpa [statementTexts] using hb, by simpa [statementTexts] using ha⟩

theorem hasPlaces_firstCome
    (h : places ∈ Sequence.firstCome b.statementTexts a.statementTexts.zipIdx) :
    b.HasPlaces a places := by
  obtain ⟨hb, ha⟩ := Sequence.mem_firstCome h
  exact ⟨by simpa [statementTexts] using hb, by simpa [statementTexts] using ha⟩

theorem hasPlaces_foundPlaces {call : Invocation} {other : Operation}
    (h : places ∈ b.foundPlaces call a other) : b.HasPlaces a places := by
  obtain ⟨hb, ha⟩ := Sequence.mem_firstCome h
  have hlost : places.2 ∈ a.statementTexts.zipIdx.map Prod.snd :=
    (List.filter_sublist.map _).subset ha
  exact ⟨by simpa [boundTexts, statementTexts] using hb, by simpa [statementTexts] using hlost⟩

theorem hasPlaces_of_relocated {call : Invocation} {other : Operation} {threshold : Float}
    {found : List (Nat × Nat)} (h : b.relocated? call a other threshold = some found)
    (hplaces : places ∈ found) : b.HasPlaces a places := by
  rw [relocated?] at h
  split at h
  · cases h
  · obtain rfl := Option.some.inj h
    exact hasPlaces_foundPlaces hplaces

end Operation

namespace VariableChange

variable {b a : Operation}

theorem lt_of_counterpart {v : Variable} {initial text : String} {place : Nat}
    (h : counterpart? b a v initial text = some place) : place < a.statements.length := by
  obtain ⟨value, -, h⟩ := List.exists_of_findSome?_eq_some h
  dsimp only at h
  split at h
  · cases h
  · have hlt := (List.findIdx?_eq_some_iff_findIdx_eq.1 h).1
    simpa [Operation.statementTexts] using hlt

theorem hasPlaces_replacedUses {v : Variable} {places : Nat × Nat}
    (h : places ∈ replacedUses b v a) : b.HasPlaces a places := by
  rw [replacedUses] at h
  split at h
  · cases h
  · obtain ⟨⟨statement, i⟩, hmem, h⟩ := List.mem_filterMap.1 h
    dsimp only at h
    split at h
    · cases h
    · obtain ⟨place, hplace, rfl⟩ := Option.map_eq_some_iff.1 h
      exact ⟨by simpa using (List.mem_zipIdx hmem).2.1, lt_of_counterpart hplace⟩

/-! ### Variables of operations -/

theorem firstDeclarations_sublist (seen : List String) (found : List Variable) :
    (firstDeclarations seen found).Sublist found := by
  induction found generalizing seen with
  | nil => exact .slnil
  | cons v rest ih =>
    rw [firstDeclarations]
    split
    · exact (ih seen).cons v
    · exact (ih _).cons_cons v

theorem mem_of_mem_declarations {model : Model} {op : Operation} {v : Variable}
    (h : v ∈ declarations model op) : v ∈ model.variablesOf op.id :=
  (firstDeclarations_sublist _ _).subset ((List.mergeSort_perm _ _).mem_iff.1 h)

theorem mem_of_mem_missingFrom {others found : List Variable} {v : Variable}
    (h : v ∈ missingFrom others found) : v ∈ found :=
  List.mem_of_mem_filter ((List.mergeSort_perm _ _).mem_iff.1 h)

theorem better_eq_or (best : Option (Nat × Variable)) (next : Nat × Variable) :
    better best next = best ∨ better best next = some next := by
  cases best with
  | none => exact .inr rfl
  | some best =>
    simp only [better]
    split
    · exact .inl rfl
    · exact .inr rfl

theorem foldl_better_mem {found : List (Nat × Variable)} {best : Option (Nat × Variable)}
    {result : Nat × Variable} (h : found.foldl better best = some result) :
    best = some result ∨ result ∈ found := by
  induction found generalizing best with
  | nil => exact .inl h
  | cons next rest ih =>
    rcases ih h with hbest | hmem
    · rcases better_eq_or best next with heq | heq
      · exact .inl (heq.symm.trans hbest)
      · obtain rfl := Option.some.inj (heq.symm.trans hbest)
        exact .inr (List.mem_cons_self ..)
    · exact .inr (List.mem_cons_of_mem _ hmem)

theorem mem_of_successor {added : List Variable} {old new : Variable}
    (h : successor? b a added old = some new) : new ∈ added := by
  obtain ⟨⟨support, found⟩, hfound, rfl⟩ := Option.map_eq_some_iff.1 h
  rcases foldl_better_mem hfound with hnone | hmem
  · cases hnone
  · obtain ⟨v, hv, heq⟩ := List.mem_map.1 (List.mem_of_mem_filter hmem)
    obtain ⟨-, rfl⟩ := Prod.mk.inj heq
    exact hv

theorem mem_of_mem_renamed {removed added : List Variable} {old new : Variable}
    (h : (old, new) ∈ (pairOff b a removed added).renamed) : old ∈ removed ∧ new ∈ added := by
  induction removed generalizing added with
  | nil => cases h
  | cons v rest ih =>
    rw [pairOff] at h
    split at h
    · rename_i w hw
      rcases List.mem_cons.1 h with heq | h
      · obtain ⟨rfl, rfl⟩ := Prod.mk.inj heq
        exact ⟨List.mem_cons_self .., mem_of_successor hw⟩
      · obtain ⟨hold, hnew⟩ := ih h
        exact ⟨List.mem_cons_of_mem _ hold, List.mem_of_mem_filter hnew⟩
    · obtain ⟨hold, hnew⟩ := ih h
      exact ⟨List.mem_cons_of_mem _ hold, hnew⟩

end VariableChange

/-! ### Fragments of an entity -/

/-- A fragment of the subtree that declares an entity, in the file that declares it. -/
def EntityRef.Covers (ref : EntityRef) (trees : List Tree) (fragment : Fragment) : Prop :=
  ∃ tree, Model.treeOf? ref.id.kind trees ref.id.index = some tree ∧ ref.path = tree.path ∧
    fragment.path = tree.path ∧ tree.Within ref.node fragment.node

namespace Model

variable {model : Model} {trees : List Tree} {paths : List Path} {op : Operation}

/-- An operation of a model, at the place of its number. -/
def Declares (model : Model) (op : Operation) : Prop :=
  model.operations[op.id]? = some op

theorem Grounded.declares (h : model.Grounded paths) {i : Nat} (hi : i < model.operations.size) :
    model.Declares (model.operationAt i) := by
  have hid : (model.operationAt i).id = i := (h.operations.getD hi).1
  rw [Declares, hid, operationAt, Array.getElem?_eq_getElem hi]
  rfl

theorem Grounded.ids_operationAt (h : model.Grounded paths) {ids : List Nat}
    (hids : ∀ id ∈ ids, id < model.operations.size) :
    (ids.map model.operationAt).map Operation.id = ids := by
  rw [List.map_map]
  refine (List.map_congr_left fun id hid => ?_).trans (List.map_id ids)
  exact (h.operations.getD (hids id hid)).1

theorem Declares.holds (h : model.Declares op) : model.Holds (model.operationRef op.id) :=
  holds_operationRef (Array.getElem?_eq_some_iff.1 h).1

theorem Declares.operationAt_eq (h : model.Declares op) : model.operationAt op.id = op := by
  rw [operationAt, h]
  rfl

theorem Declares.path_eq (h : model.Declares op) : (model.operationRef op.id).path = op.path :=
  congrArg Operation.path h.operationAt_eq

theorem Declares.node_eq (h : model.Declares op) : (model.operationRef op.id).node = op.node :=
  congrArg Operation.node h.operationAt_eq

namespace Located

variable (h : model.Located trees)

include h

theorem covers_entity {ref : EntityRef} (href : model.Holds ref) :
    ref.Covers trees (.ofEntity ref) := by
  obtain ⟨tree, htree, hpath⟩ : ∃ tree, treeOf? ref.id.kind trees ref.id.index = some tree ∧
      ref.path = tree.path := by
    obtain ⟨hlt, heq⟩ := href
    rw [heq, id_entityRef]
    generalize ref.id = id at hlt
    obtain ⟨kind, index⟩ := id
    cases kind with
    | type =>
      have he : model.classes[index]? = some _ := Array.getElem?_eq_getElem hlt
      obtain ⟨tree, htree, hpath⟩ := h.classes index _ he
      exact ⟨tree, htree, by simpa [entityRef, classRef, classAt, he] using hpath⟩
    | operation =>
      have he : model.operations[index]? = some _ := Array.getElem?_eq_getElem hlt
      obtain ⟨tree, htree, hpath, -⟩ := h.operations index _ he
      exact ⟨tree, htree, by simpa [entityRef, operationRef, operationAt, he] using hpath⟩
    | «attribute» =>
      have he : model.attributes[index]? = some _ := Array.getElem?_eq_getElem hlt
      obtain ⟨tree, htree, hpath⟩ := h.attributes index _ he
      exact ⟨tree, htree, by simpa [entityRef, attributeRef, attributeAt, he] using hpath⟩
  exact ⟨tree, htree, hpath, hpath, Leads.refl _⟩

theorem covers_statement (hop : model.Declares op) {place : Nat}
    (hplace : place < op.statements.length) :
    (model.operationRef op.id).Covers trees
      (.ofStatement op.path (op.statements.getD place default)) := by
  obtain ⟨tree, htree, hpath, hwithin⟩ := h.operations op.id op hop
  have hmem : op.statements.getD place default ∈ op.statements := by
    rw [List.getD_eq_getElem _ _ hplace]
    exact List.getElem_mem hplace
  refine ⟨tree, htree, hop.path_eq.trans hpath, hpath, ?_⟩
  rw [hop.node_eq]
  exact hwithin _ hmem

theorem covers_variable (hop : model.Declares op) {v : Variable}
    (hv : v ∈ model.variablesOf op.id) :
    (model.operationRef op.id).Covers trees (.ofVariable v) := by
  obtain ⟨hmem, hoperation⟩ := List.mem_filter.1 hv
  have hid : v.operation = op.id := by simpa using hoperation
  obtain ⟨tree, htree, hpath, op', hop', hwithin, -⟩ := h.locals v (Array.mem_toList_iff.1 hmem)
  rw [hid] at htree hop'
  obtain rfl := Option.some.inj (hop'.symm.trans hop)
  obtain ⟨tree', htree', hpath', -⟩ := h.operations _ _ hop
  obtain rfl := Option.some.inj (htree'.symm.trans htree)
  refine ⟨tree', htree, hop.path_eq.trans hpath', hpath, ?_⟩
  rw [hop.node_eq]
  exact hwithin

end Located

end Model

/-! ### What a fact names -/

namespace Fact

/-- The entities before that a fact names. -/
def beforeRefs : Fact → List EntityRef
  | change _ before _ | renameMethod before _ _ _ | parameterChange before _ _
  | variableChange before _ _ => [before]
  | extractMethod _ _ sourceBefore _ => [sourceBefore]
  | inlineMethod _ inlined targetBefore _ => [inlined, targetBefore]
  | mergeMethod merged _ => merged
  | splitMethod split _ => [split]

/-- The entities after that a fact names. -/
def afterRefs : Fact → List EntityRef
  | change _ _ after | renameMethod _ after _ _ | parameterChange _ after _
  | variableChange _ after _ => [after]
  | extractMethod _ extracted _ sourceAfter => [extracted, sourceAfter]
  | inlineMethod _ _ _ targetAfter => [targetAfter]
  | mergeMethod _ into => [into]
  | splitMethod _ into => into

/-- The two entities of a fact that says what became of one entity. -/
def single? : Fact → Option (EntityRef × EntityRef)
  | change _ before after | renameMethod before after _ _ | parameterChange before after _
  | variableChange before after _ => some (before, after)
  | _ => none

theorem refs_of_single {fact : Fact} {refs : EntityRef × EntityRef} (h : fact.single? = some refs) :
    fact.beforeRefs = [refs.1] ∧ fact.afterRefs = [refs.2] ∧ fact.entityPairs = [refs] := by
  cases fact with
  | change _ _ _ | renameMethod _ _ _ _ | parameterChange _ _ _ | variableChange _ _ _ =>
    obtain rfl := Option.some.inj h
    exact ⟨rfl, rfl, rfl⟩
  | extractMethod _ _ _ _ | inlineMethod _ _ _ _ | mergeMethod _ _ | splitMethod _ _ => cases h

end Fact

namespace Comparison

variable {c : Comparison} {trees trees' : List Tree} {kind : EntityKind} {p : Pair}
  {r : Refactoring}

/-- Two entities that are a pair. -/
def IsMatched (c : Comparison) (before after : EntityRef) : Prop :=
  ∃ kind, ∃ p ∈ (c.pairing.ofKind kind).pairs,
    before.id = ⟨kind, p.before⟩ ∧ after.id = ⟨kind, p.after⟩

/-- An operation that is only in the version before. -/
def IsRemoved (c : Comparison) (before : EntityRef) : Prop :=
  ∃ id ∈ c.pairing.operations.removed, before.id = ⟨.operation, id⟩

/-- An operation that is only in the version after. -/
def IsAdded (c : Comparison) (after : EntityRef) : Prop :=
  ∃ id ∈ c.pairing.operations.added, after.id = ⟨.operation, id⟩

/-- Several different entities. -/
def Several (refs : List EntityRef) : Prop :=
  2 ≤ refs.length ∧ (refs.map EntityRef.id).Nodup

/-- What the pairing has to say for a fact. -/
def Backs (c : Comparison) : Fact → Prop
  | .extractMethod _ extracted sourceBefore sourceAfter =>
    c.IsAdded extracted ∧ c.IsMatched sourceBefore sourceAfter
  | .inlineMethod _ inlined targetBefore targetAfter =>
    c.IsRemoved inlined ∧ c.IsMatched targetBefore targetAfter
  | .mergeMethod merged into => Several merged ∧ (∀ ref ∈ merged, c.IsRemoved ref) ∧ c.IsAdded into
  | .splitMethod split into => c.IsRemoved split ∧ Several into ∧ ∀ ref ∈ into, c.IsAdded ref
  | .change .pullUpMethod before after => c.IsMatched before after ∨ c.IsRemoved before
  | .change _ before after | .renameMethod before after _ _ | .parameterChange before after _
  | .variableChange before after _ => c.IsMatched before after

/-- Two fragments, one of an entity before and one of an entity after. -/
def CoversPair (trees trees' : List Tree) (refs : EntityRef × EntityRef)
    (pair : FragmentPair) : Prop :=
  refs.1.Covers trees pair.before ∧ refs.2.Covers trees' pair.after

/-- A refactoring that names entities of the two models, is backed by their pairing and is supported
by fragments of the entities that it relates. -/
structure RestsOn (c : Comparison) (trees trees' : List Tree) (r : Refactoring) : Prop where
  before : ∀ ref ∈ r.fact.beforeRefs, c.before.Holds ref
  after : ∀ ref ∈ r.fact.afterRefs, c.after.Holds ref
  backed : c.Backs r.fact
  supported : ∀ pair ∈ r.justification, ∃ refs ∈ r.fact.entityPairs,
    CoversPair trees trees' refs pair

/-- A merge or a split is found only if it relates several operations. -/
theorem two_le_of_guarded {count : Nat} {refused : Bool} {made : Refactoring}
    (hr : (if (decide (count < 2) || refused) = true then none else some made) = some r) :
    2 ≤ count := by
  have hguard := (Option.ite_none_left_eq_some.1 hr).1
  simp only [Bool.or_eq_true, decide_eq_true_eq, not_or, Nat.not_lt] at hguard
  exact hguard.1

theorem several_operationRefs {model : Model} {operations found : List Operation}
    (hnodup : (operations.map Operation.id).Nodup) (hfound : found.Sublist operations)
    (hcount : 2 ≤ found.length) : Several (found.map fun op => model.operationRef op.id) := by
  refine ⟨by simpa using hcount, ?_⟩
  have hids : (found.map fun op => model.operationRef op.id).map EntityRef.id =
      (found.map Operation.id).map (EntityId.mk .operation) := by
    rw [List.map_map, List.map_map]
    rfl
  rw [hids]
  exact ((hfound.map _).nodup hnodup).map fun _ _ heq => (EntityId.mk.inj heq).2

theorem backs_of_single {fact : Fact} {refs : EntityRef × EntityRef} (h : fact.single? = some refs)
    (hmatched : c.IsMatched refs.1 refs.2) : c.Backs fact := by
  cases fact with
  | change what before after =>
    obtain rfl := Option.some.inj h
    cases what with
    | pullUpMethod => exact .inl hmatched
    | _ => exact hmatched
  | renameMethod _ _ _ _ | parameterChange _ _ _ | variableChange _ _ _ =>
    obtain rfl := Option.some.inj h
    exact hmatched
  | extractMethod _ _ _ _ | inlineMethod _ _ _ _ | mergeMethod _ _ | splitMethod _ _ => cases h

/-- A comparison of two models whose parts stand where their files declare them. -/
structure Located (c : Comparison) (trees trees' : List Tree) : Prop
    extends c.Partitioned (trees.map Tree.path) (trees'.map Tree.path) where
  locatedBefore : c.before.Located trees
  locatedAfter : c.after.Located trees'

namespace Located

variable (h : c.Located trees trees')

include h

/-! ### What detectors go through -/

theorem holds_refs (hp : p ∈ (c.pairing.ofKind kind).pairs) :
    c.before.Holds (c.refs kind p).1 ∧ c.after.Holds (c.refs kind p).2 := by
  obtain ⟨hb, ha⟩ := (h.partitions kind).inRange.pairs p hp
  exact ⟨⟨by simpa [refs] using hb, by simp [refs]⟩, ⟨by simpa [refs] using ha, by simp [refs]⟩⟩

omit h in
theorem isMatched_refs (hp : p ∈ (c.pairing.ofKind kind).pairs) :
    c.IsMatched (c.refs kind p).1 (c.refs kind p).2 :=
  ⟨kind, p, hp, by simp [refs], by simp [refs]⟩

theorem declares_pair (hp : p ∈ c.pairing.operations.pairs) :
    c.before.Declares (c.before.operationAt p.before) ∧
      c.after.Declares (c.after.operationAt p.after) := by
  obtain ⟨hb, ha⟩ := h.pairing.operations.pairs p hp
  exact ⟨h.before.declares hb, h.after.declares ha⟩

theorem removed_operation {op : Operation} (hop : op ∈ c.removedOperations) :
    c.before.Declares op ∧ c.IsRemoved (c.before.operationRef op.id) := by
  obtain ⟨id, hid, rfl⟩ := List.mem_map.1 hop
  have hlt := h.pairing.operations.removed id hid
  have heq : (c.before.operationAt id).id = id := (h.before.operations.getD hlt).1
  exact ⟨h.before.declares hlt, id, hid, congrArg _ heq⟩

theorem added_operation {op : Operation} (hop : op ∈ c.addedOperations) :
    c.after.Declares op ∧ c.IsAdded (c.after.operationRef op.id) := by
  obtain ⟨id, hid, rfl⟩ := List.mem_map.1 hop
  have hlt := h.pairing.operations.added id hid
  have heq : (c.after.operationAt id).id = id := (h.after.operations.getD hlt).1
  exact ⟨h.after.declares hlt, id, hid, congrArg _ heq⟩

theorem isMatched_operations (hp : p ∈ c.pairing.operations.pairs) :
    c.IsMatched (c.before.operationRef (c.before.operationAt p.before).id)
      (c.after.operationRef (c.after.operationAt p.after).id) := by
  have hpair : p ∈ (c.pairing.ofKind .operation).pairs := hp
  have hmatched := isMatched_refs hpair
  rwa [← h.operationRefs_eq hp] at hmatched

theorem nodup_removed : (c.removedOperations.map Operation.id).Nodup := by
  rw [removedOperations, h.before.ids_operationAt h.pairing.operations.removed]
  exact (h.partitions .operation).removed_ascending.imp Nat.ne_of_lt

theorem nodup_added : (c.addedOperations.map Operation.id).Nodup := by
  rw [addedOperations, h.after.ids_operationAt h.pairing.operations.added]
  exact (h.partitions .operation).added_ascending.imp Nat.ne_of_lt

/-! ### What supports a fact -/

theorem covers_fragmentPair {b a : Operation} {places : Nat × Nat} (hb : c.before.Declares b)
    (ha : c.after.Declares a) (hplaces : b.HasPlaces a places) :
    CoversPair trees trees' (c.operationRefs b a) (b.fragmentPair a places) :=
  ⟨h.locatedBefore.covers_statement hb hplaces.1, h.locatedAfter.covers_statement ha hplaces.2⟩

theorem covers_sharedInOrder {b a : Operation} (hb : c.before.Declares b) (ha : c.after.Declares a)
    {pair : FragmentPair} (hpair : pair ∈ b.sharedInOrder a) :
    CoversPair trees trees' (c.operationRefs b a) pair := by
  obtain ⟨places, hplaces, rfl⟩ := List.mem_map.1 hpair
  exact h.covers_fragmentPair hb ha (Operation.hasPlaces_alignment hplaces)

theorem covers_sharedStatements {b a : Operation} (hb : c.before.Declares b)
    (ha : c.after.Declares a) {pair : FragmentPair} (hpair : pair ∈ b.sharedStatements a) :
    CoversPair trees trees' (c.operationRefs b a) pair := by
  obtain ⟨places, hplaces, rfl⟩ := List.mem_map.1 hpair
  exact h.covers_fragmentPair hb ha (Operation.hasPlaces_firstCome hplaces)

/-! ### Facts about a pair -/

theorem restsOn_pair (hp : p ∈ (c.pairing.ofKind kind).pairs)
    (hfact : r.fact.single? = some (c.refs kind p))
    (hsupport : ∀ pair ∈ r.justification, CoversPair trees trees' (c.refs kind p) pair) :
    c.RestsOn trees trees' r := by
  obtain ⟨hb, ha⟩ := h.holds_refs hp
  obtain ⟨hbefore, hafter, hpairs⟩ := Fact.refs_of_single hfact
  constructor
  · rw [hbefore]
    exact List.forall_mem_singleton.2 hb
  · rw [hafter]
    exact List.forall_mem_singleton.2 ha
  · exact backs_of_single hfact (isMatched_refs hp)
  · intro pair hpair
    exact ⟨_, hpairs ▸ List.mem_singleton_self _, hsupport pair hpair⟩

theorem restsOn_declarations (hp : p ∈ (c.pairing.ofKind kind).pairs)
    {refs : EntityRef × EntityRef} (hrefs : refs = c.refs kind p) (what : EntityChange) :
    c.RestsOn trees trees' (.ofDeclarations what refs.1 refs.2) := by
  subst hrefs
  obtain ⟨hb, ha⟩ := h.holds_refs hp
  refine h.restsOn_pair hp rfl fun pair hpair => ?_
  obtain rfl := List.mem_singleton.1 hpair
  exact ⟨h.locatedBefore.covers_entity hb, h.locatedAfter.covers_entity ha⟩

theorem restsOn_operations (hp : p ∈ c.pairing.operations.pairs)
    (hfact : r.fact.single? =
      some (c.operationRefs (c.before.operationAt p.before) (c.after.operationAt p.after)))
    (hsupport : ∀ pair ∈ r.justification, CoversPair trees trees'
      (c.operationRefs (c.before.operationAt p.before) (c.after.operationAt p.after)) pair) :
    c.RestsOn trees trees' r := by
  have hpair : p ∈ (c.pairing.ofKind .operation).pairs := hp
  rw [h.operationRefs_eq hp] at hfact hsupport
  exact h.restsOn_pair hpair hfact hsupport

/-- The renaming and the move of a pair are both supported by its declarations, or by the statements
that an operation kept. -/
theorem restsOn_classification (hp : p ∈ (c.pairing.ofKind kind).pairs)
    (hr : c.rename? kind p = some r ∨ c.move? kind p = some r) : c.RestsOn trees trees' r := by
  cases kind with
  | type =>
    rcases hr with hr | hr <;> obtain rfl := eq_of_guarded hr <;>
      exact h.restsOn_declarations hp (h.classRefs_eq hp) _
  | operation =>
    obtain ⟨hb, ha⟩ := h.declares_pair hp
    rcases hr with hr | hr <;> obtain rfl := eq_of_guarded hr <;>
      exact h.restsOn_operations hp rfl fun pair hpair => h.covers_sharedInOrder hb ha hpair
  | «attribute» =>
    rcases hr with hr | hr <;> obtain rfl := eq_of_guarded hr <;>
      exact h.restsOn_declarations hp (h.attributeRefs_eq hp) _

theorem restsOn_parameterChanges (hr : r ∈ c.parameterChanges) : c.RestsOn trees trees' r := by
  obtain ⟨_, hmem, hr⟩ := List.mem_flatMap.1 hr
  obtain ⟨p, hp, rfl⟩ := List.mem_map.1 hmem
  obtain ⟨what, -, rfl⟩ := List.mem_map.1 hr
  obtain ⟨hb, ha⟩ := h.declares_pair hp
  exact h.restsOn_operations hp rfl fun pair hpair => h.covers_sharedInOrder hb ha hpair

theorem restsOn_typeChange (hp : p ∈ c.pairing.operations.pairs) {old new : Variable}
    (hold : old ∈ c.before.variablesOf (c.before.operationAt p.before).id)
    (hnew : new ∈ c.after.variablesOf (c.after.operationAt p.after).id)
    (hr : typeChange? (c.before.operationRef (c.before.operationAt p.before).id)
      (c.after.operationRef (c.after.operationAt p.after).id) old new = some r) :
    c.RestsOn trees trees' r := by
  obtain ⟨hb, ha⟩ := h.declares_pair hp
  rw [typeChange?] at hr
  split at hr
  · obtain rfl := Option.some.inj hr
    refine h.restsOn_operations hp rfl fun pair hpair => ?_
    obtain rfl := List.mem_singleton.1 hpair
    exact ⟨h.locatedBefore.covers_variable hb hold, h.locatedAfter.covers_variable ha hnew⟩
  · cases hr

open VariableChange in
theorem restsOn_variableChangesOf (hp : p ∈ c.pairing.operations.pairs)
    (hr : r ∈ c.variableChangesOf (c.before.operationAt p.before) (c.after.operationAt p.after)) :
    c.RestsOn trees trees' r := by
  obtain ⟨hb, ha⟩ := h.declares_pair hp
  simp only [variableChangesOf, List.mem_append] at hr
  rcases hr with ((hr | hr) | hr) | hr
  · obtain ⟨⟨v, w⟩, hkept, hr⟩ := List.mem_filterMap.1 hr
    obtain ⟨old, hold, hfound⟩ := List.mem_filterMap.1 hkept
    obtain ⟨new, hnew, heq⟩ := Option.map_eq_some_iff.1 hfound
    obtain ⟨rfl, rfl⟩ := Prod.mk.inj heq
    exact h.restsOn_typeChange hp (mem_of_mem_declarations hold)
      (mem_of_mem_declarations (List.mem_of_find?_eq_some hnew)) hr
  · obtain ⟨⟨old, new⟩, hrenamed, hr⟩ := List.mem_flatMap.1 hr
    obtain ⟨hold, hnew⟩ := mem_of_mem_renamed hrenamed
    rcases List.mem_append.1 hr with hr | hr
    · exact h.restsOn_typeChange hp (mem_of_mem_declarations (mem_of_mem_missingFrom hold))
        (mem_of_mem_declarations (mem_of_mem_missingFrom hnew)) (Option.mem_toList.1 hr)
    · obtain rfl := List.mem_singleton.1 hr
      exact h.restsOn_operations hp rfl fun pair hpair => h.covers_sharedInOrder hb ha hpair
  · obtain ⟨v, -, hr⟩ := List.mem_filterMap.1 hr
    obtain rfl := eq_of_guarded hr
    -- The variable is new, so its uses stand after and their counterparts before.
    refine h.restsOn_operations hp rfl fun pair hpair => ?_
    obtain ⟨⟨use, counterpart⟩, huse, rfl⟩ := List.mem_map.1 hpair
    exact h.covers_fragmentPair hb ha (hasPlaces_replacedUses huse).symm
  · obtain ⟨v, -, hr⟩ := List.mem_filterMap.1 hr
    obtain rfl := eq_of_guarded hr
    refine h.restsOn_operations hp rfl fun pair hpair => ?_
    obtain ⟨places, hplaces, rfl⟩ := List.mem_map.1 hpair
    exact h.covers_fragmentPair hb ha (hasPlaces_replacedUses hplaces)

theorem restsOn_variableChanges (hr : r ∈ c.variableChanges) : c.RestsOn trees trees' r := by
  rcases List.mem_append.1 hr with hr | hr
  · obtain ⟨_, hmem, hr⟩ := List.mem_flatMap.1 hr
    obtain ⟨p, hp, rfl⟩ := List.mem_map.1 hmem
    exact h.restsOn_variableChangesOf hp hr
  · obtain ⟨_, hmem, hr⟩ := List.mem_filterMap.1 hr
    obtain ⟨p, hp, rfl⟩ := List.mem_map.1 hmem
    have hpair : p ∈ (c.pairing.ofKind .attribute).pairs := hp
    simp only [attributeTypeChange?] at hr
    split at hr
    · obtain rfl := Option.some.inj hr
      exact h.restsOn_declarations hpair (h.attributeRefs_eq hp) _
    · cases hr

/-! ### Facts about operations that are in no pair -/

theorem restsOn_pulledCopies {signature : String} {target : Nat}
    (hr : r ∈ c.pulledCopies signature target) : c.RestsOn trees trees' r := by
  simp only [Comparison.pulledCopies] at hr
  split at hr
  · cases hr
  · rename_i targetOp htarget
    obtain ⟨op, hop, rfl⟩ := List.mem_map.1 hr
    obtain ⟨hb, hremoved⟩ := h.removed_operation (List.mem_of_mem_filter hop)
    obtain ⟨id, hid, rfl⟩ := List.mem_map.1 (List.mem_of_find?_eq_some htarget)
    have ha : c.after.Declares (c.after.operationAt id) := h.after.declares (h.member_lt hid)
    constructor
    · exact List.forall_mem_singleton.2 hb.holds
    · exact List.forall_mem_singleton.2 ha.holds
    · exact .inr hremoved
    · exact fun pair hpair => ⟨_, List.mem_singleton_self _, h.covers_sharedInOrder hb ha hpair⟩

theorem restsOn_extractions (hr : r ∈ c.extractions) : c.RestsOn trees trees' r := by
  obtain ⟨op, hop, hr⟩ := List.mem_flatMap.1 hr
  obtain ⟨_, hmem, hr⟩ := List.mem_filterMap.1 hr
  obtain ⟨p, hp, rfl⟩ := List.mem_map.1 hmem
  obtain ⟨hdeclared, hadded⟩ := h.added_operation hop
  obtain ⟨hb, ha⟩ := h.declares_pair hp
  simp only [extraction?] at hr
  split at hr
  · cases hr
  · obtain ⟨call, -, hr⟩ := Option.bind_eq_some_iff.1 hr
    obtain ⟨found, hfound, hr⟩ := Option.bind_eq_some_iff.1 hr
    obtain rfl := Option.some.inj hr
    constructor
    · exact List.forall_mem_singleton.2 hb.holds
    · exact List.forall_mem_cons.2 ⟨hdeclared.holds, List.forall_mem_singleton.2 ha.holds⟩
    · exact ⟨hadded, h.isMatched_operations hp⟩
    · intro pair hpair
      obtain ⟨⟨body, host⟩, hplaces, rfl⟩ := List.mem_map.1 hpair
      exact ⟨_, List.mem_singleton_self _, h.covers_fragmentPair hb hdeclared
        (Operation.hasPlaces_of_relocated hfound hplaces).symm⟩

theorem restsOn_inlinings (hr : r ∈ c.inlinings) : c.RestsOn trees trees' r := by
  obtain ⟨op, hop, hr⟩ := List.mem_flatMap.1 hr
  obtain ⟨_, hmem, hr⟩ := List.mem_filterMap.1 hr
  obtain ⟨p, hp, rfl⟩ := List.mem_map.1 hmem
  obtain ⟨hdeclared, hremoved⟩ := h.removed_operation hop
  obtain ⟨hb, ha⟩ := h.declares_pair hp
  simp only [inlining?] at hr
  split at hr
  · cases hr
  · obtain ⟨call, -, hr⟩ := Option.bind_eq_some_iff.1 hr
    obtain ⟨found, hfound, hr⟩ := Option.bind_eq_some_iff.1 hr
    obtain rfl := Option.some.inj hr
    constructor
    · exact List.forall_mem_cons.2 ⟨hdeclared.holds, List.forall_mem_singleton.2 hb.holds⟩
    · exact List.forall_mem_singleton.2 ha.holds
    · exact ⟨hremoved, h.isMatched_operations hp⟩
    · intro pair hpair
      obtain ⟨⟨body, host⟩, hplaces, rfl⟩ := List.mem_map.1 hpair
      exact ⟨_, List.mem_singleton_self _, h.covers_fragmentPair hdeclared ha
        (Operation.hasPlaces_of_relocated hfound hplaces)⟩

theorem restsOn_merges (hr : r ∈ c.merges) : c.RestsOn trees trees' r := by
  obtain ⟨target, htarget, hr⟩ := List.mem_filterMap.1 hr
  obtain ⟨ha, hadded⟩ := h.added_operation htarget
  have hsources : ∀ op ∈ c.mergeSources target, c.before.Declares op ∧
      c.IsRemoved (c.before.operationRef op.id) :=
    fun op hop => h.removed_operation (List.mem_of_mem_filter hop)
  have hcount : 2 ≤ (c.mergeSources target).length := two_le_of_guarded hr
  obtain rfl := eq_of_guarded hr
  constructor
  · exact List.forall_mem_map.2 fun op hop => (hsources op hop).1.holds
  · exact List.forall_mem_singleton.2 ha.holds
  · refine ⟨several_operationRefs h.nodup_removed List.filter_sublist hcount, ?_, hadded⟩
    exact List.forall_mem_map.2 fun op hop => (hsources op hop).2
  · intro pair hpair
    obtain ⟨op, hop, hpair⟩ := List.mem_flatMap.1 hpair
    refine ⟨c.operationRefs op target, ?_, h.covers_sharedStatements (hsources op hop).1 ha hpair⟩
    exact List.mem_map.2 ⟨_, List.mem_map.2 ⟨op, hop, rfl⟩, rfl⟩

theorem restsOn_splits (hr : r ∈ c.splits) : c.RestsOn trees trees' r := by
  obtain ⟨source, hsource, hr⟩ := List.mem_filterMap.1 hr
  obtain ⟨hb, hremoved⟩ := h.removed_operation hsource
  have htargets : ∀ op ∈ c.splitTargets source, c.after.Declares op ∧
      c.IsAdded (c.after.operationRef op.id) :=
    fun op hop => h.added_operation (List.mem_of_mem_filter hop)
  have hcount : 2 ≤ (c.splitTargets source).length := two_le_of_guarded hr
  obtain rfl := eq_of_guarded hr
  constructor
  · exact List.forall_mem_singleton.2 hb.holds
  · exact List.forall_mem_map.2 fun op hop => (htargets op hop).1.holds
  · refine ⟨hremoved, several_operationRefs h.nodup_added List.filter_sublist hcount, ?_⟩
    exact List.forall_mem_map.2 fun op hop => (htargets op hop).2
  · intro pair hpair
    obtain ⟨op, hop, hpair⟩ := List.mem_flatMap.1 hpair
    refine ⟨c.operationRefs source op, ?_, h.covers_sharedStatements hb (htargets op hop).1 hpair⟩
    exact List.mem_map.2 ⟨_, List.mem_map.2 ⟨op, hop, rfl⟩, rfl⟩

/-! ### All facts -/

theorem restsOn_renames (hr : r ∈ c.renames) : c.RestsOn trees trees' r := by
  rw [renames_eq] at hr
  obtain ⟨kind, -, hr⟩ := List.mem_flatMap.1 hr
  obtain ⟨p, hp, hr⟩ := List.mem_filterMap.1 hr
  exact h.restsOn_classification hp (.inl hr)

theorem restsOn_moves (hr : r ∈ c.moves) : c.RestsOn trees trees' r := by
  have hmove : ∀ kind, r ∈ (c.pairing.ofKind kind).pairs.filterMap (c.move? kind) →
      c.RestsOn trees trees' r := by
    intro kind hr
    obtain ⟨p, hp, hr⟩ := List.mem_filterMap.1 hr
    exact h.restsOn_classification hp (.inr hr)
  rw [moves_eq, List.mem_append, List.mem_append, List.mem_append] at hr
  rcases hr with ((hr | hr) | hr) | hr
  · exact hmove .type hr
  · exact hmove .operation hr
  · obtain ⟨⟨signature, target⟩, -, hr⟩ := List.mem_flatMap.1 hr
    exact h.restsOn_pulledCopies hr
  · exact hmove .attribute hr

theorem restsOn_findings (hr : r ∈ c.findings) : c.RestsOn trees trees' r := by
  simp only [Comparison.findings, List.mem_append] at hr
  rcases hr with ((((((hr | hr) | hr) | hr) | hr) | hr) | hr) | hr
  · exact h.restsOn_renames hr
  · exact h.restsOn_moves hr
  · exact h.restsOn_extractions hr
  · exact h.restsOn_inlinings hr
  · exact h.restsOn_merges hr
  · exact h.restsOn_splits hr
  · exact h.restsOn_parameterChanges hr
  · exact h.restsOn_variableChanges hr

end Located

/-- **Facts rest on the pairing and on the code.**  Whatever scores and thresholds two models are
paired and compared by, every refactoring names entities of the two models, says of them what their
pairing allows, and is supported by fragments of two entities that it relates. -/
theorem refactorings_rest_on_code (scoring : Scoring) (thresholds limits : Thresholds)
    (trees trees' : List Tree) :
    let before := Model.ofTrees trees
    let after := Model.ofTrees trees'
    let pairing := Pairing.ofModels scoring thresholds before after
    let c : Comparison := { before, after, pairing, thresholds := limits }
    ∀ r ∈ c.refactorings, c.RestsOn trees trees' r := by
  intro before after pairing c r hr
  have hbefore := Model.grounded_ofTrees trees
  have hafter := Model.grounded_ofTrees trees'
  have h : c.Located trees trees' :=
    { before := hbefore
      after := hafter
      pairing := Pairing.inRange_ofModels hbefore hafter scoring thresholds
      partitions := Pairing.partitions_ofModels hbefore hafter scoring thresholds
      locatedBefore := Model.located_ofTrees trees
      locatedAfter := Model.located_ofTrees trees' }
  exact h.restsOn_findings (mem_findings_of_mem_refactorings hr)

/-- Two statements became a method of their own, which is called in their place.  They support the
fact with their old and their new nodes. -/
theorem refactorings_rest_on_code_extraction :
    let tree : Tree := .ofNodes default "" #[{ kind := "program" },
      { kind := "package_declaration", parent := some 0 },
      { kind := "identifier", category := .identifier, label := "p", parent := some 1 },
      { kind := "function", category := .operation, parent := some 0 },
      { kind := "identifier", category := .identifier, role := some .name, label := "f",
        parent := some 3 },
      { kind := "block", category := .block, role := some .body, parent := some 3 },
      { kind := "statement", category := .statement, label := "x", parent := some 5 },
      { kind := "statement", category := .statement, label := "y", parent := some 5 }]
    let tree' : Tree := .ofNodes default "" #[{ kind := "program" },
      { kind := "package_declaration", parent := some 0 },
      { kind := "identifier", category := .identifier, label := "p", parent := some 1 },
      { kind := "function", category := .operation, parent := some 0 },
      { kind := "identifier", category := .identifier, role := some .name, label := "f",
        parent := some 3 },
      { kind := "block", category := .block, role := some .body, parent := some 3 },
      { kind := "statement", category := .statement, label := "g()", parent := some 5 },
      { kind := "call", category := .invocation, parent := some 6 },
      { kind := "identifier", category := .identifier, role := some .name, label := "g",
        parent := some 7 },
      { kind := "function", category := .operation, parent := some 0 },
      { kind := "identifier", category := .identifier, role := some .name, label := "g",
        parent := some 9 },
      { kind := "block", category := .block, role := some .body, parent := some 9 },
      { kind := "statement", category := .statement, label := "x", parent := some 11 },
      { kind := "statement", category := .statement, label := "y", parent := some 11 }]
    let before := Model.ofTrees [tree]
    let after := Model.ofTrees [tree']
    let c : Comparison := { before, after, pairing := .ofModels .standard {} before after }
    ∃ r ∈ c.refactorings, r.fact.displayName = "Extract Method" ∧
      (r.justification.map fun pair => (pair.before.node, pair.after.node)) = [(6, 12), (7, 13)] ∧
      c.RestsOn [tree] [tree'] r := by
  intro tree tree' before after c
  have hfound : (c.refactorings.map fun r => (r.fact.displayName,
      r.justification.map fun pair => (pair.before.node, pair.after.node))) =
      [("Extract Method", [(6, 12), (7, 13)])] := by
    decide +kernel
  obtain ⟨r, hr, heq⟩ := List.mem_map.1 (hfound ▸ List.mem_singleton_self _)
  obtain ⟨hname, hnodes⟩ := Prod.mk.inj heq
  exact ⟨r, hr, hname, hnodes, refactorings_rest_on_code .standard {} {} [tree] [tree'] r hr⟩

end Comparison

end Reshape
