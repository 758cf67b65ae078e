import Mathlib
import Reshape.Proofs.Pairing.Partition
import Reshape.Proofs.Refactoring.Resolution

/-! # Every pair of entities is classified once

Renamings and moves are found pair by pair, and their conditions exclude each other.  Extractions,
inlinings, merges, splits and copies that were pulled up relate an entity that is in no pair, and
the changes of signatures and variables are details.  So the classification of a pair is the only
one that is found for it, it meets no conflict, and it is listed in the end. -/

namespace Reshape

/-- The numbers of two paired entities of a kind. -/
def Pair.key (kind : EntityKind) (p : Pair) : Refactoring.PairKey :=
  (⟨kind, p.before⟩, ⟨kind, p.after⟩)

/-- Members of one name are in one container if their qualified names are the same. -/
theorem qualify_left_inj {container container' name : String}
    (h : qualify container name = qualify container' name) : container = container' := by
  have hlength := congrArg String.length h
  by_cases hempty : container = "" <;> by_cases hempty' : container' = ""
  · rw [hempty, hempty']
  · rw [qualify, qualify, if_pos (by simp [hempty]), if_neg (by simp [hempty'])] at hlength
    simp [toString] at hlength
  · rw [qualify, qualify, if_neg (by simp [hempty]), if_pos (by simp [hempty'])] at hlength
    simp [toString] at hlength
  · rw [qualify, qualify, if_neg (by simp [hempty]), if_neg (by simp [hempty'])] at h
    simpa [toString, ← String.toList_inj] using h

namespace Comparison

variable {c : Comparison} {paths paths' : List Path} {kind : EntityKind} {p : Pair}
  {r : Refactoring}

/-- A comparison of two models whose pairing partitions the entities. -/
structure Partitioned (c : Comparison) (paths paths' : List Path) : Prop
    extends c.Grounded paths paths' where
  partitions : ∀ kind,
    (c.pairing.ofKind kind).Partitions (c.before.size kind) (c.after.size kind)

/-! ### The renaming and the move of a pair -/

/-- The renaming of a pair. -/
def rename? (c : Comparison) : EntityKind → Pair → Option Refactoring
  | .type, p => c.classRename? (c.before.classAt p.before) (c.after.classAt p.after)
  | .operation, p => c.methodRename? (c.before.operationAt p.before) (c.after.operationAt p.after)
  | .attribute, p =>
    c.attributeRename? (c.before.attributeAt p.before) (c.after.attributeAt p.after)

/-- The move of a method that left its container. -/
def methodMove? (c : Comparison) (b a : Operation) : Option Refactoring :=
  if c.sameContainer b a then none else some (c.methodChange (c.methodMoveKind b a) b a)

/-- The move of a pair. -/
def move? (c : Comparison) : EntityKind → Pair → Option Refactoring
  | .type, p => c.classMove? (c.before.classAt p.before) (c.after.classAt p.after)
  | .operation, p => c.methodMove? (c.before.operationAt p.before) (c.after.operationAt p.after)
  | .attribute, p => c.attributeMove? (c.before.attributeAt p.before) (c.after.attributeAt p.after)

theorem renames_eq (c : Comparison) : c.renames =
    EntityKind.all.flatMap fun kind =>
      (c.pairing.ofKind kind).pairs.filterMap (c.rename? kind) := by
  rw [renames, classPairs, operationPairs, attributePairs, List.filterMap_map, List.filterMap_map,
    List.filterMap_map, List.append_assoc, EntityKind.all, List.flatMap_cons, List.flatMap_cons,
    List.flatMap_cons, List.flatMap_nil, List.append_nil]
  rfl

theorem movedMethods_eq (c : Comparison) :
    (c.movedMethods.map fun (b, a) => c.methodChange (c.methodMoveKind b a) b a) =
      c.pairing.operations.pairs.filterMap (c.move? .operation) := by
  rw [movedMethods, operationPairs, List.filter_map, List.map_map, ← List.filterMap_eq_map,
    List.filterMap_filter]
  refine List.filterMap_congr fun p _ => ?_
  simp only [move?, methodMove?, Function.comp_apply, Bool.not_eq_true']
  cases c.sameContainer (c.before.operationAt p.before) (c.after.operationAt p.after) <;> rfl

/-- Moves are found pair by pair, apart from the copies that were pulled up. -/
theorem moves_eq (c : Comparison) : c.moves =
    c.pairing.classes.pairs.filterMap (c.move? .type)
      ++ c.pairing.operations.pairs.filterMap (c.move? .operation)
      ++ c.pullTargets.flatMap (fun (signature, target) => c.pulledCopies signature target)
      ++ c.pairing.attributes.pairs.filterMap (c.move? .attribute) := by
  rw [moves, movedMethods_eq, classPairs, attributePairs, List.filterMap_map, List.filterMap_map]
  rfl

/-- A pair is not both renamed and moved by two refactorings. -/
theorem rename_eq_none_or_move_eq_none (c : Comparison) (kind : EntityKind) (p : Pair) :
    c.rename? kind p = none ∨ c.move? kind p = none := by
  cases kind
  · by_cases hname : (c.before.classAt p.before).name = (c.after.classAt p.after).name
    · left
      simp [rename?, classRename?, hname]
    · right
      simp [move?, classMove?, hname]
  · cases hsame : c.sameContainer (c.before.operationAt p.before) (c.after.operationAt p.after)
    · left
      simp [rename?, methodRename?, hsame]
    · right
      simp [move?, methodMove?, hsame]
  · cases hsame :
        c.sameClass (c.before.attributeAt p.before).owner (c.after.attributeAt p.after).owner
    · left
      simp [rename?, attributeRename?, hsame]
    · right
      simp [move?, attributeMove?, hsame]

/-- The descriptions of a pair. -/
def refs (c : Comparison) (kind : EntityKind) (p : Pair) : EntityRef × EntityRef :=
  (c.before.entityRef ⟨kind, p.before⟩, c.after.entityRef ⟨kind, p.after⟩)

theorem keys_eq (h : r.fact.entityPairs = [c.refs kind p]) : r.keys = [p.key kind] := by
  simp [Refactoring.keys, h, refs, Pair.key]

/-- A refactoring that says only that a pair got another name or another place. -/
structure Classifies (c : Comparison) (kind : EntityKind) (p : Pair) (r : Refactoring) : Prop where
  entityPairs : r.fact.entityPairs = [c.refs kind p]
  group : r.group.isClassification = true

theorem isClassification_methodMoveKind (b a : Operation) :
    (c.methodMoveKind b a).group.isClassification = true := by
  rw [methodMoveKind]
  split
  · rfl
  · rfl
  · split <;> rfl

namespace Partitioned

variable (h : c.Partitioned paths paths')

include h

theorem classRefs_eq (hp : p ∈ c.pairing.classes.pairs) :
    c.classRefs (c.before.classAt p.before) (c.after.classAt p.after) = c.refs .type p := by
  obtain ⟨hb, ha⟩ := h.pairing.classes.pairs p hp
  have hbefore : (c.before.classAt p.before).id = p.before := (h.before.classes.getD hb).1
  have hafter : (c.after.classAt p.after).id = p.after := (h.after.classes.getD ha).1
  rw [classRefs, hbefore, hafter]
  rfl

theorem operationRefs_eq (hp : p ∈ c.pairing.operations.pairs) :
    c.operationRefs (c.before.operationAt p.before) (c.after.operationAt p.after) =
      c.refs .operation p := by
  obtain ⟨hb, ha⟩ := h.pairing.operations.pairs p hp
  have hbefore : (c.before.operationAt p.before).id = p.before := (h.before.operations.getD hb).1
  have hafter : (c.after.operationAt p.after).id = p.after := (h.after.operations.getD ha).1
  rw [operationRefs, hbefore, hafter]
  rfl

theorem attributeRefs_eq (hp : p ∈ c.pairing.attributes.pairs) :
    c.attributeRefs (c.before.attributeAt p.before) (c.after.attributeAt p.after) =
      c.refs .attribute p := by
  obtain ⟨hb, ha⟩ := h.pairing.attributes.pairs p hp
  have hbefore : (c.before.attributeAt p.before).id = p.before := (h.before.attributes.getD hb).1
  have hafter : (c.after.attributeAt p.after).id = p.after := (h.after.attributes.getD ha).1
  rw [attributeRefs, hbefore, hafter]
  rfl

theorem classifies_rename (hp : p ∈ (c.pairing.ofKind kind).pairs)
    (hr : c.rename? kind p = some r) :
    c.Classifies kind p r := by
  cases kind
  · obtain rfl := eq_of_guarded hr
    refine ⟨congrArg ([·]) (h.classRefs_eq hp), ?_⟩
    show (EntityChange.group _).isClassification = true
    split <;> rfl
  · obtain rfl := eq_of_guarded hr
    exact ⟨congrArg ([·]) (h.operationRefs_eq hp), rfl⟩
  · obtain rfl := eq_of_guarded hr
    exact ⟨congrArg ([·]) (h.attributeRefs_eq hp), rfl⟩

theorem classifies_move (hp : p ∈ (c.pairing.ofKind kind).pairs) (hr : c.move? kind p = some r) :
    c.Classifies kind p r := by
  cases kind
  · obtain rfl := eq_of_guarded hr
    exact ⟨congrArg ([·]) (h.classRefs_eq hp), rfl⟩
  · obtain rfl := eq_of_guarded hr
    exact ⟨congrArg ([·]) (h.operationRefs_eq hp), isClassification_methodMoveKind _ _⟩
  · obtain rfl := eq_of_guarded hr
    refine ⟨congrArg ([·]) (h.attributeRefs_eq hp), ?_⟩
    show (EntityChange.group _).isClassification = true
    split <;> rfl

/-! ### What relates entities that are in no pair -/

omit h in
/-- A refactoring that relates no pair. -/
def Foreign (c : Comparison) (r : Refactoring) : Prop :=
  ∀ kind, ∀ p ∈ (c.pairing.ofKind kind).pairs, p.key kind ∉ r.keys

theorem foreign_of_removed (hkeys : ∀ key ∈ r.keys, ∃ op ∈ c.removedOperations,
    key.1 = ⟨.operation, op.id⟩) : Foreign c r := by
  intro kind p hp hkey
  obtain ⟨op, hop, heq⟩ := hkeys _ hkey
  obtain ⟨id, hid, rfl⟩ := List.mem_map.1 hop
  obtain ⟨hlt, hunpaired⟩ := ((h.partitions .operation).mem_removed id).1 hid
  obtain ⟨rfl, hbefore⟩ := EntityId.mk.inj heq
  rw [show (c.before.operationAt id).id = id from (h.before.operations.getD hlt).1] at hbefore
  exact hunpaired (List.mem_map.2 ⟨p, hp, hbefore⟩)

theorem foreign_of_added (hkeys : ∀ key ∈ r.keys, ∃ op ∈ c.addedOperations,
    key.2 = ⟨.operation, op.id⟩) : Foreign c r := by
  intro kind p hp hkey
  obtain ⟨op, hop, heq⟩ := hkeys _ hkey
  obtain ⟨id, hid, rfl⟩ := List.mem_map.1 hop
  obtain ⟨hlt, hunpaired⟩ := ((h.partitions .operation).mem_added id).1 hid
  obtain ⟨rfl, hafter⟩ := EntityId.mk.inj heq
  rw [show (c.after.operationAt id).id = id from (h.after.operations.getD hlt).1] at hafter
  exact hunpaired (List.mem_map.2 ⟨p, hp, hafter⟩)

theorem foreign_pulledCopies {signature : String} {target : Nat}
    (hr : r ∈ c.pulledCopies signature target) : Foreign c r := by
  simp only [Comparison.pulledCopies] at hr
  split at hr
  · cases hr
  · obtain ⟨op, hop, rfl⟩ := List.mem_map.1 hr
    refine h.foreign_of_removed fun key hkey => ⟨op, List.mem_of_mem_filter hop, ?_⟩
    obtain rfl := List.mem_singleton.1 hkey
    rfl

theorem foreign_extractions (hr : r ∈ c.extractions) : Foreign c r := by
  obtain ⟨op, hop, hr⟩ := List.mem_flatMap.1 hr
  obtain ⟨⟨b, a⟩, -, hr⟩ := List.mem_filterMap.1 hr
  simp only [extraction?] at hr
  split at hr
  · cases hr
  · obtain ⟨call, -, hr⟩ := Option.bind_eq_some_iff.1 hr
    obtain ⟨found, -, hr⟩ := Option.bind_eq_some_iff.1 hr
    obtain rfl := Option.some.inj hr
    refine h.foreign_of_added fun key hkey => ⟨op, hop, ?_⟩
    obtain rfl := List.mem_singleton.1 hkey
    rfl

theorem foreign_inlinings (hr : r ∈ c.inlinings) : Foreign c r := by
  obtain ⟨op, hop, hr⟩ := List.mem_flatMap.1 hr
  obtain ⟨⟨b, a⟩, -, hr⟩ := List.mem_filterMap.1 hr
  simp only [inlining?] at hr
  split at hr
  · cases hr
  · obtain ⟨call, -, hr⟩ := Option.bind_eq_some_iff.1 hr
    obtain ⟨found, -, hr⟩ := Option.bind_eq_some_iff.1 hr
    obtain rfl := Option.some.inj hr
    refine h.foreign_of_removed fun key hkey => ⟨op, hop, ?_⟩
    obtain rfl := List.mem_singleton.1 hkey
    rfl

theorem foreign_merges (hr : r ∈ c.merges) : Foreign c r := by
  obtain ⟨target, htarget, hr⟩ := List.mem_filterMap.1 hr
  obtain rfl := eq_of_guarded hr
  refine h.foreign_of_added fun key hkey => ⟨target, htarget, ?_⟩
  obtain ⟨refs, hrefs, rfl⟩ := List.mem_map.1 hkey
  obtain ⟨_, -, rfl⟩ := List.mem_map.1 hrefs
  rfl

theorem foreign_splits (hr : r ∈ c.splits) : Foreign c r := by
  obtain ⟨source, hsource, hr⟩ := List.mem_filterMap.1 hr
  obtain rfl := eq_of_guarded hr
  refine h.foreign_of_removed fun key hkey => ⟨source, hsource, ?_⟩
  obtain ⟨refs, hrefs, rfl⟩ := List.mem_map.1 hkey
  obtain ⟨_, -, rfl⟩ := List.mem_map.1 hrefs
  rfl

/-! ### Details of pairs -/

omit h in
/-- A refactoring that says only how a pair changed in detail. -/
structure Details (c : Comparison) (kind : EntityKind) (p : Pair) (r : Refactoring) : Prop where
  entityPairs : r.fact.entityPairs = [c.refs kind p]
  group : r.group.isDetail = true

omit h in
theorem isDetail_typeChange {before after : EntityRef} {old new : Variable}
    (hr : typeChange? before after old new = some r) : r.group.isDetail = true := by
  rw [typeChange?] at hr
  split at hr
  · obtain rfl := Option.some.inj hr
    rfl
  · cases hr

omit h in
theorem isDetail_variableChangesOf {b a : Operation} (hr : r ∈ c.variableChangesOf b a) :
    r.group.isDetail = true := by
  simp only [variableChangesOf, List.mem_append] at hr
  rcases hr with ((hr | hr) | hr) | hr
  · obtain ⟨_, -, hr⟩ := List.mem_filterMap.1 hr
    exact isDetail_typeChange hr
  · obtain ⟨_, -, hr⟩ := List.mem_flatMap.1 hr
    rcases List.mem_append.1 hr with hr | hr
    · exact isDetail_typeChange (Option.mem_toList.1 hr)
    · obtain rfl := List.mem_singleton.1 hr
      rfl
  · obtain ⟨_, -, hr⟩ := List.mem_filterMap.1 hr
    obtain rfl := eq_of_guarded hr
    rfl
  · obtain ⟨_, -, hr⟩ := List.mem_filterMap.1 hr
    obtain rfl := eq_of_guarded hr
    rfl

theorem details_parameterChanges (hr : r ∈ c.parameterChanges) :
    ∃ p ∈ c.pairing.operations.pairs, Details c .operation p r := by
  obtain ⟨_, hmem, hr⟩ := List.mem_flatMap.1 hr
  obtain ⟨p, hp, rfl⟩ := List.mem_map.1 hmem
  obtain ⟨what, -, rfl⟩ := List.mem_map.1 hr
  exact ⟨p, hp, congrArg ([·]) (h.operationRefs_eq hp), rfl⟩

theorem details_variableChanges (hr : r ∈ c.variableChanges) :
    ∃ kind, ∃ p ∈ (c.pairing.ofKind kind).pairs, Details c kind p r := by
  rcases List.mem_append.1 hr with hr | hr
  · obtain ⟨_, hmem, hr⟩ := List.mem_flatMap.1 hr
    obtain ⟨p, hp, rfl⟩ := List.mem_map.1 hmem
    refine ⟨.operation, p, hp, ?_, isDetail_variableChangesOf hr⟩
    rw [Grounded.variableChangesOf_eq hr, h.operationRefs_eq hp]
  · obtain ⟨_, hmem, hr⟩ := List.mem_filterMap.1 hr
    obtain ⟨p, hp, rfl⟩ := List.mem_map.1 hmem
    simp only [attributeTypeChange?] at hr
    split at hr
    · obtain rfl := Option.some.inj hr
      exact ⟨.attribute, p, hp, congrArg ([·]) (h.attributeRefs_eq hp), rfl⟩
    · cases hr

/-! ### What is found about a pair -/

theorem foreign_pulled (hr : r ∈ c.pullTargets.flatMap fun (signature, target) =>
    c.pulledCopies signature target) : Foreign c r := by
  obtain ⟨⟨signature, target⟩, -, hr⟩ := List.mem_flatMap.1 hr
  exact h.foreign_pulledCopies hr

theorem moves_cases (hr : r ∈ c.moves) :
    (∃ kind, ∃ p ∈ (c.pairing.ofKind kind).pairs, c.move? kind p = some r) ∨ Foreign c r := by
  rw [moves_eq, List.mem_append, List.mem_append, List.mem_append] at hr
  rcases hr with ((hr | hr) | hr) | hr
  · exact .inl ⟨.type, List.mem_filterMap.1 hr⟩
  · exact .inl ⟨.operation, List.mem_filterMap.1 hr⟩
  · exact .inr (h.foreign_pulled hr)
  · exact .inl ⟨.attribute, List.mem_filterMap.1 hr⟩

/-- A finding speaks of one pair, which it classifies or describes in detail, or it speaks of
none. -/
theorem findings_cases (hr : r ∈ c.findings) :
    (∃ kind, ∃ p ∈ (c.pairing.ofKind kind).pairs, c.Classifies kind p r ∨ Details c kind p r) ∨
      Foreign c r := by
  simp only [Comparison.findings, List.mem_append] at hr
  rcases hr with ((((((hr | hr) | hr) | hr) | hr) | hr) | hr) | hr
  · rw [renames_eq] at hr
    obtain ⟨kind, -, hr⟩ := List.mem_flatMap.1 hr
    obtain ⟨p, hp, hr⟩ := List.mem_filterMap.1 hr
    exact .inl ⟨kind, p, hp, .inl (h.classifies_rename hp hr)⟩
  · rcases h.moves_cases hr with ⟨kind, p, hp, hr⟩ | hforeign
    · exact .inl ⟨kind, p, hp, .inl (h.classifies_move hp hr)⟩
    · exact .inr hforeign
  · exact .inr (h.foreign_extractions hr)
  · exact .inr (h.foreign_inlinings hr)
  · exact .inr (h.foreign_merges hr)
  · exact .inr (h.foreign_splits hr)
  · obtain ⟨p, hp, hdetails⟩ := h.details_parameterChanges hr
    exact .inl ⟨.operation, p, hp, .inr hdetails⟩
  · obtain ⟨kind, p, hp, hdetails⟩ := h.details_variableChanges hr
    exact .inl ⟨kind, p, hp, .inr hdetails⟩

omit h in
theorem filter_eq_nil_of_foreign {found : List Refactoring} (hp : p ∈ (c.pairing.ofKind kind).pairs)
    (hfound : ∀ r ∈ found, Foreign c r ∨ r.group.isDetail = true) :
    found.filter (Refactoring.classifies (p.key kind)) = [] := by
  refine List.filter_eq_nil_iff.2 fun r hr hclassifies => ?_
  simp only [Refactoring.classifies, Bool.and_eq_true, decide_eq_true_eq] at hclassifies
  obtain ⟨hkey, hgroup⟩ := hclassifies
  rcases hfound r hr with hforeign | hdetail
  · exact hforeign kind p hp hkey
  · revert hgroup hdetail
    cases r.group <;> decide

/-- What a detector finds about a pair when it goes through all pairs of the kind. -/
theorem filter_filterMap {find : Pair → Option Refactoring}
    (hfind : ∀ q ∈ (c.pairing.ofKind kind).pairs, ∀ r, find q = some r → c.Classifies kind q r)
    (hp : p ∈ (c.pairing.ofKind kind).pairs) :
    ((c.pairing.ofKind kind).pairs.filterMap find).filter (Refactoring.classifies (p.key kind)) =
      (find p).toList := by
  have honce := (h.partitions kind).before_once
  generalize (c.pairing.ofKind kind).pairs = pairs at hfind hp honce
  -- no other pair of the list has the number before of `p`
  have hothers : ∀ part ⊆ pairs, (∀ q ∈ part, q.before ≠ p.before) →
      (part.filterMap find).filter (Refactoring.classifies (p.key kind)) = [] := by
    intro part hpart hne
    refine List.filter_eq_nil_iff.2 fun r hr hclassifies => ?_
    obtain ⟨q, hq, hr⟩ := List.mem_filterMap.1 hr
    simp only [Refactoring.classifies, keys_eq (hfind q (hpart hq) r hr).entityPairs,
      List.mem_singleton, Bool.and_eq_true, decide_eq_true_eq] at hclassifies
    exact hne q hq (congrArg (·.1.index) hclassifies.1).symm
  obtain ⟨left, right, rfl⟩ := List.append_of_mem hp
  rw [List.map_append, List.map_cons, List.nodup_middle, List.nodup_cons, List.mem_append] at honce
  have hleft : ∀ q ∈ left, q.before ≠ p.before := fun q hq heq =>
    honce.1 (.inl (List.mem_map.2 ⟨q, hq, heq⟩))
  have hright : ∀ q ∈ right, q.before ≠ p.before := fun q hq heq =>
    honce.1 (.inr (List.mem_map.2 ⟨q, hq, heq⟩))
  rw [List.filterMap_append, List.filter_append, hothers left (by simp) hleft, List.nil_append,
    List.filterMap_cons]
  cases hfound : find p with
  | none => exact hothers right (by simp) hright
  | some r =>
    obtain ⟨hpairs, hgroup⟩ := hfind p hp r hfound
    have hclassifies : r.classifies (p.key kind) = true := by
      simp [Refactoring.classifies, keys_eq hpairs, hgroup]
    rw [List.filter_cons_of_pos hclassifies, hothers right (by simp) hright]
    rfl

/-- What a detector finds about a pair when it goes through all pairs of all kinds. -/
theorem filter_flatMap {find : EntityKind → Pair → Option Refactoring}
    (hfind : ∀ kind, ∀ q ∈ (c.pairing.ofKind kind).pairs, ∀ r, find kind q = some r →
      c.Classifies kind q r) (hp : p ∈ (c.pairing.ofKind kind).pairs) :
    (EntityKind.all.flatMap fun kind => (c.pairing.ofKind kind).pairs.filterMap (find kind)).filter
      (Refactoring.classifies (p.key kind)) = (find kind p).toList := by
  have hother : ∀ other, other ≠ kind →
      ((c.pairing.ofKind other).pairs.filterMap (find other)).filter
      (Refactoring.classifies (p.key kind)) = [] := by
    intro other hne
    refine List.filter_eq_nil_iff.2 fun r hr hclassifies => ?_
    obtain ⟨q, hq, hr⟩ := List.mem_filterMap.1 hr
    simp only [Refactoring.classifies, keys_eq (hfind other q hq r hr).entityPairs,
      List.mem_singleton, Bool.and_eq_true, decide_eq_true_eq] at hclassifies
    exact hne (congrArg (·.1.kind) hclassifies.1).symm
  have hsame := h.filter_filterMap (hfind kind) hp
  rw [List.filter_flatMap, EntityKind.all, List.flatMap_cons, List.flatMap_cons, List.flatMap_cons,
    List.flatMap_nil]
  cases kind
  · rw [hsame, hother _ (by decide), hother _ (by decide)]
    simp
  · rw [hsame, hother _ (by decide), hother _ (by decide)]
    simp
  · rw [hsame, hother _ (by decide), hother _ (by decide)]
    simp

/-- The renaming and the move of a pair are all that is found to classify it. -/
theorem filter_findings (hp : p ∈ (c.pairing.ofKind kind).pairs) :
    c.findings.filter (Refactoring.classifies (p.key kind)) =
      (c.rename? kind p).toList ++ (c.move? kind p).toList := by
  have hrenames := h.filter_flatMap (fun kind q hq r => h.classifies_rename hq) hp
  have hmoves := h.filter_flatMap (fun kind q hq r => h.classifies_move hq) hp
  rw [← renames_eq] at hrenames
  simp only [EntityKind.all, List.flatMap_cons, List.flatMap_nil, List.append_nil,
    List.filter_append] at hmoves
  have hpulled := filter_eq_nil_of_foreign hp fun r hr => .inl (h.foreign_pulled hr)
  have hextractions := filter_eq_nil_of_foreign hp fun r hr => .inl (h.foreign_extractions hr)
  have hinlinings := filter_eq_nil_of_foreign hp fun r hr => .inl (h.foreign_inlinings hr)
  have hmerges := filter_eq_nil_of_foreign hp fun r hr => .inl (h.foreign_merges hr)
  have hsplits := filter_eq_nil_of_foreign hp fun r hr => .inl (h.foreign_splits hr)
  have hparameters : c.parameterChanges.filter (Refactoring.classifies (p.key kind)) = [] := by
    refine filter_eq_nil_of_foreign hp fun r hr => .inr ?_
    obtain ⟨_, _, hdetails⟩ := h.details_parameterChanges hr
    exact hdetails.group
  have hvariables : c.variableChanges.filter (Refactoring.classifies (p.key kind)) = [] := by
    refine filter_eq_nil_of_foreign hp fun r hr => .inr ?_
    obtain ⟨_, _, _, hdetails⟩ := h.details_variableChanges hr
    exact hdetails.group
  simp only [Comparison.findings, moves_eq, List.filter_append, hrenames, hpulled, hextractions,
    hinlinings, hmerges, hsplits, hparameters, hvariables, List.append_nil, List.append_assoc]
  exact congrArg _ hmoves

theorem length_filter_findings (hp : p ∈ (c.pairing.ofKind kind).pairs) :
    (c.findings.filter (Refactoring.classifies (p.key kind))).length ≤ 1 := by
  rw [h.filter_findings hp]
  rcases c.rename_eq_none_or_move_eq_none kind p with hnone | hnone <;> rw [hnone]
  · cases c.move? kind p <;> simp
  · cases c.rename? kind p <;> simp

/-- No two findings about a pair exclude each other. -/
theorem goTogether (hp : p ∈ (c.pairing.ofKind kind).pairs) :
    Refactoring.GoTogether (p.key kind) c.findings := by
  have habout : ∀ r ∈ c.findings, p.key kind ∈ r.keys → r.keys = [p.key kind] ∧
      (r.group.isClassification = true ∨ r.group.isDetail = true) := by
    intro r hr hkey
    rcases h.findings_cases hr with ⟨kind', q, -, habout⟩ | hforeign
    · have hkeys : r.keys = [q.key kind'] := keys_eq (habout.elim (·.entityPairs) (·.entityPairs))
      rw [hkeys, List.mem_singleton] at hkey
      exact ⟨hkey ▸ hkeys, habout.imp (·.group) (·.group)⟩
    · exact absurd hkey (hforeign kind p hp)
  refine ⟨fun r hr hkey => (habout r hr hkey).1, fun r hr s hs hkeyr hkeys => ?_⟩
  refine Group.excludes_eq_false (habout r hr hkeyr).2 (habout s hs hkeys).2 fun hgroupr hgroups =>
    ?_
  -- both classify the pair, and only one finding does
  have hmem : ∀ t ∈ c.findings, p.key kind ∈ t.keys → t.group.isClassification = true →
      t ∈ c.findings.filter (Refactoring.classifies (p.key kind)) := fun t ht hkey hgroup =>
    List.mem_filter.2 ⟨ht, by simp [Refactoring.classifies, hkey, hgroup]⟩
  have hr' := hmem r hr hkeyr hgroupr
  have hs' := hmem s hs hkeys hgroups
  have hone := h.length_filter_findings hp
  obtain ⟨t, ht⟩ := List.length_eq_one_iff.1 (Nat.le_antisymm hone (List.length_pos_of_mem hr'))
  rw [ht, List.mem_singleton] at hr' hs'
  rw [hr', hs']

end Partitioned

/-! ### What is listed about a pair -/

/-- The facts listed in the end that say that a pair got another name or another place. -/
def classifications (c : Comparison) (kind : EntityKind) (p : Pair) : List Fact :=
  (c.refactorings.filter (Refactoring.classifies (p.key kind))).map Refactoring.fact

/-- Conflicts and repetitions leave the classification of a pair as it was found. -/
theorem Partitioned.classifications_eq (h : c.Partitioned paths paths')
    (hp : p ∈ (c.pairing.ofKind kind).pairs) : c.classifications kind p =
      ((c.rename? kind p).toList ++ (c.move? kind p).toList).map Refactoring.fact := by
  rw [classifications, refactorings,
    Refactoring.filter_classifies (h.goTogether hp) (h.length_filter_findings hp),
    h.filter_findings hp]

/-- What a pair of operations is classified as.  Nothing else is listed for it. -/
structure OperationClassified (c : Comparison) (p : Pair) (b a : Operation) : Prop where
  left : c.sameContainer b a = false →
    ∃ what ∈ [EntityChange.pullUpMethod, .pushDownMethod, .moveMethod, .moveAndRenameMethod],
      (what = .moveMethod → b.name = a.name) ∧ (what = .moveAndRenameMethod → b.name ≠ a.name) ∧
      c.classifications .operation p =
        [.change what (c.refs .operation p).1 (c.refs .operation p).2]
  renamed : c.sameContainer b a = true → b.name ≠ a.name →
    b.parameters.length = a.parameters.length → ∃ similarity isPure,
      c.classifications .operation p =
        [.renameMethod (c.refs .operation p).1 (c.refs .operation p).2 similarity isPure]
  kept : c.sameContainer b a = true →
    (b.name = a.name ∨ b.parameters.length ≠ a.parameters.length) →
    c.classifications .operation p = []

/-- What a pair of classes is classified as.  Nothing else is listed for it. -/
structure ClassClassified (c : Comparison) (p : Pair) (b a : Class) : Prop where
  renamed : b.name ≠ a.name → b.container = a.container → c.classifications .type p =
    [.change .renameClass (c.refs .type p).1 (c.refs .type p).2]
  movedAndRenamed : b.name ≠ a.name → b.container ≠ a.container → c.classifications .type p =
    [.change .moveAndRenameClass (c.refs .type p).1 (c.refs .type p).2]
  moved : b.name = a.name → b.container ≠ a.container → c.classifications .type p =
    [.change .moveClass (c.refs .type p).1 (c.refs .type p).2]
  kept : b.name = a.name → b.container = a.container → c.classifications .type p = []

/-- What a pair of attributes is classified as.  Nothing else is listed for it. -/
structure AttributeClassified (c : Comparison) (p : Pair) (b a : Attribute) : Prop where
  left : c.pairing.classes.after? b.owner ≠ some a.owner →
    ∃ what ∈ [EntityChange.pullUpAttribute, .pushDownAttribute, .moveAttribute],
      c.classifications .attribute p =
        [.change what (c.refs .attribute p).1 (c.refs .attribute p).2]
  renamed : c.pairing.classes.after? b.owner = some a.owner → b.name ≠ a.name →
    c.classifications .attribute p =
      [.change .renameAttribute (c.refs .attribute p).1 (c.refs .attribute p).2]
  kept : c.pairing.classes.after? b.owner = some a.owner → b.name = a.name →
    c.classifications .attribute p = []

namespace Partitioned

variable (h : c.Partitioned paths paths')

include h

theorem operationClassified (hp : p ∈ c.pairing.operations.pairs) : c.OperationClassified p
    (c.before.operationAt p.before) (c.after.operationAt p.after) := by
  have heq := h.classifications_eq (show p ∈ (c.pairing.ofKind .operation).pairs from hp)
  have hrefs := h.operationRefs_eq hp
  generalize hb : c.before.operationAt p.before = b at hrefs ⊢
  generalize ha : c.after.operationAt p.after = a at hrefs ⊢
  rw [rename?, move?, hb, ha] at heq
  refine ⟨fun hleft => ?_, fun hsame hname hlength => ?_, fun hsame hkept => ?_⟩
  · refine ⟨c.methodMoveKind b a, ?_, ?_, ?_, ?_⟩
    · simp only [methodMoveKind]
      split
      · simp
      · simp
      · split <;> simp
    · simp only [methodMoveKind]
      split <;> simp
    · simp only [methodMoveKind]
      split <;> simp
    · rw [heq, ← hrefs]
      simp [methodRename?, methodMove?, hleft, methodChange]
  · refine ⟨b.bodySimilarity a, b.parameterTypes == a.parameterTypes &&
      c.thresholds.renameBody ≤ b.bodySimilarity a, ?_⟩
    rw [heq, ← hrefs]
    simp [methodRename?, methodMove?, hsame, hname, hlength]
  · rw [heq]
    rcases hkept with hname | hlength
    · simp [methodRename?, methodMove?, hsame, hname]
    · simp [methodRename?, methodMove?, hsame, hlength]

theorem classClassified (hp : p ∈ c.pairing.classes.pairs) : c.ClassClassified p
    (c.before.classAt p.before) (c.after.classAt p.after) := by
  have heq := h.classifications_eq (show p ∈ (c.pairing.ofKind .type).pairs from hp)
  have hrefs := h.classRefs_eq hp
  generalize hb : c.before.classAt p.before = b at hrefs ⊢
  generalize ha : c.after.classAt p.after = a at hrefs ⊢
  rw [rename?, move?, hb, ha] at heq
  refine ⟨fun hname hcontainer => ?_, fun hname hcontainer => ?_, fun hname hcontainer => ?_,
    fun hname hcontainer => ?_⟩
  · rw [heq, ← hrefs]
    simp [classRename?, classMove?, hname, hcontainer, Refactoring.ofDeclarations]
  · rw [heq, ← hrefs]
    simp [classRename?, classMove?, hname, hcontainer, Refactoring.ofDeclarations]
  · have hqualified : b.qualifiedName ≠ a.qualifiedName := by
      intro hqualified
      rw [Class.qualifiedName, Class.qualifiedName, hname] at hqualified
      exact hcontainer (qualify_left_inj hqualified)
    rw [heq, ← hrefs]
    simp [classRename?, classMove?, hname, hcontainer, hqualified, Refactoring.ofDeclarations]
  · rw [heq]
    simp [classRename?, classMove?, hname, hcontainer, Class.qualifiedName]

theorem attributeClassified (hp : p ∈ c.pairing.attributes.pairs) : c.AttributeClassified p
    (c.before.attributeAt p.before) (c.after.attributeAt p.after) := by
  have heq := h.classifications_eq (show p ∈ (c.pairing.ofKind .attribute).pairs from hp)
  have hrefs := h.attributeRefs_eq hp
  generalize hb : c.before.attributeAt p.before = b at hrefs ⊢
  generalize ha : c.after.attributeAt p.after = a at hrefs ⊢
  rw [rename?, move?, hb, ha] at heq
  refine ⟨fun hleft => ?_, fun hsame hname => ?_, fun hsame hname => ?_⟩
  · rw [heq, ← hrefs]
    simp only [attributeRename?, attributeMove?, sameClass, beq_eq_false_iff_ne.2 hleft]
    cases c.direction (some b.owner) (some a.owner) with
    | up => exact ⟨.pullUpAttribute, by simp, by simp [Refactoring.ofDeclarations]⟩
    | down => exact ⟨.pushDownAttribute, by simp, by simp [Refactoring.ofDeclarations]⟩
    | across => exact ⟨.moveAttribute, by simp, by simp [Refactoring.ofDeclarations]⟩
  · rw [heq, ← hrefs]
    simp [attributeRename?, attributeMove?, sameClass, hsame, hname, Refactoring.ofDeclarations]
  · rw [heq]
    simp [attributeRename?, attributeMove?, sameClass, hsame, hname]

end Partitioned

/-- **Every pair is classified once.**  Whatever scores and thresholds two models are paired and
compared by, each pair of entities is listed with the one classification that its names and places
call for, or with none if they are kept. -/
theorem pairs_classified_once (scoring : Scoring) (thresholds limits : Thresholds)
    (trees trees' : List Tree) :
    let before := Model.ofTrees trees
    let after := Model.ofTrees trees'
    let pairing := Pairing.ofModels scoring thresholds before after
    let c : Comparison := { before, after, pairing, thresholds := limits }
    (∀ p ∈ pairing.operations.pairs,
      c.OperationClassified p (before.operationAt p.before) (after.operationAt p.after)) ∧
    (∀ p ∈ pairing.classes.pairs,
      c.ClassClassified p (before.classAt p.before) (after.classAt p.after)) ∧
    (∀ p ∈ pairing.attributes.pairs,
      c.AttributeClassified p (before.attributeAt p.before) (after.attributeAt p.after)) := by
  intro before after pairing c
  have hbefore := Model.grounded_ofTrees trees
  have hafter := Model.grounded_ofTrees trees'
  have h : c.Partitioned (trees.map Tree.path) (trees'.map Tree.path) :=
    { before := hbefore
      after := hafter
      pairing := Pairing.inRange_ofModels hbefore hafter scoring thresholds
      partitions := Pairing.partitions_ofModels hbefore hafter scoring thresholds }
  exact ⟨fun p hp => h.operationClassified hp, fun p hp => h.classClassified hp,
    fun p hp => h.attributeClassified hp⟩

end Comparison

end Reshape
