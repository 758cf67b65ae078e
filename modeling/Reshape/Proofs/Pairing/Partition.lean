import Mathlib
import Reshape.ModelDiff
import Reshape.Proofs.Pairing.Range

/-! # Pairings partition the entities

No entity is in two pairs.  Pairing by key takes every key once on both sides, and a round adds only
candidates that clash neither with each other nor with the pairs made before, whatever their scores
are.  So an entity is either in exactly one pair, or it is listed exactly once as removed or
added. -/

namespace Reshape

/-- Two pairs that have no entity in common. -/
def Pair.Apart (p q : Pair) : Prop :=
  p.before ≠ q.before ∧ p.after ≠ q.after

theorem Pair.Apart.symm {p q : Pair} (h : p.Apart q) : q.Apart p :=
  ⟨h.1.symm, h.2.symm⟩

/-! ### What is accepted does not clash -/

namespace Candidate

theorem apart_of_not_clashes {x y : Candidate} (h : ¬x.clashes y = true) : x.pair.Apart y.pair := by
  simpa [clashes, Pair.Apart, pair] using h

theorem not_clashes_of_mem_acceptFrom {taken candidates : List Candidate} {x y : Candidate}
    (hx : x ∈ acceptFrom taken candidates) (hy : y ∈ taken) : ¬x.clashes y = true := by
  induction candidates generalizing taken with
  | nil => cases hx
  | cons candidate rest ih =>
    rw [acceptFrom] at hx
    split at hx
    · exact ih hx hy
    · rename_i hfree
      rcases List.mem_cons.1 hx with rfl | hx
      · exact fun hclash => hfree (List.any_eq_true.2 ⟨y, hy, hclash⟩)
      · exact ih hx (List.mem_cons_of_mem _ hy)

theorem pairwise_acceptFrom (taken candidates : List Candidate) :
    (acceptFrom taken candidates).Pairwise fun x y => x.pair.Apart y.pair := by
  induction candidates generalizing taken with
  | nil => exact .nil
  | cons candidate rest ih =>
    rw [acceptFrom]
    split
    · exact ih taken
    · refine .cons (fun x hx => ?_) (ih _)
      have hfree := not_clashes_of_mem_acceptFrom hx (List.mem_cons_self ..)
      exact (apart_of_not_clashes hfree).symm

end Candidate

namespace Pairing.View

variable {α : Type} (view : View α) {before after : List α}

/-! ### Pairs have no entity in common -/

/-- A key is taken once, so entities that are paired by key are in no other such pair. -/
theorem pairwise_exactFrom (hbefore : (before.map view.id).Nodup)
    (hafter : (after.map view.id).Nodup) (seen : List (String × String)) :
    (view.exactFrom after seen before).Pairwise Pair.Apart := by
  induction before generalizing seen with
  | nil => exact .nil
  | cons b rest ih =>
    obtain ⟨hb, hrest⟩ := List.nodup_cons.1 hbefore
    rw [exactFrom]
    split
    · exact ih hrest _
    · split
      · rename_i a ha
        refine .cons (fun p hp => ?_) (ih hrest _)
        obtain ⟨b', hb', a', ha', hpb, hpa, hkey, hnew⟩ := view.mem_exactFrom hp
        have hkeya : view.key a = view.key b := by simpa using List.find?_some ha
        refine ⟨fun heq => hb (List.mem_map.2 ⟨b', hb', (heq.trans hpb).symm⟩), fun heq => ?_⟩
        have hsame : a = a' :=
          List.inj_on_of_nodup_map hafter (List.mem_of_find?_eq_some ha) ha' (heq.trans hpa)
        refine hnew (List.mem_cons.2 (.inl ?_))
        rw [← hkey, ← hsame, hkeya]
      · exact ih hrest _

/-- A round keeps pairs apart. -/
theorem pairwise_round {pairs : List Pair} (h : pairs.Pairwise Pair.Apart)
    (related : α → α → Bool) : (view.round before after pairs related).Pairwise Pair.Apart := by
  refine List.pairwise_append.2 ⟨h, List.pairwise_map.2 (Candidate.pairwise_acceptFrom _ _), ?_⟩
  intro p hp q hq
  obtain ⟨candidate, hcandidate, rfl⟩ := List.mem_map.1 hq
  exact (view.mem_candidates (Candidate.mem_of_mem_accept hcandidate)).2 p hp

theorem pairwise_rounds {pairs : List Pair} (h : pairs.Pairwise Pair.Apart)
    (rounds : List (α → α → Bool)) :
    (rounds.foldl (view.round before after) pairs).Pairwise Pair.Apart := by
  induction rounds generalizing pairs with
  | nil => exact h
  | cons related rounds ih => exact ih (view.pairwise_round h related)

theorem pairwise_pairUp {path : α → Path} {paths paths' : List Path} {before after : Array α}
    (hbefore : Numbered view.id path paths before) (hafter : Numbered view.id path paths' after)
    (rounds : List (α → α → Bool)) :
    (view.pairUp rounds before after).pairs.Pairwise Pair.Apart := by
  refine (List.Perm.pairwise_iff (fun {_ _} h => Pair.Apart.symm h)
    (List.mergeSort_perm _ precedes)).2 ?_
  refine view.pairwise_rounds (view.pairwise_exactFrom ?_ ?_ []) rounds
  · rw [hbefore.map_id]
    exact List.nodup_range
  · rw [hafter.map_id]
    exact List.nodup_range

end Pairing.View

/-! ### Partitions -/

/-- A pairing that accounts for `before` and `after` many entities, each once. -/
structure KindPairing.Partitions (before after : Nat) (pairing : KindPairing) : Prop where
  inRange : pairing.InRange before after
  /-- No entity is in two pairs. -/
  before_once : (pairing.pairs.map Pair.before).Nodup
  after_once : (pairing.pairs.map Pair.after).Nodup
  /-- Exactly what is in no pair has been removed or added. -/
  mem_removed : ∀ id, id ∈ pairing.removed ↔ id < before ∧ id ∉ pairing.pairs.map Pair.before
  mem_added : ∀ id, id ∈ pairing.added ↔ id < after ∧ id ∉ pairing.pairs.map Pair.after
  removed_ascending : pairing.removed.Pairwise (· < ·)
  added_ascending : pairing.added.Pairwise (· < ·)
  before_count : pairing.pairs.length + pairing.removed.length = before
  after_count : pairing.pairs.length + pairing.added.length = after

/-- Some numbers below a bound and the remaining ones are as many as the bound says. -/
theorem length_add_length_filter_range {ids : List Nat} {bound : Nat} (honce : ids.Nodup)
    (hlt : ∀ id ∈ ids, id < bound) :
    ids.length + ((List.range bound).filter fun id => !ids.contains id).length = bound := by
  have hperm : ids.Perm ((List.range bound).filter ids.contains) := by
    refine (List.perm_ext_iff_of_nodup honce (List.nodup_range.filter _)).2 fun id => ?_
    rw [List.mem_filter, List.mem_range, List.contains_iff_mem]
    exact ⟨fun hid => ⟨hlt id hid, hid⟩, And.right⟩
  rw [hperm.length_eq, ← List.length_eq_length_filter_add, List.length_range]

namespace KindPairing

variable {before after : Nat} {pairs : List Pair}

theorem any_side_eq_contains (side : Pair → Nat) (id : Nat) :
    (pairs.any fun p => side p == id) = (pairs.map side).contains id := by
  rw [List.contains_eq_any_beq, List.any_map]
  exact congrArg pairs.any (funext fun p => BEq.comm)

@[simp] theorem pairs_ofPairs : (ofPairs before after pairs).pairs = pairs := rfl

theorem removed_ofPairs : (ofPairs before after pairs).removed =
    (List.range before).filter fun id => !(pairs.map Pair.before).contains id := by
  simp only [ofPairs, any_side_eq_contains]

theorem added_ofPairs : (ofPairs before after pairs).added =
    (List.range after).filter fun id => !(pairs.map Pair.after).contains id := by
  simp only [ofPairs, any_side_eq_contains]

/-- Pairs that have no entity in common partition the entities. -/
theorem partitions_ofPairs (hapart : pairs.Pairwise Pair.Apart)
    (hrange : ∀ p ∈ pairs, p.before < before ∧ p.after < after) :
    (ofPairs before after pairs).Partitions before after := by
  have hbefore : (pairs.map Pair.before).Nodup := List.pairwise_map.2 (hapart.imp And.left)
  have hafter : (pairs.map Pair.after).Nodup := List.pairwise_map.2 (hapart.imp And.right)
  have hbefore_lt : ∀ id ∈ pairs.map Pair.before, id < before :=
    List.forall_mem_map.2 fun p hp => (hrange p hp).1
  have hafter_lt : ∀ id ∈ pairs.map Pair.after, id < after :=
    List.forall_mem_map.2 fun p hp => (hrange p hp).2
  constructor
  case inRange => exact inRange_ofPairs hrange
  case before_once => exact hbefore
  case after_once => exact hafter
  case mem_removed =>
    intro id
    rw [removed_ofPairs, List.mem_filter, List.mem_range, Bool.not_eq_true', ← Bool.not_eq_true,
      List.contains_iff_mem, pairs_ofPairs]
  case mem_added =>
    intro id
    rw [added_ofPairs, List.mem_filter, List.mem_range, Bool.not_eq_true', ← Bool.not_eq_true,
      List.contains_iff_mem, pairs_ofPairs]
  case removed_ascending => exact removed_ofPairs ▸ List.pairwise_lt_range.filter _
  case added_ascending => exact added_ofPairs ▸ List.pairwise_lt_range.filter _
  case before_count =>
    have hcount := length_add_length_filter_range hbefore hbefore_lt
    rwa [List.length_map, ← removed_ofPairs] at hcount
  case after_count =>
    have hcount := length_add_length_filter_range hafter hafter_lt
    rwa [List.length_map, ← added_ofPairs] at hcount

end KindPairing

namespace Pairing

/-- The pairing of the entities of one kind. -/
def ofKind (pairing : Pairing) : EntityKind → KindPairing
  | .type => pairing.classes
  | .operation => pairing.operations
  | .attribute => pairing.attributes

theorem View.partitions_pairUp {α : Type} {view : View α} {path : α → Path}
    {paths paths' : List Path} {before after : Array α}
    (hbefore : Numbered view.id path paths before) (hafter : Numbered view.id path paths' after)
    (rounds : List (α → α → Bool)) :
    (view.pairUp rounds before after).Partitions before.size after.size :=
  KindPairing.partitions_ofPairs (view.pairwise_pairUp hbefore hafter rounds)
    (inRange_pairUp hbefore hafter rounds).pairs

/-- The pairing of two models partitions the entities of every kind. -/
theorem partitions_ofModels {before after : Model} {paths paths' : List Path}
    (hbefore : before.Grounded paths) (hafter : after.Grounded paths') (scoring : Scoring)
    (thresholds : Thresholds) (kind : EntityKind) :
    ((ofModels scoring thresholds before after).ofKind kind).Partitions (before.size kind)
      (after.size kind) := by
  cases kind
  · exact View.partitions_pairUp hbefore.classes hafter.classes _
  · exact View.partitions_pairUp hbefore.operations hafter.operations _
  · exact View.partitions_pairUp hbefore.attributes hafter.attributes _

end Pairing

/-! ### Differences report the partition -/

/-- The kinds, in the order in which differences list entities. -/
def EntityKind.all : List EntityKind := [.type, .operation, .attribute]

@[simp] theorem Model.id_entityRef (model : Model) (id : EntityId) :
    (model.entityRef id).id = id := by
  obtain ⟨kind, index⟩ := id
  cases kind <;> rfl

namespace ModelDiff

/-- A difference that lists the entities of a pairing, kind by kind, and no others. -/
structure Reports (diff : ModelDiff) (pairing : Pairing) : Prop where
  matched : (diff.matched.map fun pair => (pair.before.id, pair.after.id, pair.score)) =
    EntityKind.all.flatMap fun kind => (pairing.ofKind kind).pairs.map fun p =>
      (⟨kind, p.before⟩, ⟨kind, p.after⟩, p.score)
  removed : diff.removed.map EntityRef.id =
    EntityKind.all.flatMap fun kind => (pairing.ofKind kind).removed.map (EntityId.mk kind)
  added : diff.added.map EntityRef.id =
    EntityKind.all.flatMap fun kind => (pairing.ofKind kind).added.map (EntityId.mk kind)

theorem ids_matchedOf (before after : Model) (kind : EntityKind) (pairs : List Pair) :
    ((matchedOf before after kind pairs).map fun pair =>
      (pair.before.id, pair.after.id, pair.score)) =
      pairs.map fun p => (⟨kind, p.before⟩, ⟨kind, p.after⟩, p.score) := by
  rw [matchedOf, List.map_map]
  exact List.map_congr_left fun p _ => by simp

theorem ids_refsOf (model : Model) (kind : EntityKind) (ids : List Nat) :
    (refsOf model kind ids).map EntityRef.id = ids.map (EntityId.mk kind) := by
  rw [refsOf, List.map_map]
  exact List.map_congr_left fun id _ => by simp

theorem reports_computeBy (scoring : Scoring) (thresholds : Thresholds) (before after : Model) :
    (computeBy scoring thresholds before after).Reports
      (.ofModels scoring thresholds.clamped before after) := by
  constructor <;>
    simp only [computeBy, List.map_append, ids_matchedOf, ids_refsOf, EntityKind.all,
      Pairing.ofKind, List.flatMap_cons, List.flatMap_nil, List.append_nil, List.append_assoc]

variable {diff : ModelDiff} {pairing : Pairing} {before after : Model}

/-- Two listings that go kind by kind are together as long as their parts. -/
theorem length_add_length_of_kinds {α β γ δ : Type} {xs : List α} {ys : List β} {f : α → γ}
    {g : β → δ} {p : EntityKind → List γ} {q : EntityKind → List δ}
    (hxs : xs.map f = EntityKind.all.flatMap p) (hys : ys.map g = EntityKind.all.flatMap q) :
    xs.length + ys.length =
      (EntityKind.all.map fun kind => (p kind).length + (q kind).length).sum := by
  rw [← List.length_map f, ← List.length_map g, hxs, hys, List.length_flatMap, List.length_flatMap,
    List.sum_map_add]

/-- What is paired and what has been removed are together the entities before. -/
theorem Reports.before_count (h : diff.Reports pairing)
    (hpairing : ∀ kind, (pairing.ofKind kind).Partitions (before.size kind) (after.size kind)) :
    diff.matched.length + diff.removed.length = (EntityKind.all.map before.size).sum := by
  rw [length_add_length_of_kinds h.matched h.removed]
  congr 2
  funext kind
  rw [List.length_map, List.length_map, (hpairing kind).before_count]

/-- What is paired and what has been added are together the entities after. -/
theorem Reports.after_count (h : diff.Reports pairing)
    (hpairing : ∀ kind, (pairing.ofKind kind).Partitions (before.size kind) (after.size kind)) :
    diff.matched.length + diff.added.length = (EntityKind.all.map after.size).sum := by
  rw [length_add_length_of_kinds h.matched h.added]
  congr 2
  funext kind
  rw [List.length_map, List.length_map, (hpairing kind).after_count]

end ModelDiff

namespace Pairing

/-- **The entities are partitioned.**  For any two models, thresholds and scores, the pairing of
every kind holds each entity in at most one pair and lists exactly the others, ascending, as removed
or added.  The difference of the models reports such a pairing: the one for the clamped
thresholds. -/
theorem entities_partitioned (scoring : Scoring) (thresholds : Thresholds)
    (trees trees' : List Tree) :
    let before := Model.ofTrees trees
    let after := Model.ofTrees trees'
    let diff := ModelDiff.computeBy scoring thresholds before after
    (∀ kind, ((ofModels scoring thresholds before after).ofKind kind).Partitions (before.size kind)
      (after.size kind)) ∧
    diff.Reports (ofModels scoring thresholds.clamped before after) ∧
    (∀ kind, ((ofModels scoring thresholds.clamped before after).ofKind kind).Partitions
      (before.size kind) (after.size kind)) ∧
    diff.matched.length + diff.removed.length = (EntityKind.all.map before.size).sum ∧
    diff.matched.length + diff.added.length = (EntityKind.all.map after.size).sum := by
  intro before after diff
  have hpartitions : ∀ thresholds kind,
      ((ofModels scoring thresholds before after).ofKind kind).Partitions (before.size kind)
        (after.size kind) :=
    partitions_ofModels (Model.grounded_ofTrees trees) (Model.grounded_ofTrees trees') scoring
  have hreports := ModelDiff.reports_computeBy scoring thresholds before after
  exact ⟨hpartitions thresholds, hreports, hpartitions thresholds.clamped,
    hreports.before_count (hpartitions _), hreports.after_count (hpartitions _)⟩

end Pairing

end Reshape
