import Mathlib
import Reshape.Pairing
import Reshape.Proofs.Model.Entities

/-! # Pairings speak of entities that exist

Pairs are made of the entities of two models, and whatever is in no pair is listed from the same
numbers.  So a pairing of two models never holds a number that is out of range. -/

namespace Reshape

/-- A pairing of `before` and `after` many entities that holds no other numbers. -/
structure KindPairing.InRange (before after : Nat) (pairing : KindPairing) : Prop where
  pairs : ∀ p ∈ pairing.pairs, p.before < before ∧ p.after < after
  removed : ∀ id ∈ pairing.removed, id < before
  added : ∀ id ∈ pairing.added, id < after

theorem KindPairing.inRange_ofPairs {before after : Nat} {pairs : List Pair}
    (h : ∀ p ∈ pairs, p.before < before ∧ p.after < after) :
    (KindPairing.ofPairs before after pairs).InRange before after :=
  ⟨h, fun _ hid => List.mem_range.1 (List.mem_of_mem_filter hid),
    fun _ hid => List.mem_range.1 (List.mem_of_mem_filter hid)⟩

theorem Candidate.acceptFrom_sublist (taken candidates : List Candidate) :
    (acceptFrom taken candidates).Sublist candidates := by
  induction candidates generalizing taken with
  | nil => exact List.Sublist.slnil
  | cons candidate rest ih =>
    rw [acceptFrom]
    split
    · exact (ih taken).cons candidate
    · exact (ih _).cons_cons candidate

theorem Candidate.mem_of_mem_accept {candidate : Candidate} {candidates : List Candidate}
    (h : candidate ∈ accept candidates) : candidate ∈ candidates :=
  (List.mergeSort_perm _ _).mem_iff.1 ((acceptFrom_sublist _ _).subset h)

namespace Pairing

namespace View

variable {α : Type} (view : View α) {before after : List α} {p : Pair}

/-- A pair of numbers of two entities. -/
def Joins (before after : List α) (p : Pair) : Prop :=
  ∃ b ∈ before, ∃ a ∈ after, p.before = view.id b ∧ p.after = view.id a

/-- Entities that are paired by key have one key, and it had not been seen. -/
theorem mem_exactFrom {seen : List (String × String)} (h : p ∈ view.exactFrom after seen before) :
    ∃ b ∈ before, ∃ a ∈ after, p.before = view.id b ∧ p.after = view.id a ∧
      view.key a = view.key b ∧ view.key b ∉ seen := by
  induction before generalizing seen with
  | nil => cases h
  | cons b rest ih =>
    have hlater : p ∈ view.exactFrom after (view.key b :: seen) rest →
        ∃ b' ∈ b :: rest, ∃ a ∈ after, p.before = view.id b' ∧ p.after = view.id a ∧
          view.key a = view.key b' ∧ view.key b' ∉ seen := by
      intro hp
      obtain ⟨b', hb', a, ha, hpb, hpa, hkey, hnew⟩ := ih hp
      exact ⟨b', List.mem_cons_of_mem _ hb', a, ha, hpb, hpa, hkey,
        fun hseen => hnew (List.mem_cons_of_mem _ hseen)⟩
    rw [exactFrom] at h
    split at h
    · exact hlater h
    · rename_i hseen
      split at h
      · rename_i a ha
        rcases List.mem_cons.1 h with rfl | h
        · exact ⟨b, List.mem_cons_self .., a, List.mem_of_find?_eq_some ha, rfl, rfl,
            by simpa using List.find?_some ha, fun hb => hseen (List.contains_iff_mem.2 hb)⟩
        · exact hlater h
      · exact hlater h

theorem joins_exactFrom {seen : List (String × String)} (h : p ∈ view.exactFrom after seen before) :
    view.Joins before after p := by
  obtain ⟨b, hb, a, ha, hpb, hpa, -⟩ := view.mem_exactFrom h
  exact ⟨b, hb, a, ha, hpb, hpa⟩

/-- Candidates are made of entities that are in no pair yet. -/
theorem mem_candidates {pairs : List Pair} {related : α → α → Bool} {candidate : Candidate}
    (h : candidate ∈ view.candidates related before after pairs) :
    view.Joins before after candidate.pair ∧
      ∀ p ∈ pairs, p.before ≠ candidate.before ∧ p.after ≠ candidate.after := by
  obtain ⟨b, hb, h⟩ := List.mem_flatMap.1 h
  obtain ⟨a, ha, h⟩ := List.mem_filterMap.1 h
  obtain ⟨ha, -⟩ := List.mem_filter.1 ha
  obtain ⟨hb, hfreeb⟩ := List.mem_filter.1 hb
  obtain ⟨ha, hfreea⟩ := List.mem_filter.1 ha
  rw [candidate?] at h
  split at h
  · obtain rfl := Option.some.inj h
    simp only [Bool.not_eq_true', List.any_eq_false, beq_iff_eq] at hfreeb hfreea
    exact ⟨⟨b, hb, a, ha, rfl, rfl⟩, fun p hp => ⟨hfreeb p hp, hfreea p hp⟩⟩
  · cases h

theorem joins_round {pairs : List Pair} {related : α → α → Bool}
    (hpairs : ∀ p ∈ pairs, view.Joins before after p)
    (h : p ∈ view.round before after pairs related) : view.Joins before after p := by
  rcases List.mem_append.1 h with h | h
  · exact hpairs p h
  · obtain ⟨candidate, hcandidate, rfl⟩ := List.mem_map.1 h
    exact (view.mem_candidates (Candidate.mem_of_mem_accept hcandidate)).1

variable {view}

/-- Pairing numbered entities yields their numbers only. -/
theorem inRange_pairUp {path : α → Path} {paths paths' : List Path} {before after : Array α}
    (hbefore : Numbered view.id path paths before) (hafter : Numbered view.id path paths' after)
    (rounds : List (α → α → Bool)) :
    (view.pairUp rounds before after).InRange before.size after.size := by
  have hrounds : ∀ pairs : List Pair, (∀ p ∈ pairs, view.Joins before.toList after.toList p) →
      ∀ p ∈ rounds.foldl (view.round before.toList after.toList) pairs,
        view.Joins before.toList after.toList p := by
    induction rounds with
    | nil => exact fun _ hpairs => hpairs
    | cons related rounds ih =>
      exact fun pairs hpairs => ih _ fun p hp => view.joins_round hpairs hp
  refine KindPairing.inRange_ofPairs fun p hp => ?_
  obtain ⟨b, hb, a, ha, hpb, hpa⟩ := hrounds _ (fun p hp => view.joins_exactFrom hp) p
    ((List.mergeSort_perm _ _).mem_iff.1 hp)
  rw [hpb, hpa]
  exact ⟨hbefore.lt_size (Array.mem_toList_iff.1 hb), hafter.lt_size (Array.mem_toList_iff.1 ha)⟩

end View

/-- A pairing of the entities of two models that holds no other numbers. -/
structure InRange (before after : Model) (pairing : Pairing) : Prop where
  classes : pairing.classes.InRange before.classes.size after.classes.size
  operations : pairing.operations.InRange before.operations.size after.operations.size
  attributes : pairing.attributes.InRange before.attributes.size after.attributes.size

theorem inRange_ofModels {before after : Model} {paths paths' : List Path}
    (hbefore : before.Grounded paths) (hafter : after.Grounded paths') (scoring : Scoring)
    (thresholds : Thresholds) : (ofModels scoring thresholds before after).InRange before after :=
  ⟨View.inRange_pairUp hbefore.classes hafter.classes _,
    View.inRange_pairUp hbefore.operations hafter.operations _,
    View.inRange_pairUp hbefore.attributes hafter.attributes _⟩

end Pairing

end Reshape
