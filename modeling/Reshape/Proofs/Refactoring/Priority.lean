import Mathlib
import Reshape.Proofs.Refactoring.Resolution

/-! # Conflicts are decided by priority

The resolution of conflicts goes through the refactorings by rank and remembers, for every pair of
entities, only the group that reserved it first.  It would have to remember every group that holds
the pair, were it not for a fact about exclusion: a group that shares a pair with a stronger one
excludes no weaker group that the stronger one tolerates.  So a refactoring is dropped exactly if
one that is kept beats it.

This determines what is kept, whatever the order of the list is: by rank, each refactoring is
decided by stronger ones alone. -/

namespace Reshape

/-! ### Groups -/

namespace Group

theorem rank_injective : Function.Injective rank := by
  intro a b
  cases a <;> cases b <;> decide

theorem excludes_self (group : Group) : group.excludes group = false := by
  cases group <;> rfl

theorem excludes_comm (a b : Group) : a.excludes b = b.excludes a := by
  cases a <;> cases b <;> rfl

/-- The group that reserved a pair first excludes whatever a later holder of the pair excludes. -/
theorem excludes_of_tolerates {first holder group : Group} (hrank : first.rank ≤ holder.rank)
    (htolerates : first.excludes holder = false) (hweaker : holder.rank < group.rank)
    (hexcludes : holder.excludes group = true) : first.excludes group = true := by
  revert hrank htolerates hweaker hexcludes
  cases first <;> cases holder <;> cases group <;> decide

end Group

namespace Refactoring

variable {found kept : List Refactoring} {r : Refactoring}

/-! ### The order of the list -/

theorem listedFirst_iff {r s : Refactoring} : r.listedFirst s = true ↔
    r.group.rank < s.group.rank ∨ r.group.rank = s.group.rank ∧ r.description ≤ s.description := by
  simp [listedFirst]

theorem rank_le_of_listedFirst {r s : Refactoring} (h : r.listedFirst s = true) :
    r.group.rank ≤ s.group.rank := by
  rcases listedFirst_iff.1 h with h | h
  · exact h.le
  · exact h.1.le

theorem listedFirst_trans (r s t : Refactoring) (hrs : r.listedFirst s = true)
    (hst : s.listedFirst t = true) : r.listedFirst t = true := by
  rw [listedFirst_iff] at *
  rcases hrs with hrs | ⟨hrs, hdescription⟩ <;> rcases hst with hst | ⟨hst, hdescription'⟩
  · exact .inl (hrs.trans hst)
  · exact .inl (hst ▸ hrs)
  · exact .inl (hrs ▸ hst)
  · exact .inr ⟨hrs.trans hst, String.le_trans hdescription hdescription'⟩

theorem listedFirst_total (r s : Refactoring) : (r.listedFirst s || s.listedFirst r) = true := by
  rw [Bool.or_eq_true, listedFirst_iff, listedFirst_iff]
  rcases Nat.lt_trichotomy r.group.rank s.group.rank with h | h | h
  · exact .inl (.inl h)
  · rcases String.le_total r.description s.description with h' | h'
    · exact .inl (.inr ⟨h, h'⟩)
    · exact .inr (.inr ⟨h.symm, h'⟩)
  · exact .inr (.inl h)

theorem pairwise_sorted (found : List Refactoring) :
    (found.mergeSort listedFirst).Pairwise fun r s => r.listedFirst s = true :=
  List.pairwise_mergeSort listedFirst_trans listedFirst_total found

/-! ### Reservations stand for what is kept -/

/-- A refactoring beats one of a weaker group that its group excludes, if both relate one pair of
entities. -/
def Beats (r s : Refactoring) : Prop :=
  r.group.rank < s.group.rank ∧ r.group.excludes s.group = true ∧ ∃ key ∈ r.keys, key ∈ s.keys

instance (r s : Refactoring) : Decidable (r.Beats s) :=
  inferInstanceAs (Decidable (_ ∧ _ ∧ _))

/-- Refactorings that were kept by rank, and the reservations that they made: on every pair that of
the first one to relate it. -/
structure Reserved (kept : List Refactoring) (reservations : Reservations) : Prop where
  ranked : kept.Pairwise fun r s => r.group.rank ≤ s.group.rank
  tolerant : kept.Pairwise fun r s => ∀ key ∈ r.keys, key ∈ s.keys →
    r.group.excludes s.group = false
  lookup : ∀ key, reservations.lookup key = (kept.find? (key ∈ ·.keys)).map Refactoring.group

theorem reserved_nil : Reserved [] [] :=
  ⟨.nil, .nil, fun _ => rfl⟩

namespace Reserved

variable {reservations : Reservations}

/-- One reservation for every pair is enough to tell whether a refactoring is beaten. -/
theorem isExcluded_iff (h : Reserved kept reservations)
    (hrank : ∀ k ∈ kept, k.group.rank ≤ r.group.rank) :
    isExcluded reservations r = true ↔ ∃ k ∈ kept, k.Beats r := by
  simp only [isExcluded, List.any_eq_true, h.lookup, Option.any_eq_true, Option.map_eq_some_iff]
  constructor
  · rintro ⟨key, hkey, _, ⟨first, hfirst, rfl⟩, hexcludes⟩
    have hmem := List.mem_of_find?_eq_some hfirst
    have hne : first.group.rank ≠ r.group.rank := by
      intro heq
      rw [Group.rank_injective heq, Group.excludes_self] at hexcludes
      cases hexcludes
    exact ⟨first, hmem, lt_of_le_of_ne (hrank first hmem) hne, hexcludes, key,
      by simpa using List.find?_some hfirst, hkey⟩
  · rintro ⟨k, hk, hweaker, hexcludes, key, hkeyk, hkeyr⟩
    have hsome : (kept.find? (key ∈ ·.keys)).isSome = true :=
      List.find?_isSome.2 ⟨k, hk, decide_eq_true hkeyk⟩
    obtain ⟨first, hfirst⟩ := Option.isSome_iff_exists.1 hsome
    refine ⟨key, hkeyr, first.group, ⟨first, hfirst, rfl⟩, ?_⟩
    -- `first` comes no later than `k` among the refactorings kept
    obtain ⟨hkeyfirst, left, right, rfl, hleft⟩ := List.find?_eq_some_iff_append.1 hfirst
    have hkeyfirst : key ∈ first.keys := by simpa using hkeyfirst
    rcases List.mem_append.1 hk with hk | hk
    · exact absurd hkeyk (by simpa using hleft k hk)
    rcases List.mem_cons.1 hk with rfl | hk
    · exact hexcludes
    have hranked := (List.pairwise_cons.1 (List.pairwise_append.1 h.ranked).2.1).1 k hk
    have htolerant := (List.pairwise_cons.1 (List.pairwise_append.1 h.tolerant).2.1).1 k hk
    exact Group.excludes_of_tolerates hranked (htolerant key hkeyfirst hkeyk) hweaker hexcludes

/-- A refactoring that is not beaten joins those that are kept. -/
theorem keep (h : Reserved kept reservations) (hrank : ∀ k ∈ kept, k.group.rank ≤ r.group.rank)
    (hunbeaten : ∀ k ∈ kept, ¬k.Beats r) :
    Reserved (kept ++ [r]) (r.keys.foldl (reserve r.group) reservations) := by
  constructor
  case ranked =>
    refine List.pairwise_append.2 ⟨h.ranked, List.pairwise_singleton _ _, fun k hk s hs => ?_⟩
    exact List.mem_singleton.1 hs ▸ hrank k hk
  case tolerant =>
    refine List.pairwise_append.2 ⟨h.tolerant, List.pairwise_singleton _ _, ?_⟩
    intro k hk s hs key hkeyk hkeys
    obtain rfl := List.mem_singleton.1 hs
    rcases (hrank k hk).lt_or_eq with hlt | heq
    · exact Bool.eq_false_iff.2 fun hexcludes =>
        hunbeaten k hk ⟨hlt, hexcludes, key, hkeyk, hkeys⟩
    · rw [Group.rank_injective heq, Group.excludes_self]
  case lookup =>
    intro key
    rw [lookup_foldl_reserve, h.lookup, List.find?_append, List.find?_singleton]
    by_cases hkey : key ∈ r.keys <;> cases kept.find? (key ∈ ·.keys) <;> simp [hkey]

/-- Going through the rest of a sorted list keeps what is beaten by nothing that is kept. -/
theorem resolveFrom_eq (h : Reserved kept reservations) {rest : List Refactoring}
    (hsorted : (kept ++ rest).Pairwise fun r s => r.group.rank ≤ s.group.rank) :
    resolveFrom reservations rest =
      rest.filter fun r => ∀ k ∈ kept ++ resolveFrom reservations rest, ¬k.Beats r := by
  induction rest generalizing kept reservations with
  | nil => rfl
  | cons r rest ih =>
    have hrank : ∀ k ∈ kept, k.group.rank ≤ r.group.rank := fun k hk =>
      (List.pairwise_append.1 hsorted).2.2 k hk r (List.mem_cons_self ..)
    have hiff := h.isExcluded_iff hrank
    rw [resolveFrom]
    split
    · rename_i hexcluded
      obtain ⟨k, hk, hbeats⟩ := hiff.1 hexcluded
      rw [List.filter_cons_of_neg, ← ih h]
      · exact hsorted.sublist (.append_left (List.sublist_cons_self _ _) _)
      · simp only [decide_eq_true_eq, not_forall, not_not]
        exact ⟨k, List.mem_append_left _ hk, hbeats⟩
    · rename_i hkept
      have hunbeaten : ∀ k ∈ kept, ¬k.Beats r := fun k hk hbeats => hkept (hiff.2 ⟨k, hk, hbeats⟩)
      have hlater : ∀ k ∈ r :: rest, ¬k.Beats r := by
        intro k hk hbeats
        rcases List.mem_cons.1 hk with rfl | hk
        · exact hbeats.1.false
        · have hle := (List.pairwise_cons.1 (List.pairwise_append.1 hsorted).2.1).1 k hk
          exact hbeats.1.not_ge hle
      have htail := ih (h.keep hrank hunbeaten) (by simpa using hsorted)
      rw [List.append_assoc, List.singleton_append] at htail
      rw [List.filter_cons_of_pos, ← htail]
      simp only [decide_eq_true_eq]
      intro k hk
      rcases List.mem_append.1 hk with hk | hk
      · exact hunbeaten k hk
      · refine hlater k (List.cons_subset_cons r ?_ hk)
        exact (Comparison.resolveFrom_sublist _ _).subset

end Reserved

theorem resolve_eq_filter (found : List Refactoring) : resolve found =
    (found.mergeSort listedFirst).filter fun r => ∀ k ∈ resolve found, ¬k.Beats r :=
  reserved_nil.resolveFrom_eq ((pairwise_sorted found).imp rank_le_of_listedFirst)

theorem mem_resolve {found : List Refactoring} :
    r ∈ resolve found ↔ r ∈ found ∧ ∀ k ∈ resolve found, ¬k.Beats r := by
  conv_lhs => rw [resolve_eq_filter]
  rw [List.mem_filter, (List.mergeSort_perm _ _).mem_iff, decide_eq_true_eq]

/-! ### What is kept does not depend on the order -/

/-- Of some refactorings exactly those are kept that are beaten by nothing that is kept. -/
def Settles (kept found : List Refactoring) : Prop :=
  ∀ r, r ∈ kept ↔ r ∈ found ∧ ∀ k ∈ kept, ¬k.Beats r

/-- Stronger groups decide what is kept of weaker ones, so there is only one way to settle
conflicts. -/
theorem Settles.mem_iff {kept' found' : List Refactoring} (h : Settles kept found)
    (h' : Settles kept' found') (hsame : ∀ r, r ∈ found ↔ r ∈ found') (r : Refactoring) :
    r ∈ kept ↔ r ∈ kept' := by
  induction hn : r.group.rank using Nat.strongRecOn generalizing r with
  | ind n ih =>
    have hstronger : ∀ k, k.Beats r → (k ∈ kept ↔ k ∈ kept') := fun k hbeats =>
      ih k.group.rank (hn ▸ hbeats.1) k rfl
    rw [h r, h' r, hsame r]
    refine and_congr_right fun _ =>
      ⟨fun hunbeaten k hk hbeats => ?_, fun hunbeaten k hk hbeats => ?_⟩
    · exact hunbeaten k ((hstronger k hbeats).2 hk) hbeats
    · exact hunbeaten k ((hstronger k hbeats).1 hk) hbeats

theorem settles_resolve (found : List Refactoring) : Settles (resolve found) found :=
  fun _ => mem_resolve

theorem resolve_perm {other : List Refactoring} (h : other.Perm found) :
    (resolve other).Perm (resolve found) := by
  have hsame := (settles_resolve other).mem_iff (settles_resolve found) fun _ => h.mem_iff
  have hsorted : (other.mergeSort listedFirst).Perm (found.mergeSort listedFirst) :=
    (List.mergeSort_perm _ _).trans (h.trans (List.mergeSort_perm _ _).symm)
  rw [resolve_eq_filter other, resolve_eq_filter found]
  simp only [hsame]
  exact hsorted.filter _

/-- Of two refactorings that are kept and share a pair, the stronger one tolerates the weaker
one. -/
theorem excludes_eq_false_of_mem_resolve {s : Refactoring} (hr : r ∈ resolve found)
    (hs : s ∈ resolve found) {key : PairKey} (hkeyr : key ∈ r.keys) (hkeys : key ∈ s.keys) :
    r.group.excludes s.group = false := by
  rcases Nat.lt_trichotomy r.group.rank s.group.rank with hlt | heq | hlt
  · refine Bool.eq_false_iff.2 fun hexcludes => ?_
    exact (mem_resolve.1 hs).2 r hr ⟨hlt, hexcludes, key, hkeyr, hkeys⟩
  · rw [Group.rank_injective heq, Group.excludes_self]
  · refine Bool.eq_false_iff.2 fun hexcludes => ?_
    rw [Group.excludes_comm] at hexcludes
    exact (mem_resolve.1 hr).2 s hs ⟨hlt, hexcludes, key, hkeys, hkeyr⟩

/-- What is left of a list without conflicts is the list itself, if it is sorted. -/
theorem resolve_resolve (found : List Refactoring) : resolve (resolve found) = resolve found := by
  have hsorted : (resolve found).Pairwise fun r s => r.listedFirst s = true :=
    (pairwise_sorted found).sublist (Comparison.resolveFrom_sublist _ _)
  rw [resolve_eq_filter (resolve found), List.mergeSort_of_pairwise hsorted, List.filter_eq_self]
  intro r hr
  rw [decide_eq_true_eq]
  intro k hk
  exact (mem_resolve.1 hr).2 k (mem_resolve.1 hk).1

/-- **Conflicts are resolved by priority.**  A refactoring is kept exactly if no refactoring that is
kept, of a stronger group that excludes its group, relates a pair of entities with it; the kept ones
are listed by rank.  So no two of them that share a pair exclude each other, and each one that is
dropped is beaten by one that is kept.  Neither the order of the list nor a second resolution makes
a difference. -/
theorem conflicts_resolved_by_priority (found : List Refactoring) :
    (∀ r ∈ found, r ∈ resolve found ↔ ¬∃ k ∈ resolve found, k.Beats r) ∧
    (resolve found = (found.mergeSort listedFirst).filter fun r => ∀ k ∈ resolve found,
      ¬k.Beats r) ∧
    (∀ r ∈ resolve found, ∀ s ∈ resolve found, ∀ key ∈ r.keys, key ∈ s.keys →
      r.group.excludes s.group = false) ∧
    (∀ r ∈ found, r ∉ resolve found → ∃ k ∈ resolve found, k.Beats r) ∧
    (∀ other : List Refactoring, other.Perm found → (resolve other).Perm (resolve found)) ∧
    resolve (resolve found) = resolve found := by
  have hkept : ∀ r ∈ found, r ∈ resolve found ↔ ¬∃ k ∈ resolve found, k.Beats r := by
    intro r hr
    rw [mem_resolve, and_iff_right hr]
    simp only [not_exists, not_and]
  have hbeaten : ∀ r ∈ found, r ∉ resolve found → ∃ k ∈ resolve found, k.Beats r :=
    fun r hr hdropped => not_not.1 fun hunbeaten => hdropped ((hkept r hr).2 hunbeaten)
  exact ⟨hkept, resolve_eq_filter found, fun r hr s hs key hkeyr hkeys =>
    excludes_eq_false_of_mem_resolve hr hs hkeyr hkeys, hbeaten, fun _ => resolve_perm,
    resolve_resolve found⟩

end Refactoring

end Reshape
