import Mathlib
import Reshape.Sequence.Overlap

/-! # Overlap and first-come pairing

The overlap of two lists counts every value as often as it occurs in both.  It can be found by
counting one list and using up the counts along the other.  First-come pairing attains it: an item
that is taken is gone for the items that follow, so what is left has one occurrence less of one
value on either side.  It makes no difference whether a taken item is removed from the list or stays
there with its number marked as used. -/

namespace Reshape.Sequence

variable {α : Type} [DecidableEq α] {xs ys : List α} {numbered : List (α × Nat)} {used : List Nat}

/-! ### Overlap -/

theorem overlap_eq_length_bagInter (xs ys : List α) : overlap xs ys = (xs.bagInter ys).length := by
  induction xs generalizing ys with
  | nil => rw [overlap, List.nil_bagInter, List.length_nil]
  | cons x xs ih =>
    rw [overlap]
    split
    · rename_i hx
      rw [List.cons_bagInter_of_mem xs (List.contains_iff_mem.1 hx), List.length_cons, ih]
    · rename_i hx
      rw [List.cons_bagInter_of_not_mem xs fun hmem => hx (List.contains_iff_mem.2 hmem), ih]

/-- The overlap is the sum of the smaller multiplicities. -/
theorem overlap_eq_sum (xs ys : List α) :
    overlap xs ys = ∑ x ∈ xs.toFinset ∪ ys.toFinset, min (xs.count x) (ys.count x) := by
  rw [overlap_eq_length_bagInter, ← List.sum_toFinset_count_eq_length]
  simp only [List.count_bagInter]
  refine Finset.sum_subset (fun x hx => ?_) fun x _ hx => ?_
  · have hmem := List.mem_toFinset.1 hx
    exact Finset.mem_union_left _ (List.mem_toFinset.2 (List.bagInter_sublist_left.subset hmem))
  · rw [← List.count_bagInter]
    exact List.count_eq_zero.2 fun hmem => hx (List.mem_toFinset.2 hmem)

theorem overlap_comm (xs ys : List α) : overlap xs ys = overlap ys xs := by
  rw [overlap_eq_sum, overlap_eq_sum, Finset.union_comm]
  exact Finset.sum_congr rfl fun x _ => min_comm _ _

theorem overlap_le_left (xs ys : List α) : overlap xs ys ≤ xs.length := by
  rw [overlap_eq_length_bagInter]
  exact List.bagInter_sublist_left.length_le

theorem overlap_le_right (xs ys : List α) : overlap xs ys ≤ ys.length := by
  rw [overlap_comm]
  exact overlap_le_left ys xs

/-- Use up counts along a list, and count how often one was there. -/
def useUp (counts : α → Nat) : List α → Nat
  | [] => 0
  | y :: ys =>
    if 0 < counts y then useUp (Function.update counts y (counts y - 1)) ys + 1 else useUp counts ys

theorem update_count_erase (xs : List α) (y : α) :
    Function.update (xs.count ·) y (xs.count y - 1) = ((xs.erase y).count ·) := by
  funext z
  by_cases hz : z = y
  · subst hz
    simp
  · simp [hz, List.count_erase_of_ne]

/-- Counting one list and using up the counts along the other finds the overlap. -/
theorem useUp_count (xs ys : List α) : useUp (xs.count ·) ys = overlap xs ys := by
  rw [overlap_comm]
  induction ys generalizing xs with
  | nil => rfl
  | cons y ys ih =>
    rw [useUp, overlap, update_count_erase, ih, ih]
    simp

/-! ### First-come pairing -/

theorem map_fst_eraseP (numbered : List (α × Nat)) (x : α) :
    (numbered.eraseP (·.1 == x)).map Prod.fst = (numbered.map Prod.fst).erase x := by
  rw [List.erase_eq_eraseP, List.eraseP_map]
  congr 2
  funext item
  exact BEq.comm

theorem contains_map_fst (numbered : List (α × Nat)) (x : α) :
    (numbered.map Prod.fst).contains x = (numbered.find? (·.1 == x)).isSome := by
  rw [Bool.eq_iff_iff, List.contains_iff_mem, List.find?_isSome, List.mem_map]
  simp only [beq_iff_eq]

/-- Every item finds a partner as long as there are enough of its value. -/
theorem length_firstComeFrom (start : Nat) (xs : List α) (numbered : List (α × Nat)) :
    (firstComeFrom start xs numbered).length = overlap xs (numbered.map Prod.fst) := by
  induction xs generalizing start numbered with
  | nil => rfl
  | cons x xs ih =>
    rw [firstComeFrom, overlap, contains_map_fst]
    cases numbered.find? (·.1 == x) with
    | none => exact ih ..
    | some item =>
      rw [Option.isSome_some, if_pos rfl, List.length_cons, ih, map_fst_eraseP]

theorem perm_cons_eraseP {β : Type} {items : List β} {p : β → Bool} {item : β}
    (h : items.find? p = some item) : items.Perm (item :: items.eraseP p) := by
  obtain ⟨hp, before, after, rfl, hbefore⟩ := List.find?_eq_some_iff_append.1 h
  rw [List.eraseP_append_right _ (by simpa using hbefore), List.eraseP_cons_of_pos hp]
  exact List.perm_middle

/-- What is paired are equal items, each at its own place. -/
theorem getElem?_of_mem_firstComeFrom {start : Nat} {p : Nat × Nat}
    (h : p ∈ firstComeFrom start xs numbered) :
    start ≤ p.1 ∧ ∃ x, xs[p.1 - start]? = some x ∧ (x, p.2) ∈ numbered := by
  induction xs generalizing start numbered with
  | nil => cases h
  | cons x xs ih =>
    rw [firstComeFrom] at h
    -- What is paired later is paired among the items that follow, and with what is left by then.
    have later : ∀ {rest : List (α × Nat)}, rest.Sublist numbered →
        p ∈ firstComeFrom (start + 1) xs rest →
        start ≤ p.1 ∧ ∃ z, (x :: xs)[p.1 - start]? = some z ∧ (z, p.2) ∈ numbered := by
      intro rest hrest hp
      obtain ⟨hle, z, hz, hmem⟩ := ih hp
      refine ⟨by omega, z, ?_, hrest.subset hmem⟩
      rwa [show p.1 - start = p.1 - (start + 1) + 1 by omega, List.getElem?_cons_succ]
    split at h
    · rename_i y j hfind
      rcases List.mem_cons.1 h with rfl | h
      · have hy : y = x := by simpa using List.find?_some hfind
        exact ⟨Nat.le_refl _, x, by simp, hy ▸ List.mem_of_find?_eq_some hfind⟩
      · exact later List.eraseP_sublist h
    · exact later (List.Sublist.refl _) h

theorem mem_firstCome {p : Nat × Nat} (h : p ∈ firstCome xs numbered) :
    p.1 < xs.length ∧ p.2 ∈ numbered.map Prod.snd := by
  obtain ⟨-, x, hx, hmem⟩ := getElem?_of_mem_firstComeFrom h
  exact ⟨(List.getElem?_eq_some_iff.1 hx).1, List.mem_map_of_mem hmem⟩

/-- Items are taken from left to right. -/
theorem pairwise_firstComeFrom (start : Nat) (xs : List α) (numbered : List (α × Nat)) :
    (firstComeFrom start xs numbered).Pairwise fun p q => p.1 < q.1 := by
  induction xs generalizing start numbered with
  | nil => exact .nil
  | cons x xs ih =>
    rw [firstComeFrom]
    split
    · refine List.pairwise_cons.2 ⟨fun q hq => ?_, ih ..⟩
      exact (getElem?_of_mem_firstComeFrom hq).1
    · exact ih ..

/-- No partner is taken more often than it is there. -/
theorem subperm_firstComeFrom (start : Nat) (xs : List α) (numbered : List (α × Nat)) :
    ((firstComeFrom start xs numbered).map Prod.snd).Subperm (numbered.map Prod.snd) := by
  induction xs generalizing start numbered with
  | nil => exact List.nil_subperm
  | cons x xs ih =>
    rw [firstComeFrom]
    split
    · rename_i y j hfind
      have hperm := (perm_cons_eraseP hfind).map Prod.snd
      rw [List.map_cons] at hperm ⊢
      exact (hperm.subperm_left).2 ((List.subperm_cons j).2 (ih ..))
    · exact ih ..

/-- Places of equal items in two lists, no place taken twice. -/
structure PairsEqual (xs ys : List α) (pairs : List (Nat × Nat)) : Prop where
  equal : ∀ p ∈ pairs, ∃ x, xs[p.1]? = some x ∧ ys[p.2]? = some x
  nodup_left : (pairs.map Prod.fst).Nodup
  nodup_right : (pairs.map Prod.snd).Nodup

omit [DecidableEq α] in
theorem nodup_places (h : numbered.Sublist ys.zipIdx) : (numbered.map Prod.snd).Nodup := by
  have hall : (ys.zipIdx.map Prod.snd).Nodup := by
    rw [List.zipIdx_map_snd]
    exact List.nodup_range'
  exact hall.sublist (h.map _)

/-- First-come pairing with items of a list that carry their places in it. -/
theorem pairsEqual_firstCome (xs : List α) (h : numbered.Sublist ys.zipIdx) :
    PairsEqual xs ys (firstCome xs numbered) where
  equal p hp := by
    obtain ⟨-, x, hx, hmem⟩ := getElem?_of_mem_firstComeFrom hp
    exact ⟨x, hx, List.mem_zipIdx_iff_getElem?.1 (h.subset hmem)⟩
  nodup_left := by
    rw [List.Nodup, List.pairwise_map]
    exact (pairwise_firstComeFrom 0 xs numbered).imp fun hlt => Nat.ne_of_lt hlt
  nodup_right := by
    obtain ⟨partners, hperm, hsub⟩ := subperm_firstComeFrom 0 xs numbered
    exact hperm.nodup_iff.1 ((nodup_places h).sublist hsub)

/-! ### Marking what is taken -/

/-- Pair the items of a list, numbered from `i` on, with the first equal item whose number is not
marked as used, and mark it. -/
def markFrom (i : Nat) (used : List Nat) : List α → List (α × Nat) → List (Nat × Nat)
  | [], _ => []
  | x :: xs, ys =>
    match ys.find? fun y => !used.contains y.2 && y.1 == x with
    | some (_, j) => (i, j) :: markFrom (i + 1) (j :: used) xs ys
    | none => markFrom (i + 1) used xs ys

omit [DecidableEq α] in
theorem eraseP_eq_filter {item : α × Nat} {p : α × Nat → Bool}
    (hnodup : (numbered.map Prod.snd).Nodup) (h : numbered.find? p = some item) :
    numbered.eraseP p = numbered.filter (·.2 != item.2) := by
  obtain ⟨hp, before, after, rfl, hbefore⟩ := List.find?_eq_some_iff_append.1 h
  rw [List.eraseP_append_right _ (by simpa using hbefore), List.eraseP_cons_of_pos hp]
  rw [List.map_append, List.map_cons, List.nodup_middle, List.nodup_cons,
    ← List.map_append] at hnodup
  have hothers : ∀ other ∈ before ++ after, (other.2 != item.2) = true := fun other hother =>
    bne_iff_ne.2 fun heq => hnodup.1 (heq ▸ List.mem_map_of_mem hother)
  rw [List.filter_append, List.filter_cons_of_neg (by simp), ← List.filter_append,
    List.filter_eq_self.2 hothers]

/-- It is the same to mark what is taken and to remove it. -/
theorem markFrom_eq (i : Nat) (xs : List α) (used : List Nat)
    (hnodup : (numbered.map Prod.snd).Nodup) :
    markFrom i used xs numbered =
      firstComeFrom i xs (numbered.filter fun y => !used.contains y.2) := by
  induction xs generalizing i used with
  | nil => rfl
  | cons x xs ih =>
    have hfilter : (numbered.filter fun y => !used.contains y.2).find? (·.1 == x) =
        numbered.find? fun y => !used.contains y.2 && y.1 == x := by
      rw [List.find?_filter]
      congr 1
      funext y
      rw [Bool.decide_and, Bool.decide_eq_true, Bool.decide_eq_true]
    rw [markFrom, firstComeFrom, hfilter]
    cases hfind : numbered.find? fun y => !used.contains y.2 && y.1 == x with
    | none => exact ih ..
    | some item =>
      have hrest : (numbered.filter fun y => !used.contains y.2).eraseP (·.1 == x) =
          numbered.filter fun y => !(item.2 :: used).contains y.2 := by
        rw [eraseP_eq_filter (hnodup.sublist (List.filter_sublist.map _)) (hfilter.trans hfind),
          List.filter_filter]
        congr 1
        funext y
        rw [List.contains_cons, Bool.not_or]
        rfl
      show (i, item.2) :: markFrom (i + 1) (item.2 :: used) xs numbered = _
      rw [hrest, ih]

theorem firstCome_eq_markFrom (xs : List α) (h : numbered.Sublist ys.zipIdx) :
    firstCome xs numbered = markFrom 0 [] xs numbered := by
  have hnone : (numbered.filter fun y => !([] : List Nat).contains y.2) = numbered :=
    List.filter_eq_self.2 fun _ _ => rfl
  rw [markFrom_eq 0 xs [] (nodup_places h), hnone, firstCome]

end Reshape.Sequence
