import Mathlib

/-! # Putting an element behind the nearest marked one

A list of places shows some marked elements of a plan in the order of the plan, with other things
between them.  To show one more element of the plan, it is enough to put it right behind the nearest
marked element to its left, or first if there is none: the marked elements are then still in the
order of the plan, whatever else stands between them. -/

namespace Reshape.Sequence

variable {α β : Type}

/-- Around an element that occurs once, a sublist falls into two sublists. -/
theorem sublist_around {left right before after : List β} {u : β}
    (h : (before ++ u :: after).Sublist (left ++ u :: right))
    (hnodup : (left ++ u :: right).Nodup) :
    before.Sublist left ∧ after.Sublist right := by
  obtain ⟨l₁, l₂, hl, hbefore, h⟩ := List.append_sublist_iff.1 h
  obtain ⟨r₁, r₂, rfl, hu, hafter⟩ := List.cons_sublist_iff.1 h
  obtain ⟨a, b, rfl⟩ := List.append_of_mem hu
  have hl' : left ++ u :: right = (l₁ ++ a) ++ u :: (b ++ r₂) := by
    rw [hl]
    simp
  have hnodup' := hl' ▸ hnodup
  obtain ⟨-, hcons, hdisj⟩ := List.nodup_append.1 hnodup
  obtain ⟨-, -, hdisj'⟩ := List.nodup_append.1 hnodup'
  have hleft : u ∉ left := fun hmem => hdisj u hmem u (List.mem_cons_self ..) rfl
  have hright : u ∉ right := (List.nodup_cons.1 hcons).1
  obtain ⟨rfl, -, rfl⟩ := (List.append_cons_inj_of_notMem
    (fun hmem => hdisj' u hmem u (List.mem_cons_self ..) rfl)
    (List.nodup_cons.1 (List.nodup_append.1 hnodup').2.1).1).1 hl'.symm
  exact ⟨hbefore.trans (List.sublist_append_left _ _),
    hafter.trans (List.sublist_append_right _ _)⟩

theorem insertIdx_length_append (left right : List β) (y : β) :
    (left ++ right).insertIdx left.length y = left ++ y :: right := by
  induction left with
  | nil => rfl
  | cons v left ih => rw [List.cons_append, List.length_cons, List.insertIdx_succ_cons, ih]; rfl

/-- The nearest marked element is the last one that is marked. -/
theorem getLast?_filter (before : List α) (marked : α → Bool) :
    (before.filter marked).getLast? = before.reverse.find? marked := by
  rw [← List.head?_filter, List.filter_reverse, List.head?_reverse]

variable [DecidableEq α] {plan : List α} {marked : α → Bool} {show? show?' : α → Option β} {x : α}

/-- A plan falls into what is to the left of an element, the element, and what is to its right. -/
theorem exists_split (hplan : plan.Nodup) (hx : x ∈ plan) :
    ∃ after, plan = plan.takeWhile (· != x) ++ x :: after ∧ x ∉ plan.takeWhile (· != x) ∧
      x ∉ after := by
  obtain ⟨before, after, rfl⟩ := List.append_of_mem hx
  obtain ⟨-, hcons, hdisj⟩ := List.nodup_append.1 hplan
  have hnot : x ∉ before := fun hmem => hdisj x hmem x (List.mem_cons_self ..) rfl
  have htake : (before ++ x :: after).takeWhile (· != x) = before := by
    rw [List.takeWhile_append_of_pos]
    · simp
    · intro v hv
      exact bne_iff_ne.2 fun h => hnot (h ▸ hv)
  rw [htake]
  exact ⟨after, rfl, hnot, (List.nodup_cons.1 hcons).1⟩

/-- A part of the plan without `x` shows what it showed before. -/
theorem filterMap_of_notMem {part : List α} (hpart : x ∉ part)
    (hothers : ∀ v ∈ part, v ≠ x → show?' v = show? v) :
    (part.filter fun v => v == x || marked v).filterMap show?' =
      (part.filter marked).filterMap show? := by
  have hne : ∀ v ∈ part, v ≠ x := fun v hv h => hpart (h ▸ hv)
  have hfilter : (part.filter fun v => v == x || marked v) = part.filter marked :=
    List.filter_congr fun v hv => by simp [hne v hv]
  rw [hfilter]
  refine List.filterMap_congr fun v hv => ?_
  have hv := (List.mem_filter.1 hv).1
  exact hothers v hv (hne v hv)

variable [DecidableEq β] {places : List β} {y : β}

/-- The position right behind the nearest marked element to the left of `x`. -/
def positionBehind (plan : List α) (marked : α → Bool) (show? : α → Option β) (places : List β)
    (x : α) : Nat :=
  let left := (plan.takeWhile (· != x)).reverse.find? marked
  match left.bind fun v => (show? v).bind fun u => places.idxOf? u with
  | some position => position + 1
  | none => 0

/-- Right behind an element of a sublist there is room for one more. -/
theorem exists_insertIdx_behind (hplaces : places.Nodup) {far after : List β} {u : β}
    (hsub : (far ++ u :: after).Sublist places) (y : β) :
    ∃ k, places.idxOf? u = some k ∧ k + 1 ≤ places.length ∧
      (far ++ u :: y :: after).Sublist (places.insertIdx (k + 1) y) := by
  have hmem : u ∈ places := hsub.subset (by simp)
  obtain ⟨left, right, rfl⟩ := List.append_of_mem hmem
  have hleft : u ∉ left := fun hmem =>
    (List.nodup_append.1 hplaces).2.2 u hmem u (List.mem_cons_self ..) rfl
  refine ⟨left.length, ?_, by simp, ?_⟩
  · refine List.idxOf?_eq_some_iff.2 ⟨by simp, by simp, fun j hj heq => ?_⟩
    rw [List.getElem_append_left hj] at heq
    exact hleft (heq ▸ List.getElem_mem hj)
  · have hinsert : (left ++ u :: right).insertIdx (left.length + 1) y =
        left ++ u :: y :: right := by
      simpa using insertIdx_length_append (left ++ [u]) right y
    obtain ⟨hfar, hafter⟩ := sublist_around hsub hplaces
    rw [hinsert]
    exact hfar.append ((hafter.cons_cons y).cons_cons u)

/-- **Splicing keeps the order.** -/
theorem splice_sublist (hplan : plan.Nodup) (hx : x ∈ plan) (hplaces : places.Nodup)
    (hshown : ∀ v ∈ plan, marked v = true → ∃ u, show? v = some u)
    (hsub : ((plan.filter marked).filterMap show?).Sublist places)
    (hx' : show?' x = some y) (hothers : ∀ v ∈ plan, v ≠ x → show?' v = show? v) :
    positionBehind plan marked show? places x ≤ places.length ∧
      ((plan.filter fun v => v == x || marked v).filterMap show?').Sublist
        (places.insertIdx (positionBehind plan marked show? places x) y) := by
  obtain ⟨after, hplan', hleft, hright⟩ := exists_split hplan hx
  unfold positionBehind
  generalize plan.takeWhile (· != x) = before at hplan' hleft ⊢
  subst hplan'
  have hnew : ((before ++ x :: after).filter fun v => v == x || marked v).filterMap show?' =
      (before.filter marked).filterMap show? ++ y :: (after.filter marked).filterMap show? := by
    rw [List.filter_append, List.filter_cons_of_pos (by simp), List.filterMap_append,
      List.filterMap_cons_some hx',
      filterMap_of_notMem hleft fun v hv => hothers v (by simp [hv]),
      filterMap_of_notMem hright fun v hv => hothers v (by simp [hv])]
  have hold : ((before.filter marked).filterMap show? ++
      (after.filter marked).filterMap show?).Sublist places := by
    refine List.Sublist.trans ?_ hsub
    rw [← List.filterMap_append, ← List.filter_append]
    exact ((List.sublist_cons_self x after).append_left before |>.filter marked).filterMap show?
  rw [hnew, ← getLast?_filter]
  cases hlast : (before.filter marked).getLast? with
  | none =>
    rw [List.getLast?_eq_none_iff.1 hlast] at hold ⊢
    exact ⟨Nat.zero_le _, hold.cons_cons y⟩
  | some v =>
    obtain ⟨far, hfar⟩ := List.getLast?_eq_some_iff.1 hlast
    obtain ⟨hmem, hmark⟩ : v ∈ before ∧ marked v = true :=
      List.mem_filter.1 (by rw [hfar]; simp)
    obtain ⟨u, hu⟩ := hshown v (by simp [hmem]) hmark
    have hshow : (before.filter marked).filterMap show? = far.filterMap show? ++ [u] := by
      rw [hfar, List.filterMap_append, List.filterMap_cons_some hu, List.filterMap_nil]
    rw [hshow, List.append_assoc, List.singleton_append] at hold ⊢
    obtain ⟨k, hk, hle, hinsert⟩ := exists_insertIdx_behind hplaces hold y
    simp only [Option.bind_some, hu, hk]
    exact ⟨hle, hinsert⟩

end Reshape.Sequence
