import Mathlib
import Reshape.Proofs.Pairing.Maximal
import Reshape.Proofs.Pairing.Self

/-! # The accepted candidates are the one stable choice

A choice among candidates is stable if no two of its members need the same entity and every
candidate that is left out needs an entity of a member that ranks before it.  Accepting candidates
in the order of their rank gives a stable choice.  There is no other: by induction along the rank, a
stable choice takes every candidate that clashes with no earlier member, and no other candidate.

The rank leaves no ties among candidates for different pairs of entities.  So there is one way to
sort them, and it does not matter in which order they are given. -/

namespace Reshape.Candidate

variable {candidates : List Candidate} {x y : Candidate}

/-- A candidate comes before another one in the rank: by its score, then by being of one file, then
by the distance of its names, then by its entities. -/
def RanksBefore (x y : Candidate) : Prop :=
  Number.rank y.score < Number.rank x.score ∨ Number.rank x.score = Number.rank y.score ∧
    (y.sameFile < x.sameFile ∨ x.sameFile = y.sameFile ∧
      (x.nameDistance < y.nameDistance ∨ x.nameDistance = y.nameDistance ∧
        (x.before < y.before ∨ x.before = y.before ∧ x.after < y.after)))

theorem order_eq_lt : x.order y = .lt ↔ x.RanksBefore y := by
  have hfile : y.sameFile.toNat < x.sameFile.toNat ↔ y.sameFile < x.sameFile := by
    cases x.sameFile <;> cases y.sameFile <;> decide
  have hsame : y.sameFile.toNat = x.sameFile.toNat ↔ x.sameFile = y.sameFile := by
    cases x.sameFile <;> cases y.sameFile <;> decide
  simp only [order, RanksBefore, Ordering.then_eq_lt, compare_lt_iff_lt, compare_eq_iff_eq, hfile,
    hsame, eq_comm (a := Number.rank y.score)]

/-- The choice of some candidates that is stable. -/
structure IsStable (candidates : List Candidate) (chosen : Set Candidate) : Prop where
  subset : ∀ x ∈ chosen, x ∈ candidates
  /-- No entity is taken twice. -/
  apart : ∀ x ∈ chosen, ∀ y ∈ chosen, x ≠ y → x.before ≠ y.before ∧ x.after ≠ y.after
  /-- What is left out gives way to a member that ranks before it. -/
  gives_way : ∀ x ∈ candidates, x ∉ chosen →
    ∃ y ∈ chosen, (y.before = x.before ∨ y.after = x.after) ∧ y.RanksBefore x

theorem clashes_iff : x.clashes y = true ↔ y.before = x.before ∨ y.after = x.after := by
  rw [clashes, Bool.or_eq_true, beq_iff_eq, beq_iff_eq, eq_comm, eq_comm (a := x.after)]

/-- No two candidates are for the same two entities. -/
def Distinct (candidates : List Candidate) : Prop :=
  (candidates.map fun x => (x.before, x.after)).Nodup

/-- Candidates that neither ranks before the other are for the same entities. -/
theorem Distinct.eq_of_ranksFirst (h : Distinct candidates) (hx : x ∈ candidates)
    (hy : y ∈ candidates) (hxy : x.ranksFirst y = true) (hyx : y.ranksFirst x = true) : x = y := by
  have heq : x.order y = .eq := Std.OrientedCmp.isLE_antisymm hxy hyx
  simp only [order, Ordering.then_eq_eq, compare_eq_iff_eq] at heq
  exact List.inj_on_of_nodup_map h hx hy (Prod.ext heq.2.2.2.1 heq.2.2.2.2)

theorem Distinct.ranksBefore (h : Distinct candidates) (hx : x ∈ candidates) (hy : y ∈ candidates)
    (hxy : x.ranksFirst y = true) (hne : x ≠ y) : x.RanksBefore y := by
  rw [← order_eq_lt]
  by_contra hnot
  have hyx : y.ranksFirst x = true := by
    have hswap : y.order x = (x.order y).swap := Std.OrientedCmp.eq_swap
    rw [ranksFirst, hswap]
    cases horder : x.order y with
    | lt => exact absurd horder hnot
    | eq | gt => rfl
  exact hne (h.eq_of_ranksFirst hx hy hxy hyx)

theorem RanksBefore.not_ranksFirst (h : y.RanksBefore x) : ¬x.ranksFirst y = true := by
  have hswap : x.order y = (y.order x).swap := Std.OrientedCmp.eq_swap
  rw [ranksFirst, hswap, order_eq_lt.2 h]
  decide

/-- **What is accepted is stable.** -/
theorem Distinct.isStable_accept (h : Distinct candidates) :
    IsStable candidates {x | x ∈ accept candidates} where
  subset _ hx := mem_of_mem_accept hx
  apart := by
    intro x hx y hy hne
    have hsymm : Std.Symm fun x y : Candidate => x.pair.Apart y.pair := ⟨fun _ _ h => h.symm⟩
    exact (pairwise_acceptFrom [] _).forall hx hy hne
  gives_way := by
    intro x hx hout
    have hmem : ∀ y, y ∈ candidates.mergeSort ranksFirst ↔ y ∈ candidates := fun y =>
      (List.mergeSort_perm candidates ranksFirst).mem_iff
    have hsorted := List.pairwise_mergeSort ranksFirst_trans ranksFirst_total candidates
    rcases accepted_or_clash [] hsorted (by simp) ((hmem x).2 hx) with hin | ⟨y, hy, hclash, hrank⟩
    · exact absurd hin hout
    · have hne : y ≠ x := fun heq => hout (heq ▸ hy)
      exact ⟨y, hy, clashes_iff.1 hclash,
        h.ranksBefore (mem_of_mem_accept hy) hx hrank hne⟩

/-- **A stable choice is what is accepted.** -/
theorem IsStable.mem_iff {chosen : Set Candidate} (h : IsStable candidates chosen) :
    x ∈ chosen ↔ x ∈ accept candidates := by
  have haccept : x ∈ accept candidates ↔ x ∈ candidates ∧ x ∈ chosen := by
    refine mem_accept_iff (fun x _ y _ hx hy hclash => ?_) fun x hx hout => ?_
    · by_contra hne
      obtain ⟨hbefore, hafter⟩ := h.apart x hx y hy hne
      exact (clashes_iff.1 hclash).elim hbefore.symm hafter.symm
    · obtain ⟨y, hy, hshare, hrank⟩ := h.gives_way x hx hout
      exact ⟨y, h.subset y hy, hy, clashes_iff.2 hshare, hrank.not_ranksFirst⟩
  rw [haccept]
  exact ⟨fun hx => ⟨h.subset x hx, hx⟩, And.right⟩

/-- **The order in which candidates are given does not matter.** -/
theorem Distinct.accept_eq_of_perm (h : Distinct candidates) {others : List Candidate}
    (hperm : others.Perm candidates) : accept others = accept candidates := by
  have hsort : ∀ list : List Candidate, (list.mergeSort ranksFirst).Pairwise fun x y =>
      x.ranksFirst y = true := List.pairwise_mergeSort ranksFirst_trans ranksFirst_total
  have hother := (List.mergeSort_perm others ranksFirst).trans hperm
  have hsame : others.mergeSort ranksFirst = candidates.mergeSort ranksFirst := by
    refine List.Perm.eq_of_pairwise (fun x y hx hy hxy hyx => ?_) (hsort others) (hsort candidates)
      (hother.trans (List.mergeSort_perm candidates ranksFirst).symm)
    exact h.eq_of_ranksFirst (hother.mem_iff.1 hx)
      ((List.mergeSort_perm candidates ranksFirst).mem_iff.1 hy) hxy hyx
  rw [accept, accept, hsame]

/-- **The one stable choice.**  Let no two candidates be for the same two entities.  Then no entity
before or after is accepted twice; a candidate that is not accepted shares an entity with one that
is and that ranks strictly before it; what is accepted is the only choice with these properties; and
every order in which the candidates are given leads to the same result. -/
theorem accept_unique_stable (candidates : List Candidate)
    (hdistinct : (candidates.map fun x => (x.before, x.after)).Nodup) :
    ((accept candidates).map before).Nodup ∧ ((accept candidates).map after).Nodup ∧
    IsStable candidates {x | x ∈ accept candidates} ∧
    (∀ chosen, IsStable candidates chosen → chosen = {x | x ∈ accept candidates}) ∧
    ∀ others : List Candidate, others.Perm candidates →
      accept others = accept candidates := by
  have hapart := pairwise_acceptFrom [] (candidates.mergeSort ranksFirst)
  refine ⟨?_, ?_, Distinct.isStable_accept hdistinct, fun chosen hchosen => ?_,
    fun others hperm => ?_⟩
  · exact List.pairwise_map.2 (hapart.imp fun h => h.1)
  · exact List.pairwise_map.2 (hapart.imp fun h => h.2)
  · exact Set.ext fun x => hchosen.mem_iff
  · exact Distinct.accept_eq_of_perm hdistinct hperm

/-- Three candidates with one score.  The second gives way to the third, whose names are closer, so
the first has both of its entities for itself although the second ranks before it. -/
theorem accept_unique_stable_freed :
    let x : Candidate := ⟨0, 0, 0.5, false, 1⟩
    let y : Candidate := ⟨0, 1, 0.5, true, 4⟩
    let z : Candidate := ⟨1, 1, 0.5, true, 2⟩
    ([x, y, z].map fun c => (c.before, c.after)).Nodup ∧ y.RanksBefore x ∧
      IsStable [x, y, z] {x, z} ∧ {x, z} = {c | c ∈ accept [x, y, z]} ∧
      [z, y, x].Perm [x, y, z] ∧ accept [z, y, x] = accept [x, y, z] := by
  intro x y z
  have hdistinct : ([x, y, z].map fun c => (c.before, c.after)).Nodup := by decide
  have hrank : z.RanksBefore y := .inr ⟨rfl, .inr ⟨rfl, .inl (by decide)⟩⟩
  have hstable : IsStable [x, y, z] {x, z} := by
    refine ⟨?_, ?_, ?_⟩
    · rintro c (rfl | rfl) <;> simp
    · rintro c (rfl | rfl) d (rfl | rfl) hne
      · exact absurd rfl hne
      · decide
      · decide
      · exact absurd rfl hne
    · intro c hc hout
      obtain rfl | rfl | rfl : c = x ∨ c = y ∨ c = z := by simpa using hc
      · exact absurd (Set.mem_insert ..) hout
      · exact ⟨z, by simp, .inr rfl, hrank⟩
      · exact absurd (by simp) hout
  have hperm : [z, y, x].Perm [x, y, z] := List.reverse_perm [x, y, z]
  obtain ⟨-, -, -, hunique, hsame⟩ := accept_unique_stable [x, y, z] hdistinct
  exact ⟨hdistinct, .inr ⟨rfl, .inl (by decide)⟩, hstable, hunique _ hstable, hperm,
    hsame _ hperm⟩

end Reshape.Candidate
