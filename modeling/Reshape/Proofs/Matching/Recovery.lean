import Mathlib
import Reshape.Matching.BottomUp
import Reshape.Proofs.Matching.Growth
import Reshape.Proofs.Sequence.Alignment

/-! # Recovery and the matching of inner nodes succeed

Below a pair of nodes, recovery pairs children and what is below them.  Its three steps work on
children that are pairwise different on either side, so their subtrees are apart, and what each of
them adds fits.  The same holds of every inner node that is paired with a container: whatever the
scores are, the container is a free node of the right kind below the root. -/

namespace Reshape.Matching

variable {digest : Digest} {source target : Measured digest} {mapping : Mapping} {s t x y : Nat}

theorem mem_freeSources : x ∈ freeSources source mapping s ↔
    x ∈ source.tree.children s ∧ mapping.target? x = none := by
  simp [freeSources, Mapping.hasSource]

theorem mem_freeTargets : y ∈ freeTargets target mapping t ↔
    y ∈ target.tree.children t ∧ mapping.source? y = none := by
  simp [freeTargets, Mapping.hasTarget]

/-! ### Aligned children -/

/-- The children that are mapped along an alignment. -/
def alignedChildren (source target : Measured digest) (related : Nat → Nat → Bool)
    (mapping : Mapping) (s t : Nat) : List (Nat × Nat) :=
  (Sequence.align related (freeSources source mapping s) (freeTargets target mapping t)).map
    fun p => ((freeSources source mapping s).getD p.1 0, (freeTargets target mapping t).getD p.2 0)

theorem alignChildren_eq (related : Nat → Nat → Bool) (mapping : Mapping) (s t : Nat) :
    alignChildren source target related mapping s t =
      (alignedChildren source target related mapping s t).foldlM
        (fun mapping p => mapping.addSubtrees source.tree target.tree p.1 p.2) mapping := by
  rw [alignedChildren, List.foldlM_map]
  rfl

/-- Mapping the subtrees at aligned children succeeds if related subtrees agree in kinds and fit. -/
theorem exists_alignChildren (hone : mapping.OneToOne) {related : Nat → Nat → Bool}
    (hkinds : ∀ x y, related x y = true →
      List.Forall₂ (fun x y => source.tree.kind x = target.tree.kind y) (source.tree.preorder x)
        (target.tree.preorder y))
    (hfit : ∀ x y, related x y = true →
      ∀ p ∈ Mapping.subtreePairs source.tree target.tree x y, mapping.Fits p.1 p.2) :
    ∃ other, alignChildren source target related mapping s t = .ok other ∧
      Mapping.Grows source.tree target.tree s t mapping other := by
  have halign := Sequence.isAlignment_align related (freeSources source mapping s)
    (freeTargets target mapping t)
  have hleft : ((alignedChildren source target related mapping s t).map Prod.fst).Sublist
      (source.tree.children s) := by
    rw [alignedChildren, List.map_map]
    exact (halign.sublist_left 0).trans List.filter_sublist
  have hright : ((alignedChildren source target related mapping s t).map Prod.snd).Sublist
      (target.tree.children t) := by
    rw [alignedChildren, List.map_map]
    exact (halign.sublist_right 0).trans List.filter_sublist
  have hmem : ∀ p ∈ alignedChildren source target related mapping s t,
      p.1 ∈ source.tree.children s ∧ p.2 ∈ target.tree.children t := fun p hp =>
    ⟨hleft.subset (List.mem_map_of_mem hp), hright.subset (List.mem_map_of_mem hp)⟩
  have hrelated : ∀ p ∈ alignedChildren source target related mapping s t,
      related p.1 p.2 = true := by
    intro p hp
    obtain ⟨q, hq, rfl⟩ := List.mem_map.1 hp
    exact halign.related_getD 0 0 hq
  rw [alignChildren_eq]
  obtain ⟨other, hother, hgrow, -⟩ := Mapping.exists_foldlM_apart
    (fun p => Mapping.subtreePairs source.tree target.tree p.1 p.2)
    (fun p _ c hc => Mapping.mem_subtreePairs hc)
    (Mapping.apart_of_children ((source.tree.nodup_children s).sublist hleft)
      ((target.tree.nodup_children t).sublist hright) hmem)
    (fun p hp => ⟨Leads.single (source.tree.mem_children.1 (hmem p hp).1),
      Leads.single (target.tree.mem_children.1 (hmem p hp).2)⟩)
    hone (fun p hp => hfit p.1 p.2 (hrelated p hp)) fun p hp mapping hone hfit =>
      Mapping.exists_addSubtrees hone (hkinds p.1 p.2 (hrelated p hp)) hfit
  exact ⟨other, hother, hgrow⟩

theorem exists_alignEqual (hone : mapping.OneToOne) (s t : Nat) :
    ∃ other, alignChildren source target (equalAndFree source target mapping) mapping s t =
        .ok other ∧
      Mapping.Grows source.tree target.tree s t mapping other := by
  refine exists_alignChildren hone (fun x y h => ?_) fun x y h => ?_ <;>
    rw [equalAndFree, Bool.and_eq_true] at h
  · exact Measured.isomorphic_kinds h.1
  · exact Mapping.fits_of_subtreesFree h.2

theorem exists_alignShaped (hone : mapping.OneToOne) (s t : Nat) :
    ∃ other, alignChildren source target (shapedAndAligned source target mapping) mapping s t =
        .ok other ∧
      Mapping.Grows source.tree target.tree s t mapping other := by
  refine exists_alignChildren hone (fun x y h => ?_) fun x y h => ?_ <;>
    rw [shapedAndAligned, Bool.and_eq_true] at h
  · exact Measured.structurallyIsomorphic_kinds h.1
  · exact Mapping.fits_of_subtreesAligned h.2

/-! ### Children of unique kinds -/

theorem mem_uniqueKinds {xs ys : List Nat} (h : (x, y) ∈ uniqueKinds source target xs ys) :
    x ∈ xs ∧ (xs.filter (source.tree.kind · == source.tree.kind x)).length = 1 ∧
      y ∈ ys ∧ source.tree.kind x = target.tree.kind y := by
  obtain ⟨a, ha, hpair⟩ := List.mem_filterMap.1 ((List.mergeSort_perm _ _).mem_iff.1 h)
  split at hpair
  · rename_i only other hxs hys
    obtain ⟨rfl, rfl⟩ := Prod.mk.inj (Option.some.inj hpair)
    have hy : other ∈ ys.filter (target.tree.kind · == source.tree.kind a) := by
      rw [hys]
      exact List.mem_cons_self ..
    obtain ⟨hy, hkind⟩ := List.mem_filter.1 hy
    exact ⟨ha, by rw [hxs]; rfl, hy, (beq_iff_eq.1 hkind).symm⟩
  · cases hpair

theorem eq_of_length_filter_eq_one {ids : List Nat} {p : Nat → Bool}
    (h : (ids.filter p).length = 1) (hx : x ∈ ids) (hpx : p x = true) (hy : y ∈ ids)
    (hpy : p y = true) : x = y := by
  obtain ⟨z, hz⟩ := List.length_eq_one_iff.1 h
  have hx' := List.mem_filter.2 ⟨hx, hpx⟩
  have hy' := List.mem_filter.2 ⟨hy, hpy⟩
  rw [hz, List.mem_singleton] at hx' hy'
  exact hx'.trans hy'.symm

/-- Children of unique kinds are paired at most once on either side. -/
theorem nodup_uniqueKinds (source target : Measured digest) {xs : List Nat} (ys : List Nat)
    (hxs : xs.Nodup) :
    ((uniqueKinds source target xs ys).map Prod.fst).Nodup ∧
      ((uniqueKinds source target xs ys).map Prod.snd).Nodup := by
  have hfst : ((uniqueKinds source target xs ys).map Prod.fst).Nodup := by
    refine (((List.mergeSort_perm _ _).map Prod.fst).nodup_iff).2 ?_
    rw [List.map_filterMap]
    refine List.pairwise_filterMap.2 (hxs.imp ?_)
    rintro a b hne x hx x' hx' heq
    have ha : a = x := by
      split at hx
      · exact Option.some.inj hx
      · cases hx
    have hb : b = x' := by
      split at hx'
      · exact Option.some.inj hx'
      · cases hx'
    exact hne (ha.trans (heq.trans hb.symm))
  refine ⟨hfst, ?_⟩
  refine List.pairwise_map.2 ((List.pairwise_map.1 hfst).imp_of_mem ?_)
  rintro ⟨a, y⟩ ⟨b, y'⟩ ha hb hne (rfl : y = y')
  obtain ⟨hax, hlen, -, hka⟩ := mem_uniqueKinds ha
  obtain ⟨hbx, -, -, hkb⟩ := mem_uniqueKinds hb
  exact hne (eq_of_length_filter_eq_one hlen hax BEq.rfl hbx (beq_iff_eq.2 (hkb.trans hka.symm)))

/-! ### Recovery -/

/-- **Recovery succeeds** and stays below the pair it starts from. -/
theorem exists_recoverWithin (fuel : Nat) (hone : mapping.OneToOne) (s t : Nat) :
    ∃ other, recoverWithin source target fuel mapping s t = .ok other ∧
      Mapping.Grows source.tree target.tree s t mapping other := by
  induction fuel generalizing mapping s t with
  | zero => exact ⟨mapping, rfl, Mapping.Grows.refl hone s t⟩
  | succ fuel ih =>
    obtain ⟨first, hfirst, hgrow⟩ := exists_alignEqual hone s t
    obtain ⟨second, hsecond, hgrow'⟩ := exists_alignShaped hgrow.oneToOne s t
    -- Children of unique kinds are free now; one recursion adds nothing below another of them.
    have hunique : ∀ p ∈ uniqueKinds source target (freeSources source second s)
        (freeTargets target second t), p.1 ∈ source.tree.children s ∧
          p.2 ∈ target.tree.children t ∧ second.Fits p.1 p.2 ∧
          source.tree.kind p.1 = target.tree.kind p.2 := by
      intro p hp
      obtain ⟨hx, -, hy, hkind⟩ := mem_uniqueKinds hp
      obtain ⟨hx, hxfree⟩ := mem_freeSources.1 hx
      obtain ⟨hy, hyfree⟩ := mem_freeTargets.1 hy
      exact ⟨hx, hy, Mapping.fits_of_free hxfree hyfree, hkind⟩
    obtain ⟨hfst, hsnd⟩ := nodup_uniqueKinds source target (freeTargets target second t)
      ((source.tree.nodup_children s).filter fun x => !second.hasSource x)
    obtain ⟨other, hother, hgrow'', -⟩ := Mapping.exists_foldlM_apart (fun p => [p])
      (fun p _ c hc => by
        obtain rfl := List.mem_singleton.1 hc
        exact ⟨Leads.refl _, Leads.refl _⟩)
      (Mapping.apart_of_children hfst hsnd fun p hp => ⟨(hunique p hp).1, (hunique p hp).2.1⟩)
      (fun p hp => ⟨Leads.single (source.tree.mem_children.1 (hunique p hp).1),
        Leads.single (target.tree.mem_children.1 (hunique p hp).2.1)⟩)
      hgrow'.oneToOne
      (fun p hp c hc => by
        obtain rfl := List.mem_singleton.1 hc
        exact (hunique c hp).2.2.1)
      (f := fun mapping p => do
        let mapping ← (mapping.add p.1 p.2).toExcept
        recoverWithin source target fuel mapping p.1 p.2)
      (fun p hp mapping hone hfit => by
        obtain ⟨added, hadd, hadded⟩ := Mapping.exists_add hone
          (hfit p (List.mem_singleton.2 rfl)) (hunique p hp).2.2.2
        obtain ⟨recovered, hrecover, hrecovered⟩ := ih hadded.oneToOne p.1 p.2
        exact ⟨recovered, by rw [hadd, ok_bind, hrecover], hadded.trans hrecovered⟩)
    refine ⟨other, ?_, (hgrow.trans hgrow').trans hgrow''⟩
    rw [recoverWithin, hfirst, ok_bind, hsecond, ok_bind]
    exact hother

/-! ### Inner nodes -/

/-- The better one of some containers is one of them. -/
theorem foldl_betterContainer_mem (first : Nat × Float) (rest : List (Nat × Float)) :
    rest.foldl (betterContainer target) first ∈ first :: rest := by
  induction rest generalizing first with
  | nil => exact List.mem_cons_self ..
  | cons next rest ih =>
    rw [List.foldl_cons]
    rcases List.mem_cons.1 (ih (betterContainer target first next)) with heq | hmem
    · rw [heq, betterContainer]
      split <;> simp
    · simp [hmem]

/-- The best container is one of the containers, whatever the scores are. -/
theorem mem_of_bestContainer {root : Nat} {score : Float}
    (h : bestContainer source target mapping root s = some (t, score)) :
    t ∈ containers source target mapping root s := by
  simp only [bestContainer] at h
  have hmem : (t, score) ∈ (containers source target mapping root s).map
      fun t => (t, dice source target mapping s t) := by
    split at h
    · cases h
    · rename_i first rest hscored
      rw [hscored, ← Option.some.inj h]
      exact foldl_betterContainer_mem first rest
  obtain ⟨t', ht', heq⟩ := List.mem_map.1 hmem
  exact (Prod.mk.inj heq).1 ▸ ht'

theorem mem_containers {root : Nat} (h : t ∈ containers source target mapping root s) :
    target.tree.Within root t ∧ source.tree.kind s = target.tree.kind t ∧
      mapping.source? t = none := by
  simp only [containers, List.mem_filter, Bool.and_eq_true, beq_iff_eq, Bool.not_eq_true',
    Mapping.hasTarget, target.tree.isAncestorOrSelf_iff] at h
  exact ⟨h.2.1.2, h.2.1.1.1.2.symm, by simpa using h.2.1.1.2⟩

/-- Pairing one inner node succeeds. -/
theorem exists_pairContainer (threshold : Float) {root : Nat} (hone : mapping.OneToOne)
    (hx : source.tree.Within s x) :
    ∃ other, pairContainer source target threshold root mapping x = .ok other ∧
      Mapping.Grows source.tree target.tree s root mapping other := by
  unfold pairContainer
  split
  · exact ⟨mapping, rfl, Mapping.Grows.refl hone s root⟩
  · rename_i hguard
    have hfree : mapping.target? x = none := by
      simp only [Bool.or_eq_true, not_or, Mapping.hasSource] at hguard
      simpa using hguard.1
    split
    · exact ⟨mapping, rfl, Mapping.Grows.refl hone s root⟩
    · rename_i y score hbest
      obtain ⟨hy, hkind, hyfree⟩ := mem_containers (mem_of_bestContainer hbest)
      split
      · obtain ⟨added, hadd, hadded⟩ := Mapping.exists_add hone
          (Mapping.fits_of_free hfree hyfree) hkind
        obtain ⟨recovered, hrecover, hrecovered⟩ := exists_recoverWithin (source.height x)
          hadded.oneToOne x y
        exact ⟨recovered, by rw [hadd, ok_bind, recover, hrecover],
          (hadded.trans hrecovered).mono hx hy⟩
      · exact ⟨mapping, rfl, Mapping.Grows.refl hone s root⟩

/-- Pairing all inner nodes below a root succeeds. -/
theorem exists_pairContainers (threshold : Float) (hone : mapping.OneToOne) (s t : Nat) :
    ∃ other, (source.tree.postorder s).dropLast.foldlM
        (pairContainer source target threshold t) mapping = .ok other ∧
      Mapping.Grows source.tree target.tree s t mapping other := by
  refine foldlM_ok (fun _ other => Mapping.Grows source.tree target.tree s t mapping other)
    (Mapping.Grows.refl hone s t) ?_
  intro seen x rest state hlist hgrow
  have hx : source.tree.Within s x := by
    refine source.tree.mem_postorder.1 (List.mem_of_mem_dropLast ?_)
    rw [hlist]
    simp
  obtain ⟨next, hnext, hgrow'⟩ := exists_pairContainer threshold hgrow.oneToOne hx
  exact ⟨next, hnext, hgrow.trans hgrow'⟩

theorem exists_pairRoots (hone : mapping.OneToOne) (s t : Nat) :
    ∃ other, pairRoots source target mapping s t = .ok other ∧
      Mapping.Grows source.tree target.tree s t mapping other := by
  unfold pairRoots
  split
  · rename_i hguard
    simp only [Bool.and_eq_true, Bool.not_eq_true', Mapping.hasSource, Mapping.hasTarget,
      beq_iff_eq] at hguard
    exact Mapping.exists_add hone
      (Mapping.fits_of_free (by simpa using hguard.1.1) (by simpa using hguard.1.2)) hguard.2
  · exact ⟨mapping, rfl, Mapping.Grows.refl hone s t⟩

/-- **Matching the inner nodes succeeds.** -/
theorem exists_bottomUp (threshold : Float) (hone : mapping.OneToOne) (s t : Nat) :
    ∃ other, bottomUp source target threshold mapping s t = .ok other ∧
      Mapping.Grows source.tree target.tree s t mapping other := by
  obtain ⟨inner, hinner, hgrow⟩ := exists_pairContainers threshold hone s t
  obtain ⟨roots, hroots, hgrow'⟩ := exists_pairRoots hgrow.oneToOne s t
  rw [bottomUp, hinner, ok_bind, hroots, ok_bind]
  split
  · obtain ⟨recovered, hrecover, hrecovered⟩ := exists_recoverWithin (source.height s)
      hgrow'.oneToOne s t
    exact ⟨recovered, hrecover, (hgrow.trans hgrow').trans hrecovered⟩
  · exact ⟨roots, rfl, hgrow.trans hgrow'⟩

end Reshape.Matching
