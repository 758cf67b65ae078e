import Mathlib
import Reshape.Matching
import Reshape.Proofs.Matching.Levels
import Reshape.Proofs.Matching.Recovery
import Reshape.Proofs.Tree.Alike

/-! # Matching equal subtrees

Equal subtrees are mapped node by node along their preorders, whatever the thresholds are.  If they
are tall enough to count, the first level of the search maps them as a whole: their tops are the
only candidates, so equal subtrees inside are never rivals.  If they are not, nothing is mapped
until the tops are paired in the end; recovery then aligns the children one by one. -/

namespace Reshape

namespace Mapping

theorem addPairs_append (mapping : Mapping) (pairs more : List (Nat × Nat)) :
    mapping.addPairs (pairs ++ more) = match mapping.addPairs pairs with
      | (mapping, none) => mapping.addPairs more
      | (mapping, some violation) => (mapping, some violation) := by
  induction pairs generalizing mapping with
  | nil => rfl
  | cons p pairs ih =>
    rw [List.cons_append, addPairs, addPairs]
    rcases mapping.add p.1 p.2 with ⟨mapping, - | violation⟩
    · exact ih mapping
    · rfl

theorem addAll_append (mapping : Mapping) (pairs more : List (Nat × Nat)) :
    mapping.addAll (pairs ++ more) =
      (mapping.addAll pairs >>= fun mapping => mapping.addAll more) := by
  rw [addAll, addAll, addPairs_append]
  rcases mapping.addPairs pairs with ⟨mapping, - | violation⟩ <;> rfl

theorem addAll_cons (mapping : Mapping) (p : Nat × Nat) (pairs : List (Nat × Nat)) :
    mapping.addAll (p :: pairs) =
      ((mapping.add p.1 p.2).toExcept >>= fun mapping => mapping.addAll pairs) := by
  rw [addAll, addPairs]
  rcases mapping.add p.1 p.2 with ⟨mapping, - | violation⟩ <;> rfl

/-- Subtrees are mapped one after the other like the list of all their pairs. -/
theorem foldlM_addSubtrees (source target : Tree) (mapping : Mapping) (pairs : List (Nat × Nat)) :
    pairs.foldlM (fun mapping p => mapping.addSubtrees source target p.1 p.2) mapping =
      mapping.addAll (pairs.flatMap fun p => subtreePairs source target p.1 p.2) := by
  induction pairs generalizing mapping with
  | nil => rfl
  | cons p pairs ih =>
    rw [List.foldlM_cons, List.flatMap_cons, addAll_append]
    exact congrArg _ (funext ih)

/-- A mapping of two subtrees along their preorders, and of nothing else. -/
structure Twins (source target : Tree) (s t : Nat) (mapping : Mapping) : Prop where
  oneToOne : mapping.OneToOne
  target?_iff : ∀ x y, mapping.target? x = some y ↔ (x, y) ∈ subtreePairs source target s t

theorem exists_twins (source target : Tree) (s t : Nat) :
    ∃ mapping, empty.addSubtrees source target s t = .ok mapping ∧
      Twins source target s t mapping := by
  obtain ⟨hfst, hsnd⟩ := nodup_subtreePairs source target s t
  obtain ⟨mapping, hadd, hone, hgains⟩ := oneToOne_empty.addAll hfst hsnd
    fun _ _ => fits_of_free rfl rfl
  refine ⟨mapping, hadd, hone, fun x y => (hgains x y).trans ⟨?_, Or.inr⟩⟩
  rintro (hempty | hnew)
  · cases hempty
  · exact hnew

namespace Twins

variable {source target : Tree} {s t x y : Nat} {mapping : Mapping}

/-- Every node of the first of two equal subtrees has a partner. -/
theorem hasSource (h : Twins source target s t mapping) (halike : source.Alike target s t)
    (hx : source.Within s x) : mapping.hasSource x = true := by
  obtain ⟨y, hy⟩ := exists_mem_zip_of_left halike.preorder.length_eq (source.mem_preorder.2 hx)
  rw [Mapping.hasSource, (h.target?_iff x y).2 hy]
  rfl

theorem hasTarget (h : Twins source target s t mapping) (halike : source.Alike target s t)
    (hy : target.Within t y) : mapping.hasTarget y = true := by
  obtain ⟨x, hx⟩ := exists_mem_zip_of_right halike.preorder.length_eq (target.mem_preorder.2 hy)
  rw [Mapping.hasTarget, (h.oneToOne x y).1 ((h.target?_iff x y).2 hx)]
  rfl

end Twins

end Mapping

namespace Matching

variable {digest : Digest} {source target : Measured digest} {mapping : Mapping} {s t : Nat}

/-! ### The search for equal subtrees -/

/-- A sweep without open subtrees is over. -/
theorem sweepLevel_nil (minHeight height : Nat) (mapping : Mapping) (ambiguous : List (Nat × Nat)) :
    sweepLevel source target minHeight
        { mapping, openSource := [], openTarget := [], ambiguous } height =
      .ok { mapping, openSource := [], openTarget := [], ambiguous } := by
  simp [sweepLevel, levelNodes, levelPairs, openBelow, tallEnough, pure, Except.pure]

/-- The level of two equal subtrees maps them as a whole and leaves nothing open. -/
theorem sweepLevel_of_isomorphic (minHeight : Nat) (hheight : source.height s = target.height t)
    (h : source.isomorphic s target t = true)
    (hmapping : Mapping.empty.addSubtrees source.tree target.tree s t = .ok mapping) :
    sweepLevel source target minHeight { openSource := [s], openTarget := [t] } (source.height s) =
      .ok { mapping, openSource := [], openTarget := [] } := by
  have hadd : ({} : Mapping).addSubtrees source.tree target.tree s t = .ok mapping := hmapping
  simp [sweepLevel, levelNodes, levelPairs, openBelow, tallEnough, isUnique, ← hheight, h, hadd]

theorem rankPairs_nil (source target : Measured digest) (mapping : Mapping) :
    rankPairs source target mapping [] = [] := by
  simp [rankPairs]

/-- The search maps equal subtrees as a whole, or nothing if they are not tall enough. -/
theorem topDown_of_alike {minHeight : Nat} (h : source.tree.Alike target.tree s t)
    (hs : s < source.tree.size) (ht : t < target.tree.size) :
    topDown source target minHeight s t =
      if minHeight ≤ source.height s then Mapping.empty.addSubtrees source.tree target.tree s t
      else .ok Mapping.empty := by
  have hheight := Measured.height_eq_of_alike h hs ht
  rw [topDown_eq_sweep, Sweep.start, Sweep.run, ← hheight, Nat.max_self]
  split
  · rename_i htall
    have hsource : tallEnough source minHeight [s] = [s] := by simp [tallEnough, htall]
    have htarget : tallEnough target minHeight [t] = [t] := by simp [tallEnough, ← hheight, htall]
    obtain ⟨mapping, hmapping, -⟩ := Mapping.exists_twins source.tree target.tree s t
    rw [hsource, htarget, sweepHeights_succ htall, List.foldlM_cons,
      sweepLevel_of_isomorphic minHeight hheight (Measured.isomorphic_of_alike h hs ht) hmapping,
      ok_bind, foldlM_fixed fun height _ => sweepLevel_nil minHeight height mapping [], ok_bind,
      hmapping, addAside, rankPairs_nil]
    rfl
  · rename_i hlow
    have hsource : tallEnough source minHeight [s] = [] := by simp [tallEnough, hlow]
    have htarget : tallEnough target minHeight [t] = [] := by simp [tallEnough, ← hheight, hlow]
    rw [hsource, htarget, foldlM_fixed fun height _ => sweepLevel_nil minHeight height {} [],
      ok_bind, addAside, rankPairs_nil]
    rfl

/-! ### Inner nodes -/

theorem alignChildren_of_full (related : Nat → Nat → Bool) (hs : freeSources source mapping s = [])
    (ht : freeTargets target mapping t = []) :
    alignChildren source target related mapping s t = .ok mapping := by
  rw [alignChildren_eq, alignedChildren, hs, ht]
  rfl

theorem uniqueKinds_nil (source target : Measured digest) :
    uniqueKinds source target [] [] = [] := by
  simp [uniqueKinds]

/-- Where no child is free, there is nothing to recover. -/
theorem recoverWithin_of_full (fuel : Nat) (hs : freeSources source mapping s = [])
    (ht : freeTargets target mapping t = []) :
    recoverWithin source target fuel mapping s t = .ok mapping := by
  cases fuel with
  | zero => rfl
  | succ fuel =>
    rw [recoverWithin, alignChildren_of_full _ hs ht, ok_bind, alignChildren_of_full _ hs ht,
      ok_bind, hs, ht, uniqueKinds_nil]
    rfl

/-- The children of two mapped subtrees are not free. -/
theorem full_of_twins (halike : source.tree.Alike target.tree s t)
    (h : Mapping.Twins source.tree target.tree s t mapping) :
    freeSources source mapping s = [] ∧ freeTargets target mapping t = [] := by
  refine ⟨List.filter_eq_nil_iff.2 fun x hx => ?_, List.filter_eq_nil_iff.2 fun y hy => ?_⟩
  · simp [h.hasSource halike (Leads.single (source.tree.mem_children.1 hx))]
  · simp [h.hasTarget halike (Leads.single (target.tree.mem_children.1 hy))]

/-- A mapping of equal subtrees leaves nothing to the matching of inner nodes. -/
theorem bottomUp_of_twins (threshold : Float) (halike : source.tree.Alike target.tree s t)
    (h : Mapping.Twins source.tree target.tree s t mapping) :
    bottomUp source target threshold mapping s t = .ok mapping := by
  have hcontainers : ∀ x ∈ (source.tree.postorder s).dropLast,
      pairContainer source target threshold t mapping x = .ok mapping := by
    intro x hx
    have hwithin := source.tree.mem_postorder.1 (List.dropLast_subset _ hx)
    rw [pairContainer, h.hasSource halike hwithin, Bool.true_or, if_pos rfl]
  have hroots : pairRoots source target mapping s t = .ok mapping := by
    rw [pairRoots, h.hasSource halike (Leads.refl s)]
    rfl
  obtain ⟨hs, ht⟩ := full_of_twins halike h
  rw [bottomUp, foldlM_fixed hcontainers, ok_bind, hroots, ok_bind]
  split
  · exact recoverWithin_of_full _ hs ht
  · rfl

/-- Without a mapping, no inner node has a container. -/
theorem pairContainer_empty (threshold : Float) (root x : Nat) :
    pairContainer source target threshold root Mapping.empty x = .ok Mapping.empty := by
  have hshared : ∀ y, shared source target Mapping.empty x y = 0 := by
    intro y
    simp [shared, Mapping.empty, Mapping.target?]
  have hcontainers : containers source target Mapping.empty root x = [] := by
    simp [containers, hshared]
  rw [pairContainer]
  split
  · rfl
  · rw [bestContainer, hcontainers]
    rfl

/-- The children of two equal subtrees are aligned one by one while nothing but the tops is
mapped. -/
theorem alignedChildren_of_alike (h : source.tree.Alike target.tree s t) :
    let tops := Mapping.empty.insert s t
    alignedChildren source target (equalAndFree source target tops) tops s t =
      (source.tree.children s).zip (target.tree.children t) := by
  intro tops
  have hsource : ∀ x, s < x → tops.hasSource x = false := by
    intro x hx
    rw [Mapping.hasSource, Mapping.target?_insert, if_neg (Nat.ne_of_lt hx)]
    rfl
  have htarget : ∀ y, t < y → tops.hasTarget y = false := by
    intro y hy
    rw [Mapping.hasTarget, Mapping.source?_insert, if_neg (Nat.ne_of_lt hy)]
    rfl
  have hsources : freeSources source tops s = source.tree.children s :=
    List.filter_eq_self.2 fun x hx => by simp [hsource x (source.tree.lt_of_mem_children hx)]
  have htargets : freeTargets target tops t = target.tree.children t :=
    List.filter_eq_self.2 fun y hy => by simp [htarget y (target.tree.lt_of_mem_children hy)]
  rw [alignedChildren, hsources, htargets]
  refine Sequence.map_align_of_forall₂ (List.forall₂_iff_zip.2 ⟨h.children.length_eq, ?_⟩) 0 0
  intro c d hp
  obtain ⟨hc, hd⟩ := List.of_mem_zip hp
  have hisomorphic :=
    Measured.isomorphic_of_alike (h.child hp) (source.tree.lt_size_of_mem_children hc)
    (target.tree.lt_size_of_mem_children hd)
  have hfree : tops.subtreesFree source.tree target.tree c d = true := by
    rw [Mapping.subtreesFree, Bool.and_eq_true, List.all_eq_true, List.all_eq_true]
    refine ⟨fun x hx => ?_, fun y hy => ?_⟩
    · have hle := source.tree.le_of_within (source.tree.mem_preorder.1 hx)
      rw [hsource x (Nat.lt_of_lt_of_le (source.tree.lt_of_mem_children hc) hle)]
      rfl
    · have hle := target.tree.le_of_within (target.tree.mem_preorder.1 hy)
      rw [htarget y (Nat.lt_of_lt_of_le (target.tree.lt_of_mem_children hd) hle)]
      rfl
  rw [equalAndFree, hisomorphic, hfree]
  rfl

/-- If nothing is mapped, equal subtrees are mapped from their tops down. -/
theorem bottomUp_empty (threshold : Float) (h : source.tree.Alike target.tree s t)
    (hs : s < source.tree.size) :
    bottomUp source target threshold Mapping.empty s t =
      Mapping.empty.addSubtrees source.tree target.tree s t := by
  obtain ⟨mapping, hmapping, htwins⟩ := Mapping.exists_twins source.tree target.tree s t
  have hadd : (Mapping.empty.add s t).toExcept = .ok (Mapping.empty.insert s t) := rfl
  have hroots : pairRoots source target Mapping.empty s t = .ok (Mapping.empty.insert s t) := by
    have hsource : Mapping.empty.hasSource s = false := rfl
    have htarget : Mapping.empty.hasTarget t = false := rfl
    rw [pairRoots, hsource, htarget, h.kind_eq, beq_self_eq_true]
    exact hadd
  have hhas : (Mapping.empty.insert s t).has s t = true := by
    simp [Mapping.has, Mapping.target?_insert]
  have hchildren : alignChildren source target
      (equalAndFree source target (Mapping.empty.insert s t)) (Mapping.empty.insert s t) s t =
        .ok mapping := by
    rw [alignChildren_eq, alignedChildren_of_alike h, Mapping.foldlM_addSubtrees, ← hmapping,
      Mapping.addSubtrees, h.subtreePairs_eq, Mapping.addAll_cons, hadd, ok_bind]
  obtain ⟨hsources, htargets⟩ := full_of_twins h htwins
  obtain ⟨levels, hlevels⟩ := Nat.exists_eq_succ_of_ne_zero (source.height_pos hs).ne'
  rw [bottomUp, foldlM_fixed fun x _ => pairContainer_empty threshold t x, ok_bind, hroots, ok_bind,
    if_pos hhas, recover, hlevels, recoverWithin, hchildren, ok_bind,
    alignChildren_of_full _ hsources htargets, ok_bind, hsources, htargets, uniqueKinds_nil,
    hmapping]
  rfl

theorem matchMeasured_of_alike (thresholds : Thresholds) (h : source.tree.Alike target.tree s t)
    (hs : s < source.tree.size) (ht : t < target.tree.size) :
    matchMeasured source target thresholds s t =
      Mapping.empty.addSubtrees source.tree target.tree s t := by
  rw [matchMeasured, topDown_of_alike h hs ht]
  split
  · obtain ⟨mapping, hmapping, htwins⟩ := Mapping.exists_twins source.tree target.tree s t
    rw [hmapping, ok_bind, bottomUp_of_twins thresholds.dice h htwins]
  · rw [ok_bind, bottomUp_empty thresholds.dice h hs]

/-- **Equal subtrees are mapped along their preorders**, whatever the thresholds are. -/
theorem matchSubtrees_of_alike {source target : Tree} (thresholds : Thresholds)
    (h : source.Alike target s t) (hs : s < source.size) (ht : t < target.size) :
    matchSubtrees source target thresholds s t = Mapping.empty.addSubtrees source target s t :=
  matchMeasured_of_alike thresholds h hs ht

end Matching

end Reshape
