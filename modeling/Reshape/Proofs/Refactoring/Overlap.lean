import Mathlib
import Reshape.Proofs.Refactoring.Mirror
import Reshape.Proofs.Sequence.Overlap
import Reshape.Refactoring.Merge

/-! # What supports a fact is the overlap that was measured

Merges and splits are found by the share of statements that two operations have in common,
extractions and inlinings by the share of a body that is found among lost statements.  What supports
such a fact are pairs of statements, paired first come.  There are exactly as many of them as the
overlap counts, so the thresholds are compared with what is shown. -/

namespace Reshape

open Sequence

namespace Operation

variable {host other callee : Operation} {call : Invocation} {threshold : Float}

theorem length_sharedStatements (b a : Operation) :
    (b.sharedStatements a).length = overlap b.statementTexts a.statementTexts := by
  rw [sharedStatements, List.length_map, firstCome, length_firstComeFrom, List.zipIdx_map_fst]

theorem lostTexts_sublist (host other : Operation) :
    (host.lostTexts other).Sublist host.statementTexts.zipIdx :=
  List.filter_sublist

theorem length_foundPlaces (callee : Operation) (call : Invocation) (host other : Operation) :
    (callee.foundPlaces call host other).length =
      overlap (callee.boundTexts call) ((host.lostTexts other).map Prod.fst) :=
  length_firstComeFrom 0 _ _

/-- Places in the host are found among those that it did not keep. -/
theorem notMem_keptPlaces_of_foundPlaces {p : Nat × Nat}
    (h : p ∈ callee.foundPlaces call host other) : p.2 ∉ host.keptPlaces other := by
  obtain ⟨item, hitem, heq⟩ := List.mem_map.1 (mem_firstCome h).2
  rw [← heq]
  simpa using (List.mem_filter.1 hitem).2

/-- What is relocated are the places that are found, if they are enough. -/
theorem eq_foundPlaces_of_relocated {found : List (Nat × Nat)}
    (h : callee.relocated? call host other threshold = some found) :
    found = callee.foundPlaces call host other ∧
      ¬ Similarity.ratio found.length callee.statements.length < threshold := by
  rw [relocated?] at h
  split at h
  · cases h
  · rename_i hnot
    obtain rfl := Option.some.inj h
    simp only [Bool.or_eq_true, decide_eq_true_eq, not_or] at hnot
    exact ⟨rfl, hnot.1.2⟩

end Operation

namespace Comparison

variable (c : Comparison)

/-! ### Merges and splits -/

/-- The sources of a merge are chosen by the number of pairs that each of them shows. -/
theorem mergeSources_eq (target : Operation) :
    c.mergeSources target = c.removedOperations.filter fun op => c.comparable op target &&
      c.thresholds.mergeFraction ≤
        Similarity.ratio (op.sharedStatements target).length op.statements.length := by
  simp only [Operation.length_sharedStatements]
  rfl

/-- The targets of a split are chosen by the number of pairs that each of them shows. -/
theorem splitTargets_eq (source : Operation) :
    c.splitTargets source = c.addedOperations.filter fun op => c.comparable source op &&
      c.thresholds.mergeFraction ≤
        Similarity.ratio (source.sharedStatements op).length op.statements.length := by
  simp only [Operation.length_sharedStatements, overlap_comm source.statementTexts]
  rfl

theorem justification_of_merge {target : Operation} {r : Refactoring}
    (h : c.merge? target = some r) :
    r.justification = (c.mergeSources target).flatMap fun op => op.sharedStatements target := by
  simp only [merge?] at h
  split at h
  · cases h
  · obtain rfl := Option.some.inj h
    rfl

theorem justification_of_split {source : Operation} {r : Refactoring}
    (h : c.split? source = some r) :
    r.justification = (c.splitTargets source).flatMap fun op => source.sharedStatements op := by
  simp only [split?] at h
  split at h
  · cases h
  · obtain rfl := Option.some.inj h
    rfl

/-! ### Extractions and inlinings -/

/-- The fragments that support a relocation of a body are as many as it shares with the statements
that its host lost, and that is what the threshold is compared with. -/
def ShowsBody (r : Refactoring) (body host other : Operation) : Prop :=
  ∃ call, other.extraCall? host body.name = some call ∧
    r.justification.length =
      overlap (body.boundTexts call) ((host.lostTexts other).map Prod.fst) ∧
    ¬ Similarity.ratio r.justification.length body.statements.length < c.thresholds.extractOverlap

theorem showsBody_of_extraction {op b a : Operation} {r : Refactoring}
    (h : c.extraction? op b a = some r) : c.ShowsBody r op b a := by
  simp only [extraction?] at h
  split at h
  · cases h
  · obtain ⟨call, hcall, h⟩ := Option.bind_eq_some_iff.1 h
    obtain ⟨found, hfound, h⟩ := Option.bind_eq_some_iff.1 h
    obtain rfl := Option.some.inj h
    obtain ⟨rfl, henough⟩ := Operation.eq_foundPlaces_of_relocated hfound
    refine ⟨call, hcall, ?_, ?_⟩
    · rw [List.length_map, Operation.length_foundPlaces]
    · rwa [List.length_map]

theorem showsBody_of_inlining {op b a : Operation} {r : Refactoring}
    (h : c.inlining? op b a = some r) : c.ShowsBody r op a b := by
  rw [inlining?_eq] at h
  obtain ⟨mirror, hmirror, rfl⟩ := Option.map_eq_some_iff.1 h
  obtain ⟨call, hcall, hlength, henough⟩ := c.reversed.showsBody_of_extraction hmirror
  refine ⟨call, hcall, ?_, ?_⟩
  · rwa [Refactoring.mirrored, List.length_map]
  · rwa [Refactoring.mirrored, List.length_map]

/-! ### All four -/

/-- What supports merges, splits, extractions and inlinings are as many pairs of statements as the
shares count that were compared with the thresholds. -/
structure ShowsOverlap : Prop where
  merges : ∀ r ∈ c.merges, ∃ target ∈ c.addedOperations,
    r.justification = ((c.mergeSources target).flatMap fun op => op.sharedStatements target) ∧
    c.mergeSources target = c.removedOperations.filter fun op => c.comparable op target &&
      c.thresholds.mergeFraction ≤
        Similarity.ratio (op.sharedStatements target).length op.statements.length
  splits : ∀ r ∈ c.splits, ∃ source ∈ c.removedOperations,
    r.justification = ((c.splitTargets source).flatMap fun op => source.sharedStatements op) ∧
    c.splitTargets source = c.addedOperations.filter fun op => c.comparable source op &&
      c.thresholds.mergeFraction ≤
        Similarity.ratio (source.sharedStatements op).length op.statements.length
  extractions : ∀ r ∈ c.extractions, ∃ extracted ∈ c.addedOperations, ∃ p ∈ c.operationPairs,
    c.ShowsBody r extracted p.1 p.2
  inlinings : ∀ r ∈ c.inlinings, ∃ inlined ∈ c.removedOperations, ∃ p ∈ c.operationPairs,
    c.ShowsBody r inlined p.2 p.1

theorem showsOverlap : c.ShowsOverlap where
  merges r hr := by
    obtain ⟨target, htarget, hr⟩ := List.mem_filterMap.1 hr
    exact ⟨target, htarget, c.justification_of_merge hr, c.mergeSources_eq target⟩
  splits r hr := by
    obtain ⟨source, hsource, hr⟩ := List.mem_filterMap.1 hr
    exact ⟨source, hsource, c.justification_of_split hr, c.splitTargets_eq source⟩
  extractions r hr := by
    obtain ⟨op, hop, hr⟩ := List.mem_flatMap.1 hr
    obtain ⟨p, hp, hr⟩ := List.mem_filterMap.1 hr
    exact ⟨op, hop, p, hp, c.showsBody_of_extraction hr⟩
  inlinings r hr := by
    obtain ⟨op, hop, hr⟩ := List.mem_flatMap.1 hr
    obtain ⟨p, hp, hr⟩ := List.mem_filterMap.1 hr
    exact ⟨op, hop, p, hp, c.showsBody_of_inlining hr⟩

/-- **First-come pairing attains the overlap.**  The overlap of two lists is the sum of the smaller
multiplicities, which counting one list and using up the counts along the other finds too.  The
statements that two operations share are paired by marking what is taken; there are as many pairs as
the texts overlap, of equal texts, and no statement is in two of them.  So are the statements of a
body that are found among those that its host did not keep.  Hence what supports a fact is what the
thresholds were compared with. -/
theorem first_come_attains_overlap (c : Comparison) :
    (∀ (α : Type) [DecidableEq α] (xs ys : List α),
      overlap xs ys = ∑ x ∈ xs.toFinset ∪ ys.toFinset, min (xs.count x) (ys.count x) ∧
      overlap xs ys = useUp (xs.count ·) ys ∧ overlap xs ys = overlap ys xs ∧
      overlap xs ys ≤ xs.length ∧ overlap xs ys ≤ ys.length) ∧
    (∀ b a : Operation,
      let pairs := markFrom 0 [] b.statementTexts a.statementTexts.zipIdx
      b.sharedStatements a = pairs.map (b.fragmentPair a) ∧
      pairs.length = overlap b.statementTexts a.statementTexts ∧
      PairsEqual b.statementTexts a.statementTexts pairs) ∧
    (∀ (callee : Operation) (call : Invocation) (host other : Operation),
      let found := callee.foundPlaces call host other
      found = markFrom 0 [] (callee.boundTexts call) (host.lostTexts other) ∧
      found.length = overlap (callee.boundTexts call) ((host.lostTexts other).map Prod.fst) ∧
      PairsEqual (callee.boundTexts call) host.statementTexts found ∧
      ∀ p ∈ found, p.2 ∉ host.keptPlaces other) ∧
    c.ShowsOverlap := by
  refine ⟨fun α _ xs ys => ?_, fun b a => ?_, fun callee call host other => ?_, c.showsOverlap⟩
  · exact ⟨overlap_eq_sum xs ys, (useUp_count xs ys).symm, overlap_comm xs ys,
      overlap_le_left xs ys, overlap_le_right xs ys⟩
  · have hmark := firstCome_eq_markFrom b.statementTexts (List.Sublist.refl a.statementTexts.zipIdx)
    rw [← hmark]
    refine ⟨rfl, ?_, pairsEqual_firstCome _ (List.Sublist.refl _)⟩
    rw [← b.length_sharedStatements a, Operation.sharedStatements, List.length_map]
  · have hlost := host.lostTexts_sublist other
    exact ⟨firstCome_eq_markFrom _ hlost, Operation.length_foundPlaces ..,
      pairsEqual_firstCome _ hlost, fun p => Operation.notMem_keptPlaces_of_foundPlaces⟩

/-- A text that occurs three times before and twice after is paired twice, each time with another
statement. -/
theorem first_come_attains_overlap_repeated :
    let op (texts : List String) : Operation :=
      { (default : Operation) with statements := texts.map fun text =>
        { (default : Statement) with text } }
    let b := op ["x", "y", "x", "x"]
    let a := op ["x", "z", "x"]
    (b.sharedStatements a).length = 2 ∧ overlap b.statementTexts a.statementTexts = 2 ∧
      PairsEqual b.statementTexts a.statementTexts [(0, 0), (2, 2)] := by
  intro op b a
  obtain ⟨-, hshared, -⟩ := first_come_attains_overlap
    { before := .empty, after := .empty, pairing := default }
  obtain ⟨hpairs, hlength, hequal⟩ := hshared b a
  exact ⟨by rw [hpairs]; rfl, hlength.symm, hequal⟩

end Comparison

end Reshape
