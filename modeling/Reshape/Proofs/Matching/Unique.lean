import Mathlib
import Reshape.Proofs.Mapping.Calls
import Reshape.Proofs.Matching.Identity
import Reshape.Proofs.Matching.WellFormed

/-! # Subtrees with one candidate are found

Take two alike nodes that are alike to no other node of the two subtrees.  If a source node above
the one is alike to a target node, then that target node is above the other one, and the two
subtrees pair the two nodes along their preorders: there is no other place for them.  In particular
two such target nodes are above one node and equally tall, so they are equal: nothing above the two
nodes has a rival.

The search goes down level by level.  Between two levels either both nodes are mapped, with all that
is below them, or both are below open nodes.  A level that pairs the open node above the one of them
maps both; any other level opens what is above them on both sides or leaves it open.  Open nodes get
less tall with every level, so at the last level the two nodes themselves are met. -/

namespace Reshape

namespace Tree

variable {source target : Tree} {sourceRoot targetRoot a b s t : Nat}

/-- Two alike nodes of two subtrees that are alike to no other node of them. -/
structure OnlyAlike (source target : Tree) (sourceRoot targetRoot s t : Nat) : Prop where
  source_within : source.Within sourceRoot s
  target_within : target.Within targetRoot t
  alike : source.Alike target s t
  source_only : ∀ x, source.Within sourceRoot x → source.Alike target x t → x = s
  target_only : ∀ y, target.Within targetRoot y → source.Alike target s y → y = t

namespace OnlyAlike

/-- Alike subtrees above the source node pair the two nodes. -/
theorem mem_subtreePairs_of_source (h : OnlyAlike source target sourceRoot targetRoot s t)
    (hb : target.Within targetRoot b) (hab : source.Alike target a b) (hs : source.Within a s) :
    (s, t) ∈ Mapping.subtreePairs source target a b := by
  obtain ⟨y, hy⟩ := exists_mem_zip_of_left hab.preorder.length_eq (source.mem_preorder.2 hs)
  have hwithin := (Mapping.mem_subtreePairs hy).2
  rw [← h.target_only y (hwithin.trans hb) (hab.of_mem_subtreePairs hy)]
  exact hy

/-- Alike subtrees above the target node pair the two nodes. -/
theorem mem_subtreePairs_of_target (h : OnlyAlike source target sourceRoot targetRoot s t)
    (ha : source.Within sourceRoot a) (hab : source.Alike target a b) (ht : target.Within b t) :
    (s, t) ∈ Mapping.subtreePairs source target a b := by
  obtain ⟨x, hx⟩ := exists_mem_zip_of_right hab.preorder.length_eq (target.mem_preorder.2 ht)
  have hwithin := (Mapping.mem_subtreePairs hx).1
  rw [← h.source_only x (hwithin.trans ha) (hab.of_mem_subtreePairs hx)]
  exact hx

end OnlyAlike

/-- What is paired along two alike subtrees is paired with all that is below. -/
theorem Alike.subtreePairs_subset (hab : source.Alike target a b) (hst : source.Alike target s t)
    (h : (s, t) ∈ Mapping.subtreePairs source target a b) :
    Mapping.subtreePairs source target s t ⊆ Mapping.subtreePairs source target a b := by
  induction hst using Alike.induct with
  | step s t hst ih =>
    rw [hst.subtreePairs_eq]
    refine List.cons_subset.2 ⟨h, fun p hp => ?_⟩
    obtain ⟨q, hq, hp⟩ := List.mem_flatMap.1 hp
    exact ih q hq (hab.child_mem_subtreePairs h hq) hp

end Tree

namespace Mapping

variable {source target : Tree} {mapping other : Mapping} {s t : Nat}

/-- Pairs that were added one by one are there afterwards; no other pair comes or goes. -/
theorem gains_of_addAll {pairs : List (Nat × Nat)} (h : mapping.addAll pairs = .ok other) :
    mapping.Gains other fun x y => (x, y) ∈ pairs := by
  induction pairs generalizing mapping with
  | nil =>
    obtain rfl := Except.ok.inj h
    intro x y
    simp
  | cons p pairs ih =>
    rw [addAll_cons] at h
    obtain ⟨next, hadd, h⟩ := bind_eq_ok.1 h
    intro x y
    rw [ih h x y, gains_of_add (Outcome.toExcept_eq_ok.1 hadd) x y]
    simp only [List.mem_cons, Prod.ext_iff, or_assoc]

/-- Two subtrees are mapped along their preorders. -/
def Follows (source target : Tree) (s t : Nat) (mapping : Mapping) : Prop :=
  ∀ p ∈ subtreePairs source target s t, mapping.target? p.1 = some p.2

theorem Follows.mono (h : Follows source target s t mapping)
    (hkeeps : ∀ x y, mapping.target? x = some y → other.target? x = some y) :
    Follows source target s t other :=
  fun p hp => hkeeps p.1 p.2 (h p hp)

end Mapping

namespace Matching

variable {digest : Digest} {source target measured : Measured digest} {sweep next : Sweep}
  {minHeight height root sourceRoot targetRoot a b c s t x : Nat} {ids unmatched : List Nat}

/-! ### One level -/

/-- A node that is tall enough stays below an open node if the open node above it is of another
level, or has no partner and is not the node itself. -/
theorem exists_openBelow (ha : a ∈ ids) (hx : measured.tree.Within a x)
    (htall : minHeight ≤ measured.height x)
    (hlevel : measured.height a = height → a ∈ unmatched ∧ x ≠ a) :
    ∃ c ∈ openBelow measured minHeight height ids unmatched, measured.tree.Within c x := by
  by_cases hheight : measured.height a = height
  · obtain ⟨hunmatched, hne⟩ := hlevel hheight
    obtain heq | ⟨c, hxc, hca⟩ := Relation.ReflTransGen.cases_tail hx
    · exact absurd heq.symm hne
    · have hle := Measured.height_le_of_within hxc
      refine ⟨c, mem_openBelow_iff.2 (.inr ⟨Nat.le_trans htall hle, a, hunmatched, ?_⟩), hxc⟩
      exact measured.tree.mem_children.2 hca
  · exact ⟨a, mem_openBelow_iff.2 (.inl ⟨ha, hheight⟩), hx⟩

/-! ### Two nodes on their way -/

/-- Either two subtrees are mapped, or the two nodes are still below open nodes. -/
def OnTheWay (source target : Measured digest) (s t : Nat) (sweep : Sweep) : Prop :=
  sweep.mapping.Follows source.tree target.tree s t ∨
    (∃ a ∈ sweep.openSource, source.tree.Within a s) ∧
      ∃ b ∈ sweep.openTarget, target.tree.Within b t

/-- What is known before a level of the given height. -/
structure Approaching (source target : Measured digest)
    (sourceRoot targetRoot minHeight height s t : Nat) (sweep : Sweep) : Prop where
  sweeping : Sweeping source target sourceRoot targetRoot sweep
  sources : Between source minHeight height sweep.openSource
  targets : Between target minHeight height sweep.openTarget
  onTheWay : OnTheWay source target s t sweep

/-- A pair that is the only one for both of its nodes has no rival. -/
theorem isUnique_of_only {sources targets : List Nat} (hsources : sources.Nodup)
    (htargets : targets.Nodup) (ha : a ∈ sources) (hb : b ∈ targets)
    (hab : source.isomorphic a target b = true)
    (hleft : ∀ c ∈ targets, source.isomorphic a target c = true → c = b)
    (hright : ∀ c ∈ sources, source.isomorphic c target b = true → c = a) :
    isUnique source target sources targets (a, b) = true := by
  have htarget : (targets.filter (source.isomorphic a target ·)).Perm [b] := by
    refine (List.perm_ext_iff_of_nodup (htargets.filter _) (List.nodup_singleton b)).2 fun c => ?_
    rw [List.mem_filter, List.mem_singleton]
    constructor
    · exact fun hc => hleft c hc.1 hc.2
    · rintro rfl
      exact ⟨hb, hab⟩
  have hsource : (sources.filter (source.isomorphic · target b)).Perm [a] := by
    refine (List.perm_ext_iff_of_nodup (hsources.filter _) (List.nodup_singleton a)).2 fun c => ?_
    rw [List.mem_filter, List.mem_singleton]
    constructor
    · exact fun hc => hright c hc.1 hc.2
    · rintro rfl
      exact ⟨ha, hab⟩
  rw [isUnique, htarget.length_eq, hsource.length_eq]
  rfl

section Meeting

variable (h : Sweeping source target sourceRoot targetRoot sweep)
  (honly : source.tree.OnlyAlike target.tree sourceRoot targetRoot s t)
  (ha : a ∈ sweep.openSource) (has : source.tree.Within a s)
  (hb : b ∈ sweep.openTarget) (hbt : target.tree.Within b t)

include h honly ha has hb hbt

/-- What pairs an open node above one of two nodes pairs the open nodes above both. -/
theorem Sweeping.pair_above {d : Nat} (hc : c ∈ sweep.openSource) (hd : d ∈ sweep.openTarget)
    (hiso : source.isomorphic c target d = true) (hside : c = a ∨ d = b) :
    (c = a ∧ d = b) ∧ (s, t) ∈ Mapping.subtreePairs source.tree target.tree a b := by
  have halike := Measured.alike_of_isomorphic hiso
  have hpair : (s, t) ∈ Mapping.subtreePairs source.tree target.tree c d := by
    rcases hside with rfl | rfl
    · exact honly.mem_subtreePairs_of_source (h.targets.within d hd) halike has
    · exact honly.mem_subtreePairs_of_target (h.sources.within c hc) halike hbt
  obtain ⟨hcs, hdt⟩ := Mapping.mem_subtreePairs hpair
  obtain rfl := h.sources.apart c hc a ha s hcs has
  obtain rfl := h.targets.apart d hd b hb t hdt hbt
  exact ⟨⟨rfl, rfl⟩, hpair⟩

/-- A level that pairs the open nodes above two nodes maps these as well. -/
theorem Sweeping.follows_of_meet (hsa : source.height a = height) (htb : target.height b = height)
    (hiso : source.isomorphic a target b = true)
    (hlevel : sweepLevel source target minHeight sweep height = .ok next) :
    next.mapping.Follows source.tree target.tree s t := by
  have habove := fun c d => h.pair_above honly ha has hb hbt (c := c) (d := d)
  have hunique : isUnique source target (levelNodes source height sweep.openSource)
      (levelNodes target height sweep.openTarget) (a, b) = true := by
    refine isUnique_of_only (nodup_levelNodes h.sources.nodup) (nodup_levelNodes h.targets.nodup)
      (mem_levelNodes.2 ⟨ha, hsa⟩) (mem_levelNodes.2 ⟨hb, htb⟩) hiso ?_ ?_
    · exact fun d hd hiso => (habove a d ha (mem_levelNodes.1 hd).1 hiso (.inl rfl)).1.2
    · exact fun c hc hiso => (habove c b (mem_levelNodes.1 hc).1 hb hiso (.inr rfl)).1.1
  obtain ⟨hmapping, -, -⟩ := sweepLevel_ok hlevel
  rw [Mapping.foldlM_addSubtrees] at hmapping
  have hpair := (habove a b ha hb hiso (.inl rfl)).2
  have hsub := (Measured.alike_of_isomorphic hiso).subtreePairs_subset honly.alike hpair
  refine fun p hp => (Mapping.gains_of_addAll hmapping p.1 p.2).2
    (.inr (List.mem_flatMap.2 ⟨(a, b), List.mem_filter.2 ⟨mem_levelPairs.2 ?_, hunique⟩, hsub hp⟩))
  exact ⟨mem_levelNodes.2 ⟨ha, hsa⟩, mem_levelNodes.2 ⟨hb, htb⟩, hiso⟩

/-- A level that does not pair the open nodes above two nodes finds no partner for either of
them. -/
theorem Sweeping.alone_of_not_meet
    (hmeet : ¬(source.height a = height ∧ target.height b = height ∧
      source.isomorphic a target b = true))
    {p : Nat × Nat} (hp : p ∈ levelPairs source target (levelNodes source height sweep.openSource)
      (levelNodes target height sweep.openTarget)) : p.1 ≠ a ∧ p.2 ≠ b := by
  obtain ⟨hsource, htarget, hiso⟩ := mem_levelPairs.1 hp
  obtain ⟨hsource, hsa⟩ := mem_levelNodes.1 hsource
  obtain ⟨htarget, htb⟩ := mem_levelNodes.1 htarget
  refine not_or.1 fun hside => hmeet ?_
  obtain ⟨⟨hpa, hpb⟩, -⟩ := h.pair_above honly ha has hb hbt hsource htarget hiso hside
  rw [← hpa, ← hpb]
  exact ⟨hsa, htb, hiso⟩

end Meeting

/-- A level maps two nodes with one candidate, or leaves both below open nodes. -/
theorem Approaching.onTheWay_level
    (honly : source.tree.OnlyAlike target.tree sourceRoot targetRoot s t) (hpos : 0 < minHeight)
    (htall : minHeight ≤ source.height s) (hheight : target.height t = source.height s)
    (h : Approaching source target sourceRoot targetRoot minHeight (height + 1) s t sweep)
    (hlevel : sweepLevel source target minHeight sweep height = .ok next) :
    OnTheWay source target s t next := by
  obtain ⟨hmapping, hopenSource, hopenTarget⟩ := sweepLevel_ok hlevel
  rw [Mapping.foldlM_addSubtrees] at hmapping
  rcases h.onTheWay with hdone | ⟨⟨a, ha, has⟩, b, hb, hbt⟩
  · exact .inl (hdone.mono fun x y hxy => (Mapping.gains_of_addAll hmapping x y).2 (.inl hxy))
  by_cases hmeet : source.height a = height ∧ target.height b = height ∧
      source.isomorphic a target b = true
  · obtain ⟨hsa, htb, hiso⟩ := hmeet
    exact .inl (h.sweeping.follows_of_meet honly ha has hb hbt hsa htb hiso hlevel)
  have hlone := fun p => h.sweeping.alone_of_not_meet honly ha has hb hbt hmeet (p := p)
  -- Were it the level of the two nodes, they would be the open nodes themselves and meet.
  have hlower : source.height s ≠ height := by
    intro hs
    have hsa : s = a := by
      have := h.sources a ha
      exact Measured.eq_of_within_of_height_le has (by omega)
    have htb : t = b := by
      have := h.targets b hb
      exact Measured.eq_of_within_of_height_le hbt (by omega)
    subst hsa htb
    refine hmeet ⟨hs, hheight.trans hs, ?_⟩
    exact Measured.isomorphic_of_alike honly.alike (Measured.lt_size_of_height_pos (by omega))
      (Measured.lt_size_of_height_pos (by omega))
  refine .inr ⟨?_, ?_⟩
  · rw [hopenSource]
    refine exists_openBelow ha has htall fun hsa => ⟨List.mem_filter.2 ⟨?_, ?_⟩, ?_⟩
    · exact mem_levelNodes.2 ⟨ha, hsa⟩
    · simpa using fun x y hxy => (hlone (x, y) hxy).1
    · rintro rfl
      exact hlower hsa
  · rw [hopenTarget]
    refine exists_openBelow hb hbt (hheight ▸ htall) fun htb => ⟨List.mem_filter.2 ⟨?_, ?_⟩, ?_⟩
    · exact mem_levelNodes.2 ⟨hb, htb⟩
    · simpa using fun x y hxy => (hlone (x, y) hxy).2
    · rintro rfl
      exact hlower (hheight ▸ htb)

/-- What is known before a level is known before the next one. -/
theorem Approaching.level (honly : source.tree.OnlyAlike target.tree sourceRoot targetRoot s t)
    (hpos : 0 < minHeight) (htall : minHeight ≤ source.height s)
    (hheight : target.height t = source.height s)
    (h : Approaching source target sourceRoot targetRoot minHeight (height + 1) s t sweep)
    (hlevel : sweepLevel source target minHeight sweep height = .ok next) :
    Approaching source target sourceRoot targetRoot minHeight height s t next := by
  obtain ⟨hsources, htargets⟩ := between_of_sweepLevel h.sources h.targets hlevel
  obtain ⟨next', hnext', hsweeping⟩ := h.sweeping.level minHeight height
  obtain rfl := Except.ok.inj (hlevel.symm.trans hnext')
  exact ⟨hsweeping, hsources, htargets, h.onTheWay_level honly hpos htall hheight hlevel⟩

/-! ### All levels -/

/-- When no level is left, nothing is open any more. -/
theorem Approaching.follows_of_le
    (h : Approaching source target sourceRoot targetRoot minHeight height s t sweep)
    (hlow : height ≤ minHeight) : sweep.mapping.Follows source.tree target.tree s t := by
  rcases h.onTheWay with hdone | ⟨⟨a, ha, -⟩, -⟩
  · exact hdone
  · rw [h.sources.eq_nil hlow] at ha
    exact absurd ha List.not_mem_nil

/-- After the last level two nodes with one candidate are mapped. -/
theorem Approaching.follows (honly : source.tree.OnlyAlike target.tree sourceRoot targetRoot s t)
    (hpos : 0 < minHeight) (htall : minHeight ≤ source.height s)
    (hheight : target.height t = source.height s)
    (h : Approaching source target sourceRoot targetRoot minHeight height s t sweep)
    (hsweep : sweep.run source target minHeight height = .ok next) :
    next.mapping.Follows source.tree target.tree s t := by
  -- The induction is on the bound of the levels to come.
  rw [Sweep.run] at hsweep
  induction height generalizing sweep with
  | zero =>
    rw [sweepHeights_of_le (Nat.zero_le _)] at hsweep
    obtain rfl := Except.ok.inj hsweep
    exact h.follows_of_le (Nat.zero_le _)
  | succ height ih =>
    by_cases hlow : minHeight ≤ height
    · rw [sweepHeights_succ hlow, List.foldlM_cons] at hsweep
      obtain ⟨middle, hlevel, hsweep⟩ := bind_eq_ok.1 hsweep
      exact ih (h.level honly hpos htall hheight hlevel) hsweep
    · rw [sweepHeights_of_le (by omega)] at hsweep
      obtain rfl := Except.ok.inj hsweep
      exact h.follows_of_le (by omega)

/-- Pairs that were put aside take nothing away. -/
theorem addIfFree_keeps {mapping other : Mapping} {p : Nat × Nat}
    (h : addIfFree source target mapping p = .ok other) {x y : Nat}
    (hxy : mapping.target? x = some y) : other.target? x = some y := by
  rw [addIfFree] at h
  split at h
  · exact (Mapping.gains_of_addAll h x y).2 (.inl hxy)
  · obtain rfl := Except.ok.inj h
    exact hxy

/-- The search maps two nodes with one candidate, with all that is below them. -/
theorem follows_topDown (honly : source.tree.OnlyAlike target.tree sourceRoot targetRoot s t)
    (hpos : 0 < minHeight) (htall : minHeight ≤ source.height s)
    (hheight : target.height t = source.height s) {mapping : Mapping}
    (h : topDown source target minHeight sourceRoot targetRoot = .ok mapping) :
    mapping.Follows source.tree target.tree s t := by
  have hsource := Measured.height_le_of_within honly.source_within
  have htarget := Measured.height_le_of_within honly.target_within
  have hstart : Approaching source target sourceRoot targetRoot minHeight
      (max (source.height sourceRoot) (target.height targetRoot) + 1) s t
      (.start source target minHeight sourceRoot targetRoot) := by
    refine ⟨sweeping_start source target minHeight sourceRoot targetRoot,
      between_tallEnough (Nat.lt_succ_of_le (Nat.le_max_left ..)),
      between_tallEnough (Nat.lt_succ_of_le (Nat.le_max_right ..)), .inr ⟨⟨sourceRoot,
        List.mem_filter.2 ⟨List.mem_singleton_self _, ?_⟩, honly.source_within⟩, targetRoot,
        List.mem_filter.2 ⟨List.mem_singleton_self _, ?_⟩, honly.target_within⟩⟩
    · exact decide_eq_true (by omega)
    · exact decide_eq_true (by omega)
  rw [topDown_eq_sweep] at h
  obtain ⟨sweep, hsweep, h⟩ := bind_eq_ok.1 h
  refine foldlM_keeps _ (hstart.follows honly hpos htall hheight hsweep) ?_ h
  intro p _ state next hstate hnext
  exact hstate.mono fun x y => addIfFree_keeps hnext

/-- Matching inner nodes takes nothing away from what the search has found. -/
theorem exists_matchMeasured_follows (thresholds : Thresholds)
    (honly : source.tree.OnlyAlike target.tree sourceRoot targetRoot s t)
    (ht : t < target.tree.size) (htall : max thresholds.minHeight 1 ≤ source.height s) :
    ∃ mapping, matchMeasured source target thresholds sourceRoot targetRoot = .ok mapping ∧
      mapping.Follows source.tree target.tree s t := by
  have hpos : 0 < max thresholds.minHeight 1 := by omega
  have hs : s < source.tree.size := Measured.lt_size_of_height_pos (Nat.lt_of_lt_of_le hpos htall)
  have hheight := (Measured.height_eq_of_alike honly.alike hs ht).symm
  obtain ⟨found, hfound, hgrow⟩ :=
    exists_topDown source target (max thresholds.minHeight 1) sourceRoot targetRoot
  obtain ⟨mapping, hmapping, hgrow'⟩ :=
    exists_bottomUp thresholds.dice hgrow.oneToOne sourceRoot targetRoot
  refine ⟨mapping, by rw [matchMeasured, hfound, ok_bind, hmapping], ?_⟩
  exact (follows_topDown honly hpos htall hheight hfound).mono hgrow'.keeps

/-- **Subtrees with one candidate are found.**  A node that counts by its height and is alike to a
single target node, which is alike to no other source node, is mapped to that node, and all below
the one to what stands at the same place below the other. -/
theorem unique_subtrees_matched (source target : Tree) (thresholds : Thresholds)
    {sourceRoot targetRoot s t : Nat} (hroot : targetRoot < target.size)
    (honly : source.OnlyAlike target sourceRoot targetRoot s t)
    (htall : max thresholds.minHeight 1 ≤ source.heights.getD s 0) :
    ∃ mapping, matchSubtrees source target thresholds sourceRoot targetRoot = .ok mapping ∧
      mapping.target? s = some t ∧
      List.Forall₂ (fun x y => mapping.target? x = some y) (source.preorder s)
        (target.preorder t) := by
  have ht : t < target.size :=
    (target.eq_or_lt_size_of_within honly.target_within).elim (fun heq => heq ▸ hroot) id
  obtain ⟨mapping, hmapping, hfollows⟩ := @exists_matchMeasured_follows Digest.standard
    (source.measured _) (target.measured _) sourceRoot targetRoot s t thresholds honly ht htall
  refine ⟨mapping, hmapping, hfollows (s, t) honly.alike.mem_subtreePairs_self, ?_⟩
  exact List.forall₂_iff_zip.2 ⟨honly.alike.preorder.length_eq, fun hp => hfollows _ hp⟩

/-- A call is moved into a new block; one of its leaves occurs elsewhere as well. -/
theorem unique_subtrees_matched_moved :
    let source : Tree := .ofNodes default "" #[{ kind := "block" },
      { kind := "call", parent := some 0 }, { kind := "id", label := "f", parent := some 1 },
      { kind := "id", label := "x", parent := some 1 },
      { kind := "id", label := "x", parent := some 0 }]
    let target : Tree := .ofNodes default "" #[{ kind := "block" },
      { kind := "id", label := "x", parent := some 0 }, { kind := "block", parent := some 0 },
      { kind := "call", parent := some 2 }, { kind := "id", label := "f", parent := some 3 },
      { kind := "id", label := "x", parent := some 3 }]
    source.OnlyAlike target 0 0 1 3 ∧ ∃ mapping, matchSubtrees source target {} 0 0 = .ok mapping ∧
      mapping.target? 1 = some 3 ∧ mapping.target? 3 = some 5 := by
  intro source target
  have honly : source.OnlyAlike target 0 0 1 3 := by
    constructor
    case source_within => exact source.isAncestorOrSelf_iff.1 (by decide)
    case target_within => exact target.isAncestorOrSelf_iff.1 (by decide)
    case alike => rfl
    case source_only =>
      intro x hx halike
      have hlt : x < 5 := (source.eq_or_lt_size_of_within hx).elim (fun h => by omega) id
      exact (by decide : ∀ x < 5, source.kind x = target.kind 3 → x = 1) x hlt halike.kind_eq
    case target_only =>
      intro y hy halike
      have hlt : y < 6 := (target.eq_or_lt_size_of_within hy).elim (fun h => by omega) id
      exact (by decide : ∀ y < 6, source.kind 1 = target.kind y → y = 3) y hlt halike.kind_eq
  obtain ⟨mapping, hmapping, htop, hbelow⟩ :=
    unique_subtrees_matched source target {} (by decide) honly (by decide)
  have hsource : source.preorder 1 = [1, 2, 3] := rfl
  have htarget : target.preorder 3 = [3, 4, 5] := rfl
  rw [hsource, htarget] at hbelow
  simp only [List.forall₂_cons] at hbelow
  exact ⟨honly, mapping, hmapping, htop, hbelow.2.2.1⟩

end Matching

end Reshape
