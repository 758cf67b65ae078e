import Mathlib
import Reshape.Matching
import Reshape.Proofs.Matching.Levels
import Reshape.Proofs.Matching.Recovery

/-! # Matching always gives a well-formed mapping

The search for equal subtrees keeps open nodes on either side.  No node belongs to the subtrees of
two open nodes, and no node of an open subtree has a partner.  A level takes away open nodes and
puts their children in their place, so this stays true, and pairs without a rival can be mapped.
Pairs with rivals are mapped only if they are free when their turn comes.

Scores only decide which pairs are tried first and which container is the best one, so they do not
matter here. -/

namespace Reshape.Matching

variable {digest : Digest} {source target : Measured digest}

/-! ### Open nodes -/

/-- Open nodes below a root: no two of their subtrees have a node in common. -/
structure Open (tree : Tree) (root : Nat) (ids : List Nat) : Prop where
  nodup : ids.Nodup
  within : ∀ a ∈ ids, tree.Within root a
  apart : ∀ a ∈ ids, ∀ b ∈ ids, ∀ x, tree.Within a x → tree.Within b x → a = b

variable {measured : Measured digest} {root minHeight height a b c x : Nat}
  {ids unmatched : List Nat}

theorem open_tallEnough (measured : Measured digest) (minHeight root : Nat) :
    Open measured.tree root (tallEnough measured minHeight [root]) := by
  have hsub : (tallEnough measured minHeight [root]).Sublist [root] := List.filter_sublist
  have hmem : ∀ a ∈ tallEnough measured minHeight [root], a = root := fun a ha =>
    List.mem_singleton.1 (hsub.subset ha)
  refine ⟨(List.nodup_singleton root).sublist hsub, fun a ha => ?_, fun a ha b hb x _ _ => ?_⟩
  · rw [hmem a ha]
    exact Leads.refl root
  · rw [hmem a ha, hmem b hb]

/-- What is open after a level comes from an open node: it is that node, of another height, or a
child of that node, which found no partner. -/
theorem mem_openBelow (h : c ∈ openBelow measured minHeight height ids unmatched) :
    (c ∈ ids ∧ measured.height c ≠ height) ∨ ∃ a ∈ unmatched, c ∈ measured.tree.children a :=
  (mem_openBelow_iff.1 h).imp_right And.right

/-- The open nodes after a level. -/
theorem Open.below (h : Open measured.tree root ids) (hnodup : unmatched.Nodup)
    (hsub : ∀ a ∈ unmatched, a ∈ ids ∧ measured.height a = height) :
    Open measured.tree root (openBelow measured minHeight height ids unmatched) := by
  -- The subtree of a child is part of that of its parent.
  have hchild : ∀ {a c}, c ∈ measured.tree.children a → ∀ {x}, measured.tree.Within c x →
      measured.tree.Within a x :=
    fun hc x hx => hx.trans (Leads.single (measured.tree.mem_children.1 hc))
  refine ⟨?_, ?_, ?_⟩
  · refine List.nodup_append.2 ⟨h.nodup.filter _, List.Nodup.filter _ ?_, ?_⟩
    · refine List.nodup_flatMap.2 ⟨fun a _ => measured.tree.nodup_children a, ?_⟩
      refine hnodup.imp fun {a b} hne => List.disjoint_left.2 fun c hca hcb => hne ?_
      exact Option.some.inj ((measured.tree.mem_children.1 hca).symm.trans
        (measured.tree.mem_children.1 hcb))
    · rintro a ha c hc rfl
      obtain ⟨u, hu, hau⟩ := List.mem_flatMap.1 (List.mem_filter.1 hc).1
      have heq := h.apart a (List.mem_filter.1 ha).1 u (hsub u hu).1 a (Leads.refl a)
        (hchild hau (Leads.refl a))
      rw [← heq] at hau
      exact Nat.lt_irrefl a (measured.tree.lt_of_mem_children hau)
  · intro c hc
    rcases mem_openBelow hc with ⟨hc, -⟩ | ⟨a, ha, hca⟩
    · exact h.within c hc
    · exact hchild hca (Leads.refl c) |>.trans (h.within a (hsub a ha).1)
  · -- Both come from open nodes above `x`, which are one and the same.
    intro c hc d hd x hcx hdx
    rcases mem_openBelow hc with ⟨hc, hheight⟩ | ⟨a, ha, hca⟩ <;>
      rcases mem_openBelow hd with ⟨hd, hheight'⟩ | ⟨b, hb, hdb⟩
    · exact h.apart c hc d hd x hcx hdx
    · obtain rfl := h.apart c hc b (hsub b hb).1 x hcx (hchild hdb hdx)
      exact absurd (hsub c hb).2 hheight
    · obtain rfl := h.apart a (hsub a ha).1 d hd x (hchild hca hcx) hdx
      exact absurd (hsub a ha).2 hheight'
    · obtain rfl := h.apart a (hsub a ha).1 b (hsub b hb).1 x (hchild hca hcx) (hchild hdb hdx)
      exact measured.tree.eq_of_within_siblings hca hdb hcx hdx

/-- A node below what is open after a level was below an open node before, and is not below a node
of the level that found a partner. -/
theorem Open.above (h : Open measured.tree root ids) (hsub : ∀ a ∈ unmatched, a ∈ ids)
    (hc : c ∈ openBelow measured minHeight height ids unmatched) (hx : measured.tree.Within c x) :
    (∃ a ∈ ids, measured.tree.Within a x) ∧
      ∀ m ∈ ids, measured.height m = height → m ∉ unmatched → ¬ measured.tree.Within m x := by
  rcases mem_openBelow hc with ⟨hc, hheight⟩ | ⟨a, ha, hca⟩
  · refine ⟨⟨c, hc, hx⟩, fun m hm hlevel _ hmx => hheight ?_⟩
    rw [← h.apart m hm c hc x hmx hx, hlevel]
  · have hax := hx.trans (Leads.single (measured.tree.mem_children.1 hca))
    refine ⟨⟨a, hsub a ha, hax⟩, fun m hm _ hmatched hmx => hmatched ?_⟩
    rw [h.apart m hm a (hsub a ha) x hmx hax]
    exact ha

/-- What is open after a level has no partner, if partners were only given to nodes below those of
the level that are not opened. -/
theorem Open.free_below (h : Open measured.tree root ids) (hsub : ∀ a ∈ unmatched, a ∈ ids)
    {old new : Nat → Option Nat} (hold : ∀ a ∈ ids, ∀ x, measured.tree.Within a x → old x = none)
    (hnew : ∀ x y, new x = some y → old x = some y ∨
      ∃ m ∈ ids, measured.height m = height ∧ m ∉ unmatched ∧ measured.tree.Within m x) :
    ∀ c ∈ openBelow measured minHeight height ids unmatched, ∀ x, measured.tree.Within c x →
      new x = none := by
  intro c hc x hx
  obtain ⟨⟨a, ha, hax⟩, hlone⟩ := h.above hsub hc hx
  refine Option.eq_none_iff_forall_ne_some.2 fun y hy => ?_
  rcases hnew x y hy with hxy | ⟨m, hm, hlevel, hmatched, hmx⟩
  · rw [hold a ha x hax] at hxy
    cases hxy
  · exact hlone m hm hlevel hmatched hmx

/-! ### The pairs of a level -/

variable {sources targets : List Nat} {s t : Nat}

theorem mem_levelPairs {p : Nat × Nat} : p ∈ levelPairs source target sources targets ↔
    p.1 ∈ sources ∧ p.2 ∈ targets ∧ source.isomorphic p.1 target p.2 = true := by
  obtain ⟨a, b⟩ := p
  simp only [levelPairs, List.mem_flatMap, List.mem_map, List.mem_filter, Prod.mk.injEq]
  constructor
  · rintro ⟨_, ha, _, ⟨hb, hiso⟩, rfl, rfl⟩
    exact ⟨ha, hb, hiso⟩
  · rintro ⟨ha, hb, hiso⟩
    exact ⟨a, ha, b, ⟨hb, hiso⟩, rfl, rfl⟩

theorem nodup_levelPairs (hsources : sources.Nodup) (htargets : targets.Nodup) :
    (levelPairs source target sources targets).Nodup := by
  refine List.nodup_flatMap.2 ⟨fun a _ => (htargets.filter _).map fun _ _ h =>
    (Prod.mk.inj h).2, ?_⟩
  refine hsources.imp fun {a b} hne => List.disjoint_left.2 fun p ha hb => hne ?_
  obtain ⟨_, -, rfl⟩ := List.mem_map.1 ha
  obtain ⟨_, -, heq⟩ := List.mem_map.1 hb
  exact (Prod.mk.inj heq).1.symm

/-- Pairs without a rival have no node in common. -/
theorem nodup_unique (hsources : sources.Nodup) (htargets : targets.Nodup) :
    let unique := (levelPairs source target sources targets).filter
      (isUnique source target sources targets)
    (unique.map Prod.fst).Nodup ∧ (unique.map Prod.snd).Nodup := by
  intro unique
  have hnodup : unique.Nodup := (nodup_levelPairs hsources htargets).filter _
  have hmem : ∀ p ∈ unique, (p.1 ∈ sources ∧ p.2 ∈ targets ∧
      source.isomorphic p.1 target p.2 = true) ∧
      (targets.filter (source.isomorphic p.1 target ·)).length = 1 ∧
      (sources.filter (source.isomorphic · target p.2)).length = 1 := by
    intro p hp
    obtain ⟨hpair, hunique⟩ := List.mem_filter.1 hp
    rw [isUnique, Bool.and_eq_true, beq_iff_eq, beq_iff_eq] at hunique
    exact ⟨mem_levelPairs.1 hpair, hunique⟩
  refine ⟨List.pairwise_map.2 (hnodup.imp_of_mem fun {p q} hp hq hne heq => hne ?_),
    List.pairwise_map.2 (hnodup.imp_of_mem fun {p q} hp hq hne heq => hne ?_)⟩
  · obtain ⟨⟨-, hp₂, hiso⟩, hlen, -⟩ := hmem p hp
    obtain ⟨⟨-, hq₂, hiso'⟩, -⟩ := hmem q hq
    exact Prod.ext heq (eq_of_length_filter_eq_one hlen hp₂ hiso hq₂ (by rw [heq]; exact hiso'))
  · obtain ⟨⟨hp₁, -, hiso⟩, -, hlen⟩ := hmem p hp
    obtain ⟨⟨hq₁, -, hiso'⟩, -⟩ := hmem q hq
    exact Prod.ext (eq_of_length_filter_eq_one hlen hp₁ hiso hq₁ (by rw [heq]; exact hiso')) heq

/-! ### The search -/

/-- The state of the search between two levels. -/
structure Sweeping (source target : Measured digest) (s t : Nat) (sweep : Sweep) : Prop where
  grows : Mapping.Grows source.tree target.tree s t Mapping.empty sweep.mapping
  sources : Open source.tree s sweep.openSource
  targets : Open target.tree t sweep.openTarget
  source_free : ∀ a ∈ sweep.openSource, ∀ x, source.tree.Within a x →
    sweep.mapping.target? x = none
  target_free : ∀ b ∈ sweep.openTarget, ∀ y, target.tree.Within b y →
    sweep.mapping.source? y = none
  aside : ∀ p ∈ sweep.ambiguous, source.isomorphic p.1 target p.2 = true ∧
    source.tree.Within s p.1 ∧ target.tree.Within t p.2

variable {sweep : Sweep}

/-- Open pairs of isomorphic subtrees can be mapped if no node is in two of them.  The mapping gains
nothing but nodes of these subtrees. -/
theorem Sweeping.mapPairs (h : Sweeping source target s t sweep) {pairs : List (Nat × Nat)}
    (hpair : ∀ p ∈ pairs, p.1 ∈ sweep.openSource ∧ p.2 ∈ sweep.openTarget ∧
      source.isomorphic p.1 target p.2 = true)
    (hfst : (pairs.map Prod.fst).Nodup) (hsnd : (pairs.map Prod.snd).Nodup) :
    ∃ other, pairs.foldlM
        (fun mapping (s, t) => mapping.addSubtrees source.tree target.tree s t) sweep.mapping =
          .ok other ∧
      Mapping.Grows source.tree target.tree s t sweep.mapping other ∧
      ∀ x y, other.target? x = some y → sweep.mapping.target? x = some y ∨
        ∃ p ∈ pairs, source.tree.Within p.1 x ∧ target.tree.Within p.2 y := by
  refine Mapping.exists_foldlM_apart
    (fun p => Mapping.subtreePairs source.tree target.tree p.1 p.2)
    (fun p _ c hc => Mapping.mem_subtreePairs hc) ?_ ?_ h.grows.oneToOne ?_ ?_
  · exact Mapping.apart_of_nodup hfst hsnd
      (fun p hp q hq => h.sources.apart p.1 (hpair p hp).1 q.1 (hpair q hq).1)
      (fun p hp q hq => h.targets.apart p.2 (hpair p hp).2.1 q.2 (hpair q hq).2.1)
  · exact fun p hp => ⟨h.sources.within p.1 (hpair p hp).1, h.targets.within p.2 (hpair p hp).2.1⟩
  · intro p hp c hc
    obtain ⟨hx, hy⟩ := Mapping.mem_subtreePairs hc
    exact Mapping.fits_of_free (h.source_free p.1 (hpair p hp).1 c.1 hx)
      (h.target_free p.2 (hpair p hp).2.1 c.2 hy)
  · exact fun p hp mapping hone hfit =>
      Mapping.exists_addSubtrees hone (Measured.isomorphic_kinds (hpair p hp).2.2) hfit

theorem open_of_mem_levelPairs {height : Nat} {p : Nat × Nat}
    (h : p ∈ levelPairs source target (levelNodes source height sweep.openSource)
      (levelNodes target height sweep.openTarget)) :
    (p.1 ∈ sweep.openSource ∧ source.height p.1 = height) ∧
      (p.2 ∈ sweep.openTarget ∧ target.height p.2 = height) ∧
      source.isomorphic p.1 target p.2 = true := by
  rw [← mem_levelNodes, ← mem_levelNodes]
  exact mem_levelPairs.1 h

/-- The nodes of a level that go on to be opened are in no pair. -/
theorem mem_unpaired {measured : Measured digest} {height a : Nat} {ids : List Nat}
    {pairs : List (Nat × Nat)} {side : Nat × Nat → Nat}
    (h : a ∈ (levelNodes measured height ids).filter fun id => !pairs.any (side · == id)) :
    (a ∈ ids ∧ measured.height a = height) ∧ ∀ p ∈ pairs, side p ≠ a := by
  obtain ⟨ha, halone⟩ := List.mem_filter.1 h
  exact ⟨mem_levelNodes.1 ha, by simpa using halone⟩

/-- One level of the search succeeds. -/
theorem Sweeping.level (h : Sweeping source target s t sweep) (minHeight height : Nat) :
    ∃ next, sweepLevel source target minHeight sweep height = .ok next ∧
      Sweeping source target s t next := by
  have hnodup : (levelNodes source height sweep.openSource).Nodup :=
    nodup_levelNodes h.sources.nodup
  have hnodup' : (levelNodes target height sweep.openTarget).Nodup :=
    nodup_levelNodes h.targets.nodup
  obtain ⟨hfst, hsnd⟩ := @nodup_unique _ source target _ _ hnodup hnodup'
  obtain ⟨other, hother, hgrow, hnew⟩ := h.mapPairs
    (fun p hp => by
      obtain ⟨hs, ht, hiso⟩ := open_of_mem_levelPairs (List.mem_of_mem_filter hp)
      exact ⟨hs.1, ht.1, hiso⟩) hfst hsnd
  simp only [sweepLevel, List.partition_eq_filter_filter]
  rw [hother]
  refine ⟨_, rfl, h.grows.trans hgrow,
    h.sources.below (hnodup.filter _) fun a ha => (mem_unpaired ha).1,
    h.targets.below (hnodup'.filter _) fun b hb => (mem_unpaired hb).1, ?_, ?_, ?_⟩
  · refine h.sources.free_below (fun a ha => (mem_unpaired ha).1.1) h.source_free fun x y hxy => ?_
    refine (hnew x y hxy).imp_right ?_
    rintro ⟨p, hp, hpx, -⟩
    have hp' := List.mem_of_mem_filter hp
    obtain ⟨⟨hopen, hlevel⟩, -⟩ := open_of_mem_levelPairs hp'
    exact ⟨p.1, hopen, hlevel, fun hmem => (mem_unpaired hmem).2 p hp' rfl, hpx⟩
  · refine h.targets.free_below (fun b hb => (mem_unpaired hb).1.1) h.target_free fun y x hyx => ?_
    refine (hnew x y ((hgrow.oneToOne x y).2 hyx)).imp (h.grows.oneToOne x y).1 ?_
    rintro ⟨p, hp, -, hpy⟩
    have hp' := List.mem_of_mem_filter hp
    obtain ⟨-, ⟨hopen, hlevel⟩, -⟩ := open_of_mem_levelPairs hp'
    exact ⟨p.2, hopen, hlevel, fun hmem => (mem_unpaired hmem).2 p hp' rfl, hpy⟩
  · intro p hp
    rcases List.mem_append.1 hp with hp | hp
    · exact h.aside p hp
    · obtain ⟨hs, ht, hiso⟩ := open_of_mem_levelPairs (List.mem_of_mem_filter hp)
      exact ⟨hiso, h.sources.within p.1 hs.1, h.targets.within p.2 ht.1⟩

/-! ### The whole matching -/

theorem mem_of_mem_rankPairs {mapping : Mapping} {pairs : List (Nat × Nat)} {p : Nat × Nat}
    (h : p ∈ rankPairs source target mapping pairs) : p ∈ pairs := by
  obtain ⟨ranked, hranked, rfl⟩ := List.mem_map.1 h
  rw [(List.mergeSort_perm _ _).mem_iff] at hranked
  obtain ⟨pair, hpair, rfl⟩ := List.mem_map.1 hranked
  exact hpair

theorem exists_addIfFree {mapping : Mapping} {p : Nat × Nat} (hone : mapping.OneToOne)
    (hiso : source.isomorphic p.1 target p.2 = true) :
    ∃ other, addIfFree source target mapping p = .ok other ∧
      Mapping.Grows source.tree target.tree p.1 p.2 mapping other := by
  by_cases hfree : mapping.subtreesFree source.tree target.tree p.1 p.2 = true
  · rw [addIfFree, if_pos hfree]
    exact Mapping.exists_addSubtrees hone (Measured.isomorphic_kinds hiso)
      (Mapping.fits_of_subtreesFree hfree)
  · rw [addIfFree, if_neg hfree]
    exact ⟨mapping, rfl, Mapping.Grows.refl hone _ _⟩

/-- The sweep starts from the two roots. -/
theorem sweeping_start (source target : Measured digest) (minHeight s t : Nat) :
    Sweeping source target s t (.start source target minHeight s t) where
  grows := Mapping.Grows.refl Mapping.oneToOne_empty s t
  sources := open_tallEnough source minHeight s
  targets := open_tallEnough target minHeight t
  source_free _ _ _ _ := rfl
  target_free _ _ _ _ := rfl
  aside _ hp := absurd hp List.not_mem_nil

theorem exists_topDown (source target : Measured digest) (minHeight s t : Nat) :
    ∃ mapping, topDown source target minHeight s t = .ok mapping ∧
      Mapping.Grows source.tree target.tree s t Mapping.empty mapping := by
  have hstart := sweeping_start source target minHeight s t
  have hlevels : ∃ sweep, (Sweep.start source target minHeight s t).run source target minHeight
      (max (source.height s) (target.height t) + 1) = .ok sweep ∧
        Sweeping source target s t sweep :=
    foldlM_ok (fun _ => Sweeping source target s t) hstart
      fun _ height _ _ _ h => h.level minHeight height
  obtain ⟨sweep, hsweep, hdone⟩ := hlevels
  have haside : ∃ mapping, (rankPairs source target sweep.mapping sweep.ambiguous).foldlM
      (addIfFree source target) sweep.mapping = .ok mapping ∧
      Mapping.Grows source.tree target.tree s t Mapping.empty mapping := by
    refine foldlM_ok (fun _ => Mapping.Grows source.tree target.tree s t Mapping.empty)
      hdone.grows ?_
    intro seen p rest mapping hlist hgrow
    have hp : p ∈ rankPairs source target sweep.mapping sweep.ambiguous := by
      rw [hlist]
      exact List.mem_append_right _ (List.mem_cons_self ..)
    obtain ⟨hiso, hs, ht⟩ := hdone.aside p (mem_of_mem_rankPairs hp)
    obtain ⟨other, hother, hgrow'⟩ := exists_addIfFree hgrow.oneToOne hiso
    exact ⟨other, hother, hgrow.trans (hgrow'.mono hs ht)⟩
  obtain ⟨mapping, hmapping, hgrow⟩ := haside
  exact ⟨mapping, by rw [topDown_eq_sweep, hsweep, ok_bind, addAside, hmapping], hgrow⟩

/-- Matching succeeds, and what it maps are nodes of one kind below the two roots. -/
theorem exists_matchMeasured (source target : Measured digest) (thresholds : Thresholds)
    (s t : Nat) :
    ∃ mapping, matchMeasured source target thresholds s t = .ok mapping ∧
      Mapping.Grows source.tree target.tree s t Mapping.empty mapping := by
  obtain ⟨found, hfound, hgrow⟩ := exists_topDown source target (max thresholds.minHeight 1) s t
  obtain ⟨mapping, hmapping, hgrow'⟩ := exists_bottomUp thresholds.dice hgrow.oneToOne s t
  exact ⟨mapping, by rw [matchMeasured, hfound, ok_bind, hmapping], hgrow.trans hgrow'⟩

/-- **Matching never fails and gives a well-formed mapping.**  This holds for all trees, roots and
thresholds, whatever the scores are: every pair takes a node of the one subtree to a node of the
other one of the same kind, and no node of either side is in two pairs. -/
theorem matchSubtrees_wellFormed (source target : Tree) (thresholds : Thresholds) (s t : Nat) :
    ∃ mapping, matchSubtrees source target thresholds s t = .ok mapping ∧
      (∀ x y, (x, y) ∈ mapping.pairs →
        source.Within s x ∧ target.Within t y ∧ source.kind x = target.kind y) ∧
      (mapping.pairs.map Prod.fst).Nodup ∧ (mapping.pairs.map Prod.snd).Nodup := by
  obtain ⟨mapping, hmapping, hgrow⟩ := exists_matchMeasured (source.measured Digest.standard)
    (target.measured Digest.standard) thresholds s t
  refine ⟨mapping, hmapping, fun x y hxy => ?_, mapping.nodup_pairs_fst,
    hgrow.oneToOne.nodup_pairs_snd⟩
  rcases hgrow.gains x y (Mapping.mem_pairs.1 hxy) with hempty | hpair
  · cases hempty
  · exact hpair

end Reshape.Matching
