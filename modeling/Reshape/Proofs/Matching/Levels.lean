import Mathlib
import Reshape.Matching.TopDown
import Reshape.Proofs.Loop
import Reshape.Proofs.Tree.Measure

/-! # The search for equal subtrees, level by level

The search steps between two queues and is over when one of them is empty.  For proofs another view
is handier: the heights are swept from the greatest one down to the least that counts, and open
nodes are just lists.  A height at which nothing is open changes nothing; one at which only one side
has nodes opens them, as the search does with the taller queue; and once a side is empty no pair is
found any more.  So both map the same pairs and put the same pairs aside. -/

namespace Reshape.Matching

variable {digest : Digest} (source target : Measured digest)

/-! ### Levels -/

/-- What is mapped, which nodes are open on either side, and which pairs were put aside. -/
structure Sweep where
  mapping : Mapping := {}
  openSource : List Nat
  openTarget : List Nat
  ambiguous : List (Nat × Nat) := []

/-- The nodes of a list whose subtrees have at least a given height. -/
def tallEnough (measured : Measured digest) (minHeight : Nat) (ids : List Nat) : List Nat :=
  ids.filter fun id => minHeight ≤ measured.height id

/-- The open nodes of a height, in the preorder of the tree. -/
def levelNodes (measured : Measured digest) (height : Nat) (ids : List Nat) : List Nat :=
  (ids.filter fun id => measured.height id == height).mergeSort fun a b =>
    measured.index a ≤ measured.index b

/-- What remains open of a list of nodes after a level: nodes of other heights, and the children of
the nodes of this level that found no partner. -/
def openBelow (measured : Measured digest) (minHeight height : Nat) (ids unmatched : List Nat) :
    List Nat :=
  (ids.filter fun id => measured.height id != height)
    ++ tallEnough measured minHeight (unmatched.flatMap measured.tree.children)

/-- Compare the open subtrees of one height. -/
def sweepLevel (minHeight : Nat) (sweep : Sweep) (height : Nat) : Except Violation Sweep := do
  let sources := levelNodes source height sweep.openSource
  let targets := levelNodes target height sweep.openTarget
  let pairs := levelPairs source target sources targets
  let (unique, rivals) := pairs.partition (isUnique source target sources targets)
  let mapping ← unique.foldlM
    (fun mapping (s, t) => mapping.addSubtrees source.tree target.tree s t) sweep.mapping
  return {
    mapping
    openSource := openBelow source minHeight height sweep.openSource
      (sources.filter fun s => !pairs.any (·.1 == s))
    openTarget := openBelow target minHeight height sweep.openTarget
      (targets.filter fun t => !pairs.any (·.2 == t))
    ambiguous := sweep.ambiguous ++ rivals }

/-- The heights below a bound, down to the least that counts. -/
def sweepHeights (minHeight bound : Nat) : List Nat :=
  (List.range' minHeight (bound - minHeight)).reverse

/-- The sweep before its first level: the two roots are open. -/
def Sweep.start (minHeight s t : Nat) : Sweep where
  openSource := tallEnough source minHeight [s]
  openTarget := tallEnough target minHeight [t]

/-- Sweep all levels below a bound. -/
def Sweep.run (minHeight bound : Nat) (sweep : Sweep) : Except Violation Sweep :=
  (sweepHeights minHeight bound).foldlM (sweepLevel source target minHeight) sweep

section Heights

variable {minHeight bound : Nat}

theorem sweepHeights_of_le (h : bound ≤ minHeight) : sweepHeights minHeight bound = [] := by
  rw [sweepHeights, Nat.sub_eq_zero_of_le h]
  rfl

theorem sweepHeights_succ (h : minHeight ≤ bound) :
    sweepHeights minHeight (bound + 1) = bound :: sweepHeights minHeight bound := by
  have hcount : bound + 1 - minHeight = bound - minHeight + 1 := by omega
  have htop : minHeight + (bound - minHeight) = bound := by omega
  rw [sweepHeights, hcount, List.range'_1_concat, htop, List.reverse_append]
  rfl

end Heights

/-! ### Open nodes -/

section OpenNodes

variable {measured : Measured digest} {minHeight height bound a c : Nat} {ids unmatched : List Nat}

theorem mem_levelNodes : a ∈ levelNodes measured height ids ↔
    a ∈ ids ∧ measured.height a = height := by
  rw [levelNodes, (List.mergeSort_perm _ _).mem_iff, List.mem_filter, beq_iff_eq]

theorem nodup_levelNodes (h : ids.Nodup) : (levelNodes measured height ids).Nodup :=
  (List.mergeSort_perm _ _).nodup_iff.2 (h.filter _)

@[simp] theorem levelNodes_nil : levelNodes measured height [] = [] :=
  List.mergeSort_nil

theorem levelNodes_eq_nil (h : ∀ a ∈ ids, measured.height a ≠ height) :
    levelNodes measured height ids = [] :=
  List.eq_nil_iff_forall_not_mem.2 fun a ha => h a (mem_levelNodes.1 ha).1 (mem_levelNodes.1 ha).2

theorem mem_openBelow_iff : c ∈ openBelow measured minHeight height ids unmatched ↔
    c ∈ ids ∧ measured.height c ≠ height ∨
      minHeight ≤ measured.height c ∧ ∃ a ∈ unmatched, c ∈ measured.tree.children a := by
  simp [openBelow, tallEnough, and_comm]

theorem openBelow_nil (h : ∀ a ∈ ids, measured.height a ≠ height) :
    openBelow measured minHeight height ids [] = ids := by
  have hfilter : (ids.filter fun id => measured.height id != height) = ids :=
    List.filter_eq_self.2 fun a ha => bne_iff_ne.2 (h a ha)
  rw [openBelow, hfilter, List.flatMap_nil, tallEnough, List.filter_nil, List.append_nil]

/-- Open nodes whose subtrees are neither too low to count nor as tall as a bound. -/
def Between (measured : Measured digest) (minHeight bound : Nat) (ids : List Nat) : Prop :=
  ∀ a ∈ ids, minHeight ≤ measured.height a ∧ measured.height a < bound

theorem between_tallEnough (h : measured.height a < bound) :
    Between measured minHeight bound (tallEnough measured minHeight [a]) := by
  intro c hc
  obtain ⟨hmem, hmin⟩ := List.mem_filter.1 hc
  obtain rfl := List.mem_singleton.1 hmem
  exact ⟨of_decide_eq_true hmin, h⟩

/-- Below a level, open nodes are less tall. -/
theorem Between.below (h : Between measured minHeight (height + 1) ids)
    (hsub : ∀ a ∈ unmatched, measured.height a = height) :
    Between measured minHeight height (openBelow measured minHeight height ids unmatched) := by
  intro c hc
  rcases mem_openBelow_iff.1 hc with ⟨hc, hne⟩ | ⟨hmin, a, ha, hca⟩
  · have hheights := h c hc
    omega
  · have hlt := Measured.height_lt_of_parent (measured.tree.mem_children.1 hca)
    have ha := hsub a ha
    omega

theorem Between.eq_nil (h : Between measured minHeight bound ids) (hbound : bound ≤ minHeight) :
    ids = [] := by
  refine List.eq_nil_iff_forall_not_mem.2 fun a ha => ?_
  have := h a ha
  omega

end OpenNodes

/-! ### Queues -/

namespace HeightQueue

variable {measured : Measured digest} {queue : HeightQueue} {minHeight height : Nat}
  {ids unmatched : List Nat}

/-- A queue holds the nodes of a list: those of each height, in the order of the list. -/
def Holds (measured : Measured digest) (queue : HeightQueue) (ids : List Nat) : Prop :=
  ∀ height, queue.byHeight[height]? =
    match ids.filter fun id => measured.height id == height with
    | [] => none
    | nodes => some nodes

theorem holds_empty (measured : Measured digest) : Holds measured {} [] :=
  fun _ => Std.TreeMap.getElem?_emptyc

namespace Holds

theorem getD_eq (h : Holds measured queue ids) (height : Nat) :
    (queue.byHeight[height]?).getD [] = ids.filter fun id => measured.height id == height := by
  rw [h height]
  split
  · rename_i hnil
    exact hnil.symm
  · rfl

theorem mem_iff (h : Holds measured queue ids) :
    height ∈ queue.byHeight ↔ ∃ a ∈ ids, measured.height a = height := by
  rw [Std.TreeMap.mem_iff_isSome_getElem?, h height]
  split
  · rename_i hnil
    simpa using hnil
  · rename_i hnodes
    obtain ⟨a, ha⟩ := List.exists_mem_of_ne_nil _ hnodes
    simp only [List.mem_filter, beq_iff_eq] at ha
    exact iff_of_true rfl ⟨a, ha⟩

theorem push (h : Holds measured queue ids) (minHeight id : Nat) :
    Holds measured (queue.push measured minHeight id)
      (ids ++ tallEnough measured minHeight [id]) := by
  intro height
  by_cases htall : minHeight ≤ measured.height id
  · simp only [HeightQueue.push, tallEnough, htall, ↓reduceIte, Std.TreeMap.getElem?_alter,
      decide_true, List.filter_cons_of_pos, List.filter_nil, List.filter_append]
    by_cases heq : measured.height id = height
    · subst heq
      rw [if_pos (by simp), h.getD_eq]
      simp
    · simpa [heq] using h height
  · simpa [HeightQueue.push, tallEnough, htall] using h height

theorem foldl_push (h : Holds measured queue ids) (minHeight : Nat) (more : List Nat) :
    Holds measured (more.foldl (HeightQueue.push measured minHeight) queue)
      (ids ++ tallEnough measured minHeight more) := by
  induction more generalizing queue ids with
  | nil => simpa [tallEnough] using h
  | cons id more ih =>
    have happend : tallEnough measured minHeight (id :: more) =
        tallEnough measured minHeight [id] ++ tallEnough measured minHeight more :=
      List.filter_append [id] more
    rw [List.foldl_cons, happend, ← List.append_assoc]
    exact ih (h.push minHeight id)

theorem openAll (h : Holds measured queue ids) (minHeight : Nat) (opened : List Nat) :
    Holds measured (queue.openAll measured minHeight opened)
      (ids ++ tallEnough measured minHeight (opened.flatMap measured.tree.children)) := by
  induction opened generalizing queue ids with
  | nil => simpa [HeightQueue.openAll, tallEnough] using h
  | cons id opened ih =>
    rw [HeightQueue.openAll, List.foldl_cons, List.flatMap_cons, tallEnough, List.filter_append,
      ← List.append_assoc]
    exact ih (h.foldl_push minHeight _)

/-! The greatest height of a queue is that of the tallest node. -/

theorem peek_eq_none_iff (h : Holds measured queue ids) : queue.peek = none ↔ ids = [] := by
  rw [peek, ← Std.TreeMap.maxKey?_eq_getLast?_keys, Std.TreeMap.maxKey?_eq_none_iff,
    Std.TreeMap.isEmpty_iff_forall_not_mem]
  simp only [h.mem_iff]
  constructor
  · intro hnone
    exact List.eq_nil_iff_forall_not_mem.2 fun a ha => hnone _ ⟨a, ha, rfl⟩
  · rintro rfl height ⟨a, ha, -⟩
    exact absurd ha List.not_mem_nil

theorem peek_eq_some_iff (h : Holds measured queue ids) : queue.peek = some height ↔
    (∃ a ∈ ids, measured.height a = height) ∧ ∀ a ∈ ids, measured.height a ≤ height := by
  rw [peek, ← Std.TreeMap.maxKey?_eq_getLast?_keys,
    Std.TreeMap.maxKey?_eq_some_iff_mem_and_forall, h.mem_iff]
  simp only [h.mem_iff, Nat.isLE_compare]
  refine and_congr_right fun _ => ⟨fun hle a ha => hle _ ⟨a, ha, rfl⟩, ?_⟩
  rintro hle _ ⟨a, ha, rfl⟩
  exact hle a ha

/-- What is taken out are the nodes of a level. -/
theorem fst_pop (h : Holds measured queue ids) (hpeek : queue.peek = some height) :
    (queue.pop measured).1 = levelNodes measured height ids := by
  rw [pop, hpeek, levelNodes, ← h.getD_eq height, ← Std.TreeMap.getD_eq_getD_getElem?]

/-- The queue after a level. -/
theorem below (h : Holds measured queue ids) (hpeek : queue.peek = some height)
    (minHeight : Nat) (unmatched : List Nat) :
    Holds measured ((queue.pop measured).2.openAll measured minHeight unmatched)
      (openBelow measured minHeight height ids unmatched) := by
  refine Holds.openAll (fun other => ?_) minHeight unmatched
  rw [pop, hpeek, Std.TreeMap.getElem?_erase]
  by_cases heq : height = other
  · subst heq
    have hnone : ((ids.filter fun id => measured.height id != height).filter
        fun id => measured.height id == height) = [] := by
      simp [List.filter_eq_nil_iff]
    rw [if_pos (by simp), hnone]
  · have hfilter : ((ids.filter fun id => measured.height id != height).filter
        fun id => measured.height id == other) =
        ids.filter fun id => measured.height id == other := by
      rw [List.filter_filter]
      refine List.filter_congr fun a _ => ?_
      by_cases ha : measured.height a = other
      · simp [ha, Ne.symm heq]
      · simp [ha]
    rw [if_neg (by simpa using heq), hfilter]
    exact h other

end Holds

end HeightQueue

/-! ### The search follows the sweep -/

variable {source target} {search : Search} {sweep : Sweep} {minHeight height bound : Nat}

/-- A search and a sweep have the same pairs and the same open nodes. -/
structure Follows (source target : Measured digest) (search : Search) (sweep : Sweep) : Prop where
  mapping_eq : sweep.mapping = search.mapping
  ambiguous_eq : sweep.ambiguous = search.ambiguous
  sources : search.sources.Holds source sweep.openSource
  targets : search.targets.Holds target sweep.openTarget

/-- What counts in the end: the mapping, and the pairs that were put aside. -/
def Search.outcome (search : Search) : Mapping × List (Nat × Nat) :=
  (search.mapping, search.ambiguous)

/-- What counts in the end: the mapping, and the pairs that were put aside. -/
def Sweep.outcome (sweep : Sweep) : Mapping × List (Nat × Nat) :=
  (sweep.mapping, sweep.ambiguous)

theorem Follows.outcome_eq (h : Follows source target search sweep) :
    search.outcome = sweep.outcome := by
  rw [Search.outcome, Sweep.outcome, h.mapping_eq, h.ambiguous_eq]

theorem levelPairs_nil_left (targets : List Nat) : levelPairs source target [] targets = [] := rfl

theorem levelPairs_nil_right (sources : List Nat) : levelPairs source target sources [] = [] := by
  simp [levelPairs]

/-- What a level does: it maps the pairs without a rival and opens the nodes without a partner. -/
theorem sweepLevel_ok {next : Sweep}
    (h : sweepLevel source target minHeight sweep height = .ok next) :
    let sources := levelNodes source height sweep.openSource
    let targets := levelNodes target height sweep.openTarget
    let pairs := levelPairs source target sources targets
    (pairs.filter (isUnique source target sources targets)).foldlM
        (fun mapping (s, t) => mapping.addSubtrees source.tree target.tree s t) sweep.mapping =
          .ok next.mapping ∧
      next.openSource = openBelow source minHeight height sweep.openSource
        (sources.filter fun a => !pairs.any (·.1 == a)) ∧
      next.openTarget = openBelow target minHeight height sweep.openTarget
        (targets.filter fun b => !pairs.any (·.2 == b)) := by
  intro sources targets pairs
  rw [sweepLevel] at h
  simp only [List.partition_eq_filter_filter] at h
  obtain ⟨mapping, hmapping, h⟩ := bind_eq_ok.1 h
  obtain rfl := Except.ok.inj h
  exact ⟨hmapping, rfl, rfl⟩

/-- After a level the open nodes are below it. -/
theorem between_of_sweepLevel {next : Sweep}
    (hsources : Between source minHeight (height + 1) sweep.openSource)
    (htargets : Between target minHeight (height + 1) sweep.openTarget)
    (h : sweepLevel source target minHeight sweep height = .ok next) :
    Between source minHeight height next.openSource ∧
      Between target minHeight height next.openTarget := by
  obtain ⟨-, hopenSource, hopenTarget⟩ := sweepLevel_ok h
  rw [hopenSource, hopenTarget]
  exact ⟨hsources.below fun a ha => (mem_levelNodes.1 (List.mem_of_mem_filter ha)).2,
    htargets.below fun b hb => (mem_levelNodes.1 (List.mem_of_mem_filter hb)).2⟩

/-- A level with nodes on one side only opens them. -/
theorem sweepLevel_of_levelPairs_nil
    (h : levelPairs source target (levelNodes source height sweep.openSource)
      (levelNodes target height sweep.openTarget) = []) :
    sweepLevel source target minHeight sweep height = .ok { sweep with
      openSource := openBelow source minHeight height sweep.openSource
        (levelNodes source height sweep.openSource)
      openTarget := openBelow target minHeight height sweep.openTarget
        (levelNodes target height sweep.openTarget) } := by
  simp [sweepLevel, h, pure, Except.pure]

theorem sweepLevel_of_none (hsource : ∀ a ∈ sweep.openSource, source.height a ≠ height)
    (htarget : ∀ b ∈ sweep.openTarget, target.height b ≠ height) :
    sweepLevel source target minHeight sweep height = .ok sweep := by
  rw [sweepLevel_of_levelPairs_nil (by rw [levelNodes_eq_nil hsource, levelPairs_nil_left]),
    levelNodes_eq_nil hsource, levelNodes_eq_nil htarget, openBelow_nil hsource,
    openBelow_nil htarget]

/-- Once a side is empty, the levels to come find no pair. -/
theorem outcome_sweep_of_empty (heights : List Nat)
    (h : sweep.openSource = [] ∨ sweep.openTarget = []) :
    (heights.foldlM (sweepLevel source target minHeight) sweep).map Sweep.outcome =
      .ok sweep.outcome := by
  induction heights generalizing sweep with
  | nil => rfl
  | cons height heights ih =>
    have hpairs : levelPairs source target (levelNodes source height sweep.openSource)
        (levelNodes target height sweep.openTarget) = [] := by
      rcases h with h | h
      · rw [h, levelNodes_nil, levelPairs_nil_left]
      · rw [h, levelNodes_nil, levelPairs_nil_right]
    rw [List.foldlM_cons, sweepLevel_of_levelPairs_nil hpairs, ok_bind]
    refine ih (h.imp (fun h => ?_) fun h => ?_)
    · simp only [h, levelNodes_nil]
      rfl
    · simp only [h, levelNodes_nil]
      rfl

/-- Where only source nodes are as tall as a level, they are opened. -/
theorem Follows.openSources (h : Follows source target search sweep)
    (hsource : search.sources.peek = some height)
    (hnone : ∀ b ∈ sweep.openTarget, target.height b ≠ height) :
    ∃ level, sweepLevel source target minHeight sweep height = .ok level ∧
      Follows source target (search.openSources source minHeight) level := by
  have hpairs : levelPairs source target (levelNodes source height sweep.openSource)
      (levelNodes target height sweep.openTarget) = [] := by
    rw [levelNodes_eq_nil hnone, levelPairs_nil_right]
  refine ⟨_, sweepLevel_of_levelPairs_nil hpairs, h.mapping_eq, h.ambiguous_eq, ?_, ?_⟩
  · rw [← h.sources.fst_pop hsource]
    exact h.sources.below hsource minHeight _
  · rw [levelNodes_eq_nil hnone, openBelow_nil hnone]
    exact h.targets

/-- Where only target nodes are as tall as a level, they are opened. -/
theorem Follows.openTargets (h : Follows source target search sweep)
    (htarget : search.targets.peek = some height)
    (hnone : ∀ a ∈ sweep.openSource, source.height a ≠ height) :
    ∃ level, sweepLevel source target minHeight sweep height = .ok level ∧
      Follows source target (search.openTargets target minHeight) level := by
  have hpairs : levelPairs source target (levelNodes source height sweep.openSource)
      (levelNodes target height sweep.openTarget) = [] := by
    rw [levelNodes_eq_nil hnone, levelPairs_nil_left]
  refine ⟨_, sweepLevel_of_levelPairs_nil hpairs, h.mapping_eq, h.ambiguous_eq, ?_, ?_⟩
  · rw [levelNodes_eq_nil hnone, openBelow_nil hnone]
    exact h.sources
  · rw [← h.targets.fst_pop htarget]
    exact h.targets.below htarget minHeight _

/-- Where both sides are as tall as a level, their nodes are compared. -/
theorem Follows.compareTallest (h : Follows source target search sweep)
    (hsource : search.sources.peek = some height) (htarget : search.targets.peek = some height) :
    (∃ violation, search.compareTallest source target minHeight = .error violation ∧
      sweepLevel source target minHeight sweep height = .error violation) ∨
    ∃ next level, search.compareTallest source target minHeight = .ok next ∧
      sweepLevel source target minHeight sweep height = .ok level ∧
        Follows source target next level := by
  simp only [Search.compareTallest, sweepLevel, List.partition_eq_filter_filter,
    h.sources.fst_pop hsource, h.targets.fst_pop htarget, h.mapping_eq, h.ambiguous_eq]
  generalize levelNodes source height sweep.openSource = sources
  generalize levelNodes target height sweep.openTarget = targets
  cases List.foldlM (m := Except Violation)
    (fun mapping (p : Nat × Nat) => mapping.addSubtrees source.tree target.tree p.1 p.2)
    search.mapping ((levelPairs source target sources targets).filter
      (isUnique source target sources targets)) with
  | error violation => exact .inl ⟨violation, rfl, rfl⟩
  | ok mapping =>
    exact .inr ⟨_, _, rfl, rfl, rfl, rfl, h.sources.below hsource minHeight _,
      h.targets.below htarget minHeight _⟩

/-- **A step is a level.**  It is the level of the greatest height at which a node is open. -/
theorem Follows.step (h : Follows source target search sweep) {sourceHeight targetHeight : Nat}
    (hsource : search.sources.peek = some sourceHeight)
    (htarget : search.targets.peek = some targetHeight)
    (hheight : height = max sourceHeight targetHeight) :
    (∃ violation,
      search.step source target minHeight sourceHeight targetHeight = .error violation ∧
        sweepLevel source target minHeight sweep height = .error violation) ∨
    ∃ next level, search.step source target minHeight sourceHeight targetHeight = .ok next ∧
      sweepLevel source target minHeight sweep height = .ok level ∧
        Follows source target next level := by
  have hsources := (h.sources.peek_eq_some_iff.1 hsource).2
  have htargets := (h.targets.peek_eq_some_iff.1 htarget).2
  rw [Search.step]
  split
  · obtain rfl : height = sourceHeight := by omega
    obtain ⟨level, hlevel, hfollows⟩ := h.openSources hsource fun b hb => by
      have := htargets b hb
      omega
    exact .inr ⟨_, level, rfl, hlevel, hfollows⟩
  split
  · obtain rfl : height = targetHeight := by omega
    obtain ⟨level, hlevel, hfollows⟩ := h.openTargets htarget fun a ha => by
      have := hsources a ha
      omega
    exact .inr ⟨_, level, rfl, hlevel, hfollows⟩
  · obtain rfl : height = sourceHeight := by omega
    obtain rfl : height = targetHeight := by omega
    exact h.compareTallest hsource htarget

theorem Follows.run_of_empty (h : Follows source target search sweep) (fuel : Nat)
    (hempty : sweep.openSource = [] ∨ sweep.openTarget = []) :
    (search.run source target minHeight fuel).map Search.outcome =
      (sweep.run source target minHeight bound).map Sweep.outcome := by
  have hstop : search.run source target minHeight fuel = .ok search := by
    cases fuel with
    | zero => rfl
    | succ fuel =>
      rw [Search.run]
      rcases hempty with hempty | hempty
      · rw [h.sources.peek_eq_none_iff.2 hempty]
      · rw [h.targets.peek_eq_none_iff.2 hempty]
        split
        · rename_i hpeek
          cases hpeek
        · rfl
  rw [hstop, Sweep.run, outcome_sweep_of_empty _ hempty, Except.map, h.outcome_eq]

/-- **The search finds what the sweep finds.** -/
theorem Follows.run {fuel : Nat} (h : Follows source target search sweep)
    (hsources : Between source minHeight bound sweep.openSource)
    (htargets : Between target minHeight bound sweep.openTarget)
    (hfuel : bound - minHeight ≤ fuel) :
    (search.run source target minHeight fuel).map Search.outcome =
      (sweep.run source target minHeight bound).map Sweep.outcome := by
  -- The induction is on the bound; the search skips the heights at which nothing is open.
  induction bound generalizing fuel search sweep with
  | zero => exact h.run_of_empty fuel (.inl (hsources.eq_nil (Nat.zero_le _)))
  | succ bound ih =>
    by_cases hempty : sweep.openSource = [] ∨ sweep.openTarget = []
    · exact h.run_of_empty fuel hempty
    obtain ⟨hs, ht⟩ := not_or.1 hempty
    obtain ⟨sourceHeight, hsource⟩ :=
      Option.ne_none_iff_exists'.1 fun hnone => hs (h.sources.peek_eq_none_iff.1 hnone)
    obtain ⟨targetHeight, htarget⟩ :=
      Option.ne_none_iff_exists'.1 fun hnone => ht (h.targets.peek_eq_none_iff.1 hnone)
    obtain ⟨⟨a, ha, hatop⟩, hmost⟩ := h.sources.peek_eq_some_iff.1 hsource
    obtain ⟨⟨b, hb, hbtop⟩, hmost'⟩ := h.targets.peek_eq_some_iff.1 htarget
    have hrange := hsources a ha
    have hrange' := htargets b hb
    rw [Sweep.run, sweepHeights_succ (by omega), List.foldlM_cons]
    by_cases hlevel : bound = max sourceHeight targetHeight
    · obtain ⟨fuel, rfl⟩ : ∃ rest, fuel = rest + 1 := ⟨fuel - 1, by omega⟩
      simp only [Search.run, hsource, htarget]
      rcases h.step hsource htarget hlevel with
        ⟨violation, hstep, hfail⟩ | ⟨next, level, hstep, hnext, hfollows⟩
      · rw [hstep, hfail]
        rfl
      · obtain ⟨hsources', htargets'⟩ := between_of_sweepLevel hsources htargets hnext
        rw [hstep, hnext, ok_bind, ok_bind]
        exact ih hfollows hsources' htargets' (by omega)
    · -- Nothing is as tall as this level.
      have hlow : ∀ a ∈ sweep.openSource, source.height a < bound := fun a ha => by
        have := hmost a ha
        omega
      have hlow' : ∀ b ∈ sweep.openTarget, target.height b < bound := fun b hb => by
        have := hmost' b hb
        omega
      rw [sweepLevel_of_none (fun a ha => (hlow a ha).ne) fun b hb => (hlow' b hb).ne, ok_bind]
      exact ih h (fun a ha => ⟨(hsources a ha).1, hlow a ha⟩)
        (fun b hb => ⟨(htargets b hb).1, hlow' b hb⟩) (by omega)

theorem follows_start (source target : Measured digest) (minHeight s t : Nat) :
    Follows source target (Search.start source target minHeight s t)
      (Sweep.start source target minHeight s t) :=
  ⟨rfl, rfl, (HeightQueue.holds_empty source).push minHeight s,
    (HeightQueue.holds_empty target).push minHeight t⟩

/-- Equal subtrees are mapped as a sweep over all levels maps them. -/
theorem topDown_eq_sweep (source target : Measured digest) (minHeight s t : Nat) :
    topDown source target minHeight s t =
      ((Sweep.start source target minHeight s t).run source target minHeight
        (max (source.height s) (target.height t) + 1) >>= fun sweep =>
          addAside source target sweep.mapping sweep.ambiguous) := by
  have hrun : ((Search.start source target minHeight s t).run source target minHeight
        (max (source.height s) (target.height t) + 1)).map Search.outcome =
      ((Sweep.start source target minHeight s t).run source target minHeight
        (max (source.height s) (target.height t) + 1)).map Sweep.outcome :=
    (follows_start source target minHeight s t).run
      (between_tallEnough (Nat.lt_succ_of_le (Nat.le_max_left ..)))
      (between_tallEnough (Nat.lt_succ_of_le (Nat.le_max_right ..))) (Nat.sub_le ..)
  exact bind_eq_of_map_eq hrun fun outcome => addAside source target outcome.1 outcome.2

end Reshape.Matching
