import Mathlib
import Reshape.Proofs.Project.Attempt

/-! # Project diffs are complete

The comparison of two snapshots never fails and leaves no pair of files out.  Files are looked up
only for entities of the two models, and these are declared in files that the snapshots hold.  Every
diff works out, so that every pair of files to be compared gets its diff, and so does every pair of
files between which an entity moved. -/

namespace Reshape

namespace Project

variable {before after : Snapshot} {model : ModelDiff} {files : FilePair} {pairs : List FilePair}

/-! ### What jobs contribute -/

/-- A contribution with a fitting mapping of its files. -/
def Fitting (before after : Snapshot) (part : Contribution) : Prop :=
  ∀ source target, before.tree? part.files.source = some source →
    after.tree? part.files.target = some target →
    ∃ mapping, part.mapping = .ok mapping ∧ mapping.Suits source target

theorem files_of_mem_jobs {source target : Tree} {job : Job}
    (h : job ∈ jobs model files source target) : job.files = files := by
  rw [jobs, List.mem_append, List.mem_append] at h
  rcases h with (h | h) | h
  · obtain ⟨⟨pair, place⟩, -, h⟩ := List.mem_filterMap.1 h
    dsimp only at h
    split at h
    · obtain ⟨tier, -, rfl⟩ := Option.map_eq_some_iff.1 h
      rfl
    · cases h
  · obtain ⟨⟨⟨b, a⟩, place⟩, -, rfl⟩ := List.mem_map.1 h
    rfl
  · obtain rfl := List.mem_singleton.1 h
    rfl

/-- Both files of every pair of a list can be found. -/
def Found (before after : Snapshot) (pairs : List FilePair) : Prop :=
  ∀ files ∈ pairs, before.files.contains files.source = true ∧
    after.files.contains files.target = true

theorem exists_contributions (model : ModelDiff) (h : Found before after pairs)
    (thresholds : Thresholds) :
    ∃ parts, contributions model before after thresholds pairs = .ok parts ∧
      ∀ part ∈ parts, Fitting before after part := by
  refine exists_flatten fun files hfiles => ?_
  obtain ⟨source, target, htrees, hsource, htarget⟩ := exists_trees (h files hfiles)
  refine ⟨(jobs model files source target).map (Job.run thresholds source target),
    by rw [htrees]; rfl, fun part hpart source' target' hsource' htarget' => ?_⟩
  obtain ⟨job, hjob, rfl⟩ := List.mem_map.1 hpart
  have hjobfiles : (Job.run thresholds source target job).files = files := files_of_mem_jobs hjob
  rw [hjobfiles] at hsource' htarget'
  obtain rfl : source = source' := Option.some.inj (hsource.symm.trans hsource')
  obtain rfl : target = target' := Option.some.inj (htarget.symm.trans htarget')
  exact Matching.exists_suited source target thresholds job.sourceRoot job.targetRoot

/-! ### All attempts work out -/

theorem exists_changedDiffs (model : ModelDiff) (hbefore : before.Stored) (hafter : after.Stored)
    (h : Found before after pairs) {parts : List Contribution}
    (hparts : ∀ part ∈ parts, Fitting before after part) :
    ∃ attempts, changedDiffs model before after pairs parts = .ok attempts ∧
      List.Forall₂ Worked pairs attempts := by
  refine exists_mapM fun files hfiles => exists_attempt hbefore hafter (h files hfiles)
    (fun source target => fileDiff model files source target (parts.filter (·.files == files))) ?_
  intro source target hsource htarget
  refine exists_fileDiff model files fun part hpart => ?_
  -- A part of these files may write their paths in another way.
  obtain ⟨hpart, heq⟩ := List.mem_filter.1 hpart
  obtain ⟨hsame, hsame'⟩ := FilePair.beq_iff.1 heq
  exact hparts part hpart source target ((FileMap.get?_congr hsame).trans hsource)
    ((FileMap.get?_congr hsame').trans htarget)

theorem exists_unchangedDiffs (hbefore : before.Stored) (hafter : after.Stored)
    (h : Found before after (unchangedFiles before after pairs)) :
    ∃ attempts, unchangedDiffs before after pairs = .ok attempts ∧
      List.Forall₂ Worked (unchangedFiles before after pairs) attempts :=
  exists_mapM fun files hfiles => exists_attempt hbefore hafter (h files hfiles)
    TreeDiff.identity fun source target _ _ => TreeDiff.exists_identity source target

theorem exists_relocationDiffs (hbefore : before.Stored) (hafter : after.Stored)
    (h : Found before after ((relocations model pairs).map Relocation.files))
    (thresholds : Thresholds) :
    ∃ attempts, relocationDiffs model before after thresholds pairs = .ok attempts ∧
      List.Forall₂ Worked ((relocations model pairs).map Relocation.files) attempts := by
  simp only [List.forall₂_map_left_iff]
  exact exists_mapM fun r hr => exists_attempt hbefore hafter (h r.files (List.mem_map_of_mem hr))
    (relocationDiff thresholds · · r) fun source target _ _ =>
      exists_relocationDiff thresholds source target r

/-! ### Filing diffs -/

/-- Diffs that are filed under their own files, no two of them under the same. -/
structure WellFiled (diffs : List (FilePair × TreeDiff)) : Prop where
  once : diffs.Pairwise fun d e => d.1.Differ e.1
  own : ∀ d ∈ diffs, IsOf d.1 d.2

/-- Diffs of the pairs of files of a list. -/
structure Filed (keys : List FilePair) (diffs : List (FilePair × TreeDiff)) : Prop extends
    WellFiled diffs where
  listed : ∀ files, FilePair.Listed (diffs.map Prod.fst) files ↔ FilePair.Listed keys files

variable {keys : List FilePair} {diffs : List (FilePair × TreeDiff)} {diff : TreeDiff}

theorem filed_sortDiffs (hkeys : diffs.map Prod.fst = keys) (honce : keys.Pairwise FilePair.Differ)
    (hown : ∀ d ∈ diffs, IsOf d.1 d.2) : Filed keys (sortDiffs diffs) := by
  have hperm : (sortDiffs diffs).Perm diffs := List.mergeSort_perm _ _
  subst hkeys
  refine ⟨⟨(hperm.pairwise_iff FilePair.Differ.symm).2 (List.pairwise_map.1 honce),
    fun d hd => hown d (hperm.mem_iff.1 hd)⟩, fun files => ?_⟩
  simp only [FilePair.Listed, (hperm.map Prod.fst).mem_iff]

/-- Joining a diff of files that are there already changes neither the keys nor the files. -/
theorem map_joinDiff (h : diffs.any (·.1 == files) = true) :
    (joinDiff diffs files diff).map (fun d => (d.1, d.2.sourcePath, d.2.targetPath)) =
      diffs.map fun d => (d.1, d.2.sourcePath, d.2.targetPath) := by
  rw [joinDiff, if_pos h, List.map_map]
  refine List.map_congr_left fun d _ => ?_
  obtain ⟨key, old⟩ := d
  rw [Function.comp_apply]
  dsimp only
  split <;> rfl

theorem Filed.join (h : Filed keys diffs) (hof : IsOf files diff) :
    Filed (keys ++ [files]) (joinDiff diffs files diff) := by
  by_cases hany : diffs.any (·.1 == files) = true
  · have hsame := @map_joinDiff files diffs diff hany
    have hkeys : (joinDiff diffs files diff).map Prod.fst = diffs.map Prod.fst := by
      have hfst := congrArg (List.map Prod.fst) hsame
      rw [List.map_map, List.map_map] at hfst
      exact hfst
    refine ⟨⟨?_, fun e he => ?_⟩, fun other => ?_⟩
    · rw [← List.pairwise_map, hkeys, List.pairwise_map]
      exact h.once
    · have hmem := List.mem_map_of_mem (f := fun d => (d.1, d.2.sourcePath, d.2.targetPath)) he
      rw [hsame] at hmem
      obtain ⟨d, hd, heq⟩ := List.mem_map.1 hmem
      obtain ⟨hkey, hpaths⟩ := Prod.mk.inj heq
      obtain ⟨hsource, htarget⟩ := Prod.mk.inj hpaths
      rw [IsOf, ← hkey, ← hsource, ← htarget]
      exact h.own d hd
    · rw [hkeys, h.listed, FilePair.listed_append]
      refine ⟨Or.inl, fun hlisted => hlisted.elim id ?_⟩
      rintro ⟨_, hmem, heq⟩
      obtain rfl := List.mem_singleton.1 hmem
      obtain ⟨d, hd, heq'⟩ := List.any_eq_true.1 hany
      exact (h.listed other).1 ⟨d.1, List.mem_map_of_mem hd, BEq.trans heq' heq⟩
  · rw [joinDiff, if_neg hany]
    have hnone : ∀ d ∈ diffs, d.1.Differ files := fun d hd =>
      Bool.eq_false_iff.2 fun heq => hany (List.any_eq_true.2 ⟨d, hd, heq⟩)
    refine ⟨⟨?_, ?_⟩, fun other => ?_⟩
    · refine List.pairwise_append.2 ⟨h.once, List.pairwise_singleton _ _, fun d hd e he => ?_⟩
      obtain rfl := List.mem_singleton.1 he
      exact hnone d hd
    · intro d hd
      rcases List.mem_append.1 hd with hd | hd
      · exact h.own d hd
      · obtain rfl := List.mem_singleton.1 hd
        exact hof
    · rw [List.map_append, FilePair.listed_append, FilePair.listed_append, h.listed]
      rfl

theorem Filed.joinAll {entries : List (FilePair × TreeDiff)} (h : Filed keys diffs)
    (hown : ∀ d ∈ entries, IsOf d.1 d.2) :
    Filed (keys ++ entries.map Prod.fst)
      (entries.foldl (fun diffs (files, diff) => joinDiff diffs files diff) diffs) := by
  induction entries generalizing keys diffs with
  | nil =>
    rw [List.map_nil, List.append_nil]
    exact h
  | cons entry entries ih =>
    obtain ⟨hentry, hentries⟩ := List.forall_mem_cons.1 hown
    have hrest := ih (h.join hentry) hentries
    rwa [List.append_assoc, List.singleton_append] at hrest

/-! ### Moved entities -/

theorem mem_movedPairs {b a : EntityRef} {number : Nat} (h : (b, a, number) ∈ movedPairs model) :
    (b.path == a.path) = false ∧ ∃ r ∈ model.refactorings, (b, a) ∈ r.fact.entityPairs := by
  obtain ⟨⟨r, place⟩, hr, h⟩ := List.mem_flatMap.1 h
  obtain ⟨refs, hrefs, heq⟩ := List.mem_map.1 h
  obtain ⟨hrefs, hne⟩ := List.mem_filter.1 hrefs
  obtain ⟨rfl, hrest⟩ := Prod.mk.inj heq
  obtain ⟨rfl, rfl⟩ := Prod.mk.inj hrest
  exact ⟨by simpa [bne] using hne, r, List.mem_of_getElem? (List.mem_zipIdx_iff_getElem?.1 hr),
    hrefs⟩

theorem exists_mem_movedPairs {r : Refactoring} {refs : EntityRef × EntityRef}
    (hr : r ∈ model.refactorings) (hrefs : refs ∈ r.fact.entityPairs)
    (hne : (refs.1.path == refs.2.path) = false) :
    ∃ number, (refs.1, refs.2, number) ∈ movedPairs model := by
  obtain ⟨number, hnumber⟩ := List.mem_iff_getElem?.1 hr
  exact ⟨number, List.mem_flatMap.2 ⟨(r, number), List.mem_zipIdx_iff_getElem?.2 hnumber,
    List.mem_map.2 ⟨refs, List.mem_filter.2 ⟨hrefs, by simp [bne, hne]⟩, rfl⟩⟩⟩

theorem Relocation.beq_iff {r other : Relocation} : (r == other) = true ↔
    (r.files == other.files) = true ∧ r.source = other.source ∧ r.target = other.target := by
  rw [← beq_iff_eq (a := r.source), ← beq_iff_eq (a := r.target), ← Bool.and_eq_true,
    ← Bool.and_eq_true]
  rfl

instance : ReflBEq Relocation where
  rfl := Relocation.beq_iff.2 ⟨BEq.rfl, rfl, rfl⟩

/-- Where a relocation comes from. -/
theorem mem_relocations {r : Relocation} (h : r ∈ relocations model pairs) :
    (∃ b a number, (b, a, number) ∈ movedPairs model ∧ r.files = FilePair.ofRefs b a) ∧
      ¬ FilePair.Listed pairs r.files := by
  have hfound := (eraseDups_sublist _).subset ((List.mergeSort_perm _ _).mem_iff.1 h)
  obtain ⟨hmem, hnew⟩ := List.mem_filter.1 hfound
  obtain ⟨⟨b, a, number⟩, hpair, rfl⟩ := List.mem_map.1 hmem
  refine ⟨⟨b, a, number, hpair, rfl⟩, ?_⟩
  rw [FilePair.listed_iff_contains]
  simpa using hnew

theorem listed_relocations {b a : EntityRef} {number : Nat}
    (h : (b, a, number) ∈ movedPairs model) (hnew : ¬ FilePair.Listed pairs (.ofRefs b a)) :
    FilePair.Listed ((relocations model pairs).map Relocation.files) (.ofRefs b a) := by
  rw [FilePair.listed_iff_contains] at hnew
  have hfound : Relocation.mk (.ofRefs b a) b.node a.node ∈
      ((movedPairs model).map fun moved =>
        Relocation.mk (.ofRefs moved.1 moved.2.1) moved.1.node moved.2.1.node).filter
          fun r => !pairs.contains r.files :=
    List.mem_filter.2 ⟨List.mem_map.2 ⟨(b, a, number), h, rfl⟩, by simpa using hnew⟩
  obtain ⟨r, hr, heq⟩ := exists_mem_eraseDups _ hfound
  exact ⟨r.files, List.mem_map_of_mem ((List.mergeSort_perm _ _).mem_iff.2 hr),
    BEq.symm (Relocation.beq_iff.1 heq).1⟩

theorem found_relocations (h : model.Rooted before after) (pairs : List FilePair) :
    Found before after ((relocations model pairs).map Relocation.files) := by
  intro files hfiles
  obtain ⟨r, hr, rfl⟩ := List.mem_map.1 hfiles
  obtain ⟨⟨b, a, number, hpair, heq⟩, -⟩ := mem_relocations hr
  obtain ⟨-, refactoring, hrefactoring, hrefs⟩ := mem_movedPairs hpair
  rw [heq]
  exact h.refactorings refactoring hrefactoring (b, a) hrefs

/-! ### The whole comparison -/

/-- The comparison of two snapshots succeeds; its diffs are filed under the pairs of files to be
compared, and those of moved entities under the pairs of files between which they moved. -/
theorem exists_project (hbefore : before.Stored) (hafter : after.Stored)
    (h : model.Rooted before after) (config : Config) :
    ∃ project, ProjectDiff.ofModelDiff model before after config = .ok project ∧
      project.model = model ∧ project.failures = [] ∧
      Filed (comparedFiles model before after) project.diffs ∧
      Filed ((relocations model (filePairs model before after)).map Relocation.files)
        project.moved := by
  have hfound : Found before after (comparedFiles model before after) :=
    fun files hfiles => found_of_mem_comparedFiles h hfiles
  have hchanging : Found before after (filePairs model before after) :=
    fun files hfiles => hfound files (List.mem_append_left _ hfiles)
  obtain ⟨parts, hparts, hfitting⟩ :=
    exists_contributions model hchanging config.thresholds.clamped
  obtain ⟨changed, hchanged, hworked⟩ :=
    exists_changedDiffs model hbefore hafter hchanging hfitting
  obtain ⟨unchanged, hunchanged, hworked'⟩ := exists_unchangedDiffs hbefore hafter
    fun files hfiles => hfound files (List.mem_append_right _ hfiles)
  obtain ⟨relocated, hrelocated, hmoving⟩ := exists_relocationDiffs hbefore hafter
    (found_relocations h (filePairs model before after)) config.thresholds.clamped
  have hcompared : List.Forall₂ Worked (comparedFiles model before after) (changed ++ unchanged) :=
    List.rel_append hworked hworked'
  obtain ⟨hkeys, hown, hfailures⟩ := successes_of_worked hcompared
  obtain ⟨hmoved, hown', hfailures'⟩ := successes_of_worked hmoving
  refine ⟨{
    diffs := sortDiffs (successes (changed ++ unchanged))
    moved := (successes relocated).foldl (fun diffs (files, diff) => joinDiff diffs files diff) []
    failures := failuresOf (changed ++ unchanged ++ relocated)
    model }, ?_, rfl, ?_, ?_, ?_⟩
  · simp only [ProjectDiff.ofModelDiff, hparts, ok_bind, assemble, hchanged, hunchanged, hrelocated]
    rfl
  · rw [failuresOf] at hfailures hfailures'
    rw [failuresOf, List.filterMap_append, hfailures, hfailures', List.append_nil]
  · exact filed_sortDiffs hkeys (pairwise_comparedFiles hbefore.ordered) hown
  · have hnone : Filed [] [] :=
      ⟨⟨List.Pairwise.nil, fun _ hd => absurd hd List.not_mem_nil⟩, fun _ => Iff.rfl⟩
    have hfiled := hnone.joinAll hown'
    rwa [hmoved, List.nil_append] at hfiled

/-- A pair of files with a diff of its own gets none for moved entities. -/
theorem not_listed_relocations
    (h : FilePair.Listed (comparedFiles model before after) files) :
    ¬ FilePair.Listed
      ((relocations model (filePairs model before after)).map Relocation.files) files := by
  rintro ⟨_, hmem, heq⟩
  obtain ⟨r, hr, rfl⟩ := List.mem_map.1 hmem
  obtain ⟨⟨b, a, number, hpair, hfiles⟩, hnew⟩ := mem_relocations hr
  rcases FilePair.listed_append.1 h with hlisted | ⟨pair, hpair', heq'⟩
  · exact hnew (hlisted.congr (BEq.symm heq))
  · have hcommon := (isCommon_of_mem (List.mem_of_mem_filter hpair')).congr
      (BEq.trans heq' (BEq.symm heq))
    rw [hfiles] at hcommon
    exact Bool.false_ne_true ((mem_movedPairs hpair).1.symm.trans hcommon.1)

/-- The files of two related entities are compared, or the entity moved between them. -/
theorem listed_of_related (h : model.Rooted before after) {r : Refactoring}
    {refs : EntityRef × EntityRef} (hr : r ∈ model.refactorings)
    (hrefs : refs ∈ r.fact.entityPairs) :
    FilePair.Listed (comparedFiles model before after) (.ofRefs refs.1 refs.2) ∨
      FilePair.Listed ((relocations model (filePairs model before after)).map Relocation.files)
        (.ofRefs refs.1 refs.2) := by
  obtain ⟨hbefore, hafter⟩ := h.refactorings r hr refs hrefs
  by_cases hlisted : FilePair.Listed (filePairs model before after) (.ofRefs refs.1 refs.2)
  · exact Or.inl (FilePair.listed_append.2 (Or.inl hlisted))
  · cases hsame : refs.1.path == refs.2.path with
    | true =>
      rw [← FileMap.contains_congr hsame] at hafter
      exact Or.inl ((listed_comparedFiles h).2 (Or.inl ⟨hsame, hbefore, hafter⟩))
    | false =>
      obtain ⟨number, hmoved⟩ := exists_mem_movedPairs hr hrefs hsame
      exact Or.inr (listed_relocations hmoved hlisted)

end Project

namespace ProjectDiff

theorem isSome_diff?_iff {project : ProjectDiff} {source target : Path} :
    (project.diff? source target).isSome = true ↔
      FilePair.Listed (project.diffs.map Prod.fst) ⟨source, target⟩ ∨
        FilePair.Listed (project.moved.map Prod.fst) ⟨source, target⟩ := by
  rw [← FilePair.listed_append, ← List.map_append, diff?, Option.isSome_map, List.find?_isSome]
  constructor
  · rintro ⟨entry, hentry, heq⟩
    exact ⟨entry.1, List.mem_map_of_mem hentry, heq⟩
  · rintro ⟨_, hmem, heq⟩
    obtain ⟨entry, hentry, rfl⟩ := List.mem_map.1 hmem
    exact ⟨entry, hentry, heq⟩

/-- **Project diffs are total and complete.**  The comparison of two snapshots of sources succeeds,
and no diff fails.  There is one diff for every file of both snapshots, and one for the files of
every pair of classes whose old file is gone and whose new file is new, and no others.  No pair of
files has both such a diff and one of moved entities.  For any two entities that a refactoring
relates there is a diff of their files. -/
theorem between_complete {parse parse' : Parse} (hparse : parse.KeepsPaths)
    (hparse' : parse'.KeepsPaths) (label label' : String) (sources sources' : List (Path × String))
    (config : Config) :
    let before := Snapshot.ofSources label parse (.ofList sources)
    let after := Snapshot.ofSources label' parse' (.ofList sources')
    ∃ project, between before after config = .ok project ∧
      project.model = ModelDiff.compute config.thresholds before.model after.model ∧
      project.failures = [] ∧
      Project.WellFiled project.diffs ∧ Project.WellFiled project.moved ∧
      (∀ files, FilePair.Listed (project.diffs.map Prod.fst) files ↔
        Project.IsCommon before after files ∨ Project.IsRenamed project.model before after files) ∧
      (∀ files, FilePair.Listed (project.diffs.map Prod.fst) files →
        ¬ FilePair.Listed (project.moved.map Prod.fst) files) ∧
      ∀ r ∈ project.model.refactorings, ∀ refs ∈ r.fact.entityPairs,
        (project.diff? refs.1.path refs.2.path).isSome = true := by
  intro before after
  have hbefore : before.Stored := Snapshot.stored_ofSources hparse label (FileMap.ordered_ofList _)
  have hafter : after.Stored := Snapshot.stored_ofSources hparse' label' (FileMap.ordered_ofList _)
  have hrooted := ModelDiff.rooted_compute hbefore hafter config.thresholds
  obtain ⟨project, hproject, hmodel, hfailures, hdiffs, hmoved⟩ :=
    Project.exists_project hbefore hafter hrooted config
  refine ⟨project, hproject, hmodel, hfailures, hdiffs.toWellFiled, hmoved.toWellFiled,
    fun files => ?_, fun files hfiles => ?_, ?_⟩
  · rw [hdiffs.listed, hmodel]
    exact Project.listed_comparedFiles hrooted
  · rw [hmoved.listed]
    exact Project.not_listed_relocations ((hdiffs.listed files).1 hfiles)
  · rw [hmodel]
    intro r hr refs hrefs
    refine isSome_diff?_iff.2 ((Project.listed_of_related hrooted hr hrefs).imp ?_ ?_)
    · exact (hdiffs.listed _).2
    · exact (hmoved.listed _).2

/-! ### A method that moves to another file -/

namespace MovedMethod

/-- A token. -/
def token (kind : String) (startByte endByte : Nat) : ConcreteTree :=
  .node { kind, named := false, startByte, endByte } []

/-- A node that fills a slot of its parent. -/
def slot (kind field : String) (startByte endByte : Nat) (children : List ConcreteTree := []) :
    ConcreteTree :=
  .node { kind, field := some field, startByte, endByte } children

/-- The method of `class A { void m() {} }`. -/
def method : ConcreteTree :=
  .node { kind := "method_declaration", startByte := 10, endByte := 21 }
    [slot "void_type" "type" 10 14, slot "identifier" "name" 15 16,
     slot "formal_parameters" "parameters" 16 18 [token "(" 16 17, token ")" 17 18],
     slot "block" "body" 19 21 [token "\x7b" 19 20, token "\x7d" 20 21]]

/-- A file with a class that has some members. -/
def program (stop : Nat) (members : List ConcreteTree) : ConcreteTree :=
  .node { kind := "program", startByte := 0, endByte := stop }
    [.node { kind := "class_declaration", startByte := 0, endByte := stop }
      [token "class" 0 5, slot "identifier" "name" 6 7,
       slot "class_body" "body" 8 stop
        (token "\x7b" 8 9 :: members ++ [token "\x7d" (stop - 1) stop])]]

/-- The class with its method. -/
def full : String := "class A \x7b void m() \x7b\x7d \x7d"

/-- The class without its method. -/
def bare : String := "class A \x7b \x7d"

/-- What the parser makes of the two classes, and of a file without any. -/
def concrete (_ : Path) (source : String) : ConcreteTree :=
  if source == full then program 23 [method]
  else if source == bare then program 11 []
  else .node { kind := "program", startByte := 0, endByte := 0 } []

def app : Path := ⟨"app/A.java"⟩

def lib : Path := ⟨"lib/A.java"⟩

def before : Snapshot :=
  .ofSources "old" (Language.parse concrete) (.ofList [(app, full), (lib, "")])

def after : Snapshot :=
  .ofSources "new" (Language.parse concrete) (.ofList [(app, bare), (lib, full)])

end MovedMethod

section

open MovedMethod

/-- A method moves from one file to the other.  The move is found, both files have a diff, and there
is a diff for what moved between them. -/
theorem between_complete_moved :
    (Language.parse concrete).KeepsPaths ∧ ∃ project, between before after {} = .ok project ∧
      project.failures = [] ∧
      project.model.refactorings.map Refactoring.description =
        ["Move Method m() : void from class A to m() : void from class A"] ∧
      FilePair.Listed (project.diffs.map Prod.fst) ⟨app, app⟩ ∧
      FilePair.Listed (project.diffs.map Prod.fst) ⟨lib, lib⟩ ∧
      FilePair.Listed (project.moved.map Prod.fst) ⟨app, lib⟩ := by
  have hparse := Language.parse_keepsPaths concrete
  obtain ⟨project, hproject, hmodel, hfailures, -, -, hkeys, -, hrelated⟩ :=
    between_complete hparse hparse "old" "new" [(app, full), (lib, "")]
      [(app, bare), (lib, full)] {}
  have hfiles : ∀ path ∈ [app, lib],
      before.files.contains path = true ∧ after.files.contains path = true := by decide +kernel
  have hlisted : ∀ path ∈ [app, lib], FilePair.Listed (project.diffs.map Prod.fst) ⟨path, path⟩ :=
    fun path hpath => (hkeys _).2 (Or.inl ⟨BEq.rfl, hfiles path hpath⟩)
  -- The method left its file, so some diff has to show it in both.
  have hdiff : (project.diff? app lib).isSome = true := by
    obtain ⟨r, hr, refs, hrefs, happ, hlib⟩ : ∃ r ∈ project.model.refactorings,
        ∃ refs ∈ r.fact.entityPairs, (refs.1.path == app) = true ∧ (refs.2.path == lib) = true := by
      rw [hmodel]
      decide +kernel
    have hsome := isSome_diff?_iff.1 (hrelated r hr refs hrefs)
    have heq : ((⟨refs.1.path, refs.2.path⟩ : FilePair) == ⟨app, lib⟩) = true :=
      FilePair.beq_iff.2 ⟨happ, hlib⟩
    exact isSome_diff?_iff.2 (hsome.imp (·.congr heq) (·.congr heq))
  -- No class takes the one file to the other, since the class is still where it was.
  have hapart : ¬ FilePair.Listed (project.diffs.map Prod.fst) ⟨app, lib⟩ := by
    rw [hkeys]
    rintro (⟨hsame, -⟩ | ⟨pair, hpair, -, hgone, -⟩)
    · exact absurd hsame (by decide +kernel)
    · have hstays : ∀ pair ∈ project.model.matched,
          after.files.contains pair.before.path = true := by
        rw [hmodel]
        decide +kernel
      exact absurd (hstays pair hpair) (ne_true_of_eq_false hgone)
  refine ⟨hparse, project, hproject, hfailures, ?_, hlisted app (by simp), hlisted lib (by simp),
    (isSome_diff?_iff.1 hdiff).resolve_left hapart⟩
  rw [hmodel]
  decide +kernel

end

end ProjectDiff

end Reshape
