import Mathlib
import Reshape.Project
import Reshape.Proofs.ModelDiff

/-! # The pairs of files that are compared

Pairs of files are compared like paths, by components.  Listing pairs in order, each once, loses
none of them.  The pairs that get a diff are those of files that both snapshots hold, and those of
paired classes whose old file is gone and whose new file is new. -/

namespace Reshape

/-! ### Lists without repetitions -/

section EraseDups

variable {α : Type} [BEq α]

theorem eraseDups_sublist (list : List α) : list.eraseDups.Sublist list := by
  match list with
  | [] => exact List.Sublist.slnil
  | x :: rest =>
    rw [List.eraseDups_cons]
    exact ((eraseDups_sublist _).trans List.filter_sublist).cons_cons x
termination_by list.length
decreasing_by exact Nat.lt_succ_of_le (List.length_filter_le _ _)

theorem exists_mem_eraseDups [ReflBEq α] (list : List α) {x : α} (h : x ∈ list) :
    ∃ y ∈ list.eraseDups, (x == y) = true := by
  match list with
  | [] => cases h
  | a :: rest =>
    rw [List.eraseDups_cons]
    by_cases hxa : (x == a) = true
    · exact ⟨a, List.mem_cons_self .., hxa⟩
    · have hrest : x ∈ rest.filter fun b => !b == a := by
        rcases List.mem_cons.1 h with rfl | h
        · exact absurd BEq.rfl hxa
        · exact List.mem_filter.2 ⟨h, by simpa using hxa⟩
      obtain ⟨y, hy, hxy⟩ := exists_mem_eraseDups _ hrest
      exact ⟨y, List.mem_cons_of_mem _ hy, hxy⟩
termination_by list.length
decreasing_by exact Nat.lt_succ_of_le (List.length_filter_le _ _)

theorem pairwise_eraseDups (list : List α) :
    list.eraseDups.Pairwise fun x y => (y == x) = false := by
  match list with
  | [] => exact List.Pairwise.nil
  | x :: rest =>
    rw [List.eraseDups_cons]
    refine List.pairwise_cons.2 ⟨fun y hy => ?_, pairwise_eraseDups _⟩
    simpa using (List.mem_filter.1 ((eraseDups_sublist _).subset hy)).2
termination_by list.length
decreasing_by exact Nat.lt_succ_of_le (List.length_filter_le _ _)

end EraseDups

namespace FilePair

variable {a b : FilePair} {pairs : List FilePair}

theorem beq_iff : (a == b) = true ↔ (a.source == b.source) = true ∧ (a.target == b.target) = true :=
  Bool.and_eq_true_iff

instance : EquivBEq FilePair where
  rfl := beq_iff.2 ⟨BEq.rfl, BEq.rfl⟩
  symm h := beq_iff.2 ⟨BEq.symm (beq_iff.1 h).1, BEq.symm (beq_iff.1 h).2⟩
  trans h h' := beq_iff.2 ⟨BEq.trans (beq_iff.1 h).1 (beq_iff.1 h').1,
    BEq.trans (beq_iff.1 h).2 (beq_iff.1 h').2⟩

/-- Two different pairs. -/
def Differ (a b : FilePair) : Prop := (a == b) = false

theorem Differ.symm (h : a.Differ b) : b.Differ a := by
  rw [Differ, BEq.comm]
  exact h

/-- A pair that is listed, however its paths are written. -/
def Listed (pairs : List FilePair) (files : FilePair) : Prop :=
  ∃ pair ∈ pairs, (pair == files) = true

theorem listed_iff_contains {files : FilePair} :
    Listed pairs files ↔ pairs.contains files = true := by
  rw [List.contains_iff_exists_mem_beq]
  exact ⟨fun ⟨pair, hpair, heq⟩ => ⟨pair, hpair, BEq.symm heq⟩,
    fun ⟨pair, hpair, heq⟩ => ⟨pair, hpair, BEq.symm heq⟩⟩

theorem Listed.congr (h : Listed pairs a) (heq : (a == b) = true) : Listed pairs b :=
  have ⟨pair, hpair, heq'⟩ := h
  ⟨pair, hpair, BEq.trans heq' heq⟩

theorem listed_append {more : List FilePair} {files : FilePair} :
    Listed (pairs ++ more) files ↔ Listed pairs files ∨ Listed more files := by
  simp only [Listed, List.mem_append, or_and_right, exists_or]

theorem mem_of_mem_sorted {files : FilePair} (h : files ∈ sorted pairs) : files ∈ pairs :=
  (eraseDups_sublist _).subset ((List.mergeSort_perm _ _).mem_iff.1 h)

theorem listed_sorted {files : FilePair} : Listed (sorted pairs) files ↔ Listed pairs files := by
  constructor
  · rintro ⟨pair, hpair, heq⟩
    exact ⟨pair, mem_of_mem_sorted hpair, heq⟩
  · rintro ⟨pair, hpair, heq⟩
    obtain ⟨kept, hkept, heq'⟩ := exists_mem_eraseDups _ hpair
    exact ⟨kept, (List.mergeSort_perm _ _).mem_iff.2 hkept, BEq.trans (BEq.symm heq') heq⟩

theorem pairwise_sorted (pairs : List FilePair) : (sorted pairs).Pairwise Differ :=
  (List.mergeSort_perm _ _).pairwise_iff Differ.symm |>.2
    ((pairwise_eraseDups pairs).imp Differ.symm)

end FilePair

namespace Project

variable {before after : Snapshot} {model : ModelDiff} {files : FilePair} {pairs : List FilePair}

/-! ### Files of both snapshots -/

theorem commonFile_eq_some {related : String → String → Bool} {entry : Path × Tree} :
    (match after.tree? entry.1 with
      | some other => if related entry.2.source other.source then some ⟨entry.1, entry.1⟩ else none
      | none => none) = some files ↔
      ∃ other, after.tree? entry.1 = some other ∧ related entry.2.source other.source = true ∧
        files = ⟨entry.1, entry.1⟩ := by
  cases htree : after.tree? entry.1 with
  | none => simp
  | some other =>
    simp only [Option.ite_none_right_eq_some, Option.some.injEq, exists_eq_left']
    exact and_congr_right fun _ => eq_comm

theorem mem_commonFiles {related : String → String → Bool} :
    files ∈ commonFiles before after related ↔ ∃ entry ∈ before.files.entries, ∃ other,
      after.tree? entry.1 = some other ∧ related entry.2.source other.source = true ∧
        files = ⟨entry.1, entry.1⟩ :=
  List.mem_filterMap.trans
    (exists_congr fun _ => and_congr_right fun _ => commonFile_eq_some)

/-- A file that both snapshots hold, paired with itself. -/
def IsCommon (before after : Snapshot) (files : FilePair) : Prop :=
  (files.source == files.target) = true ∧ before.files.contains files.source = true ∧
    after.files.contains files.source = true

theorem IsCommon.congr {other : FilePair} (h : IsCommon before after files)
    (heq : (files == other) = true) : IsCommon before after other := by
  obtain ⟨hsource, htarget⟩ := FilePair.beq_iff.1 heq
  refine ⟨BEq.trans (BEq.trans (BEq.symm hsource) h.1) htarget, ?_, ?_⟩
  · rw [← FileMap.contains_congr hsource]
    exact h.2.1
  · rw [← FileMap.contains_congr hsource]
    exact h.2.2

theorem isCommon_of_mem {related : String → String → Bool}
    (h : files ∈ commonFiles before after related) : IsCommon before after files := by
  obtain ⟨⟨path, tree⟩, hentry, other, hother, -, rfl⟩ := mem_commonFiles.1 h
  exact ⟨BEq.rfl, FileMap.contains_of_mem hentry, Option.isSome_iff_exists.2 ⟨other, hother⟩⟩

/-- The sources of a file of both snapshots are related in one way or the other. -/
theorem IsCommon.listed (h : IsCommon before after files) :
    FilePair.Listed (commonFiles before after (· != ·)) files ∨
      FilePair.Listed (commonFiles before after (· == ·)) files := by
  obtain ⟨hsame, hbefore, hafter⟩ := h
  obtain ⟨tree, htree⟩ := Option.isSome_iff_exists.1 hbefore
  obtain ⟨other, hother⟩ := Option.isSome_iff_exists.1 hafter
  obtain ⟨path, hentry, hpath⟩ := FileMap.exists_of_get? htree
  have hother' : after.tree? path = some other := (FileMap.get?_congr hpath).trans hother
  have hfiles : ((⟨path, path⟩ : FilePair) == files) = true :=
    FilePair.beq_iff.2 ⟨hpath, BEq.trans hpath hsame⟩
  by_cases heq : tree.source = other.source
  · exact Or.inr ⟨_,
      mem_commonFiles.2 ⟨(path, tree), hentry, other, hother', by simpa using heq, rfl⟩, hfiles⟩
  · exact Or.inl ⟨_,
      mem_commonFiles.2 ⟨(path, tree), hentry, other, hother', by simpa using heq, rfl⟩, hfiles⟩

theorem pairwise_commonFiles (h : before.files.Ordered) (related : String → String → Bool) :
    (commonFiles before after related).Pairwise FilePair.Differ := by
  refine List.pairwise_filterMap.2 (h.imp fun {p q} hlt => ?_)
  intro a ha b hb
  obtain ⟨-, -, -, rfl⟩ := commonFile_eq_some.1 ha
  obtain ⟨-, -, -, rfl⟩ := commonFile_eq_some.1 hb
  show (_ && _) = false
  rw [Path.beq_eq_false_of_lt hlt, Bool.false_and]

/-! ### All pairs of files with a diff -/

/-- The files of paired classes whose old file is gone and whose new file is new. -/
def IsRenamed (model : ModelDiff) (before after : Snapshot) (files : FilePair) : Prop :=
  ∃ pair ∈ model.matched, pair.before.id.kind = .type ∧
    after.files.contains pair.before.path = false ∧
    before.files.contains pair.after.path = false ∧
    (FilePair.ofRefs pair.before pair.after == files) = true

theorem listed_renamedFiles (h : model.Rooted before after) :
    FilePair.Listed (renamedFiles model before after) files ↔
      IsRenamed model before after files := by
  constructor
  · rintro ⟨_, hmem, heq⟩
    obtain ⟨pair, hpair, rfl⟩ := List.mem_map.1 hmem
    obtain ⟨hpair, hrenamed⟩ := List.mem_filter.1 hpair
    simp only [Bool.and_eq_true, beq_iff_eq, Bool.not_eq_true'] at hrenamed
    exact ⟨pair, hpair, hrenamed.1.1.1, hrenamed.1.2, hrenamed.2, heq⟩
  · rintro ⟨pair, hpair, hkind, hgone, hnew, heq⟩
    refine ⟨_, List.mem_map.2 ⟨pair, List.mem_filter.2 ⟨hpair, ?_⟩, rfl⟩, heq⟩
    -- A file that is still there could not be the new file of the class.
    have hne : (pair.before.path == pair.after.path) = false := by
      refine Bool.eq_false_iff.2 fun hsame => ?_
      rw [FileMap.contains_congr hsame, (h.matched pair hpair).2] at hgone
      cases hgone
    simp only [hkind, bne, hne, hgone, hnew, BEq.rfl, Bool.not_false, Bool.and_true]

/-- The files that did not change and are not listed already. -/
def unchangedFiles (before after : Snapshot) (pairs : List FilePair) : List FilePair :=
  (commonFiles before after (· == ·)).filter fun files => !pairs.contains files

/-- All pairs of files that get a diff. -/
def comparedFiles (model : ModelDiff) (before after : Snapshot) : List FilePair :=
  filePairs model before after ++ unchangedFiles before after (filePairs model before after)

theorem listed_filePairs : FilePair.Listed (filePairs model before after) files ↔
    FilePair.Listed (commonFiles before after (· != ·)) files ∨
      FilePair.Listed (renamedFiles model before after) files := by
  rw [filePairs, FilePair.listed_sorted, FilePair.listed_append]

/-- **The pairs of files with a diff.** -/
theorem listed_comparedFiles (h : model.Rooted before after) :
    FilePair.Listed (comparedFiles model before after) files ↔
      IsCommon before after files ∨ IsRenamed model before after files := by
  rw [comparedFiles, FilePair.listed_append, listed_filePairs, listed_renamedFiles h]
  constructor
  · rintro ((⟨pair, hpair, heq⟩ | hrenamed) | ⟨pair, hpair, heq⟩)
    · exact Or.inl ((isCommon_of_mem hpair).congr heq)
    · exact Or.inr hrenamed
    · exact Or.inl ((isCommon_of_mem (List.mem_of_mem_filter hpair)).congr heq)
  · rintro (hcommon | hrenamed)
    · rcases hcommon.listed with hchanged | ⟨pair, hpair, heq⟩
      · exact Or.inl (Or.inl hchanged)
      · by_cases hlisted : FilePair.Listed (filePairs model before after) pair
        · have hlisted' := hlisted.congr heq
          rw [listed_filePairs, listed_renamedFiles h] at hlisted'
          exact Or.inl hlisted'
        · exact Or.inr ⟨pair, List.mem_filter.2 ⟨hpair, by
            simpa [FilePair.listed_iff_contains] using hlisted⟩, heq⟩
    · exact Or.inl (Or.inr hrenamed)

theorem pairwise_comparedFiles (h : before.files.Ordered) :
    (comparedFiles model before after).Pairwise FilePair.Differ := by
  refine List.pairwise_append.2 ⟨FilePair.pairwise_sorted _,
    (pairwise_commonFiles h _).filter _, fun a ha b hb => ?_⟩
  refine Bool.eq_false_iff.2 fun heq => ?_
  have hlisted := FilePair.listed_iff_contains.1 ⟨a, ha, heq⟩
  simpa [hlisted] using (List.mem_filter.1 hb).2

/-- Both files of a pair with a diff can be found. -/
theorem found_of_mem_comparedFiles (h : model.Rooted before after)
    (hfiles : files ∈ comparedFiles model before after) :
    before.files.contains files.source = true ∧ after.files.contains files.target = true := by
  rcases (listed_comparedFiles h).1 ⟨files, hfiles, BEq.rfl⟩ with hcommon | hrenamed
  · refine ⟨hcommon.2.1, ?_⟩
    rw [← FileMap.contains_congr hcommon.1]
    exact hcommon.2.2
  · obtain ⟨pair, hpair, -, -, -, heq⟩ := hrenamed
    obtain ⟨hsource, htarget⟩ := FilePair.beq_iff.1 heq
    rw [← FileMap.contains_congr hsource, ← FileMap.contains_congr htarget]
    exact h.matched pair hpair

end Project

end Reshape
