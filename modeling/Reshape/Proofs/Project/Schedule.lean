import Mathlib
import Reshape.Project
import Reshape.Proofs.Loop
import Reshape.Proofs.Project.Complete

/-! # The order in which jobs are finished

The jobs of all pairs of files may be worked on at the same time.  Whoever finishes a job hands in
what it found, one at a time, so that contributions come in some order.  A step of the work finishes
any job that is still open; if files are compared one after the other, it finishes the first one.

What has been handed in and what is still to come is together always the same, up to the order.  The
mapping of a pair of files is put together by tier and by place, and no two contributions to one
pair of files share both.  So the order in which they came in is forgotten, and the comparison has
one result, whether files are compared at the same time or not. -/

namespace Reshape

namespace Project

variable {model : ModelDiff} {before after : Snapshot} {thresholds : Thresholds}
  {files : FilePair} {pairs : List FilePair} {parts order : List Contribution}

/-! ### Working off the jobs -/

/-- A job with the trees that it works on. -/
structure Assignment where
  source : Tree
  target : Tree
  job : Job

/-- What comes of an assignment. -/
def Assignment.run (thresholds : Thresholds) (assignment : Assignment) : Contribution :=
  assignment.job.run thresholds assignment.source assignment.target

/-- The assignments of all pairs of files. -/
def assignments (model : ModelDiff) (before after : Snapshot) (pairs : List FilePair) :
    Except Failure (List Assignment) := do
  let parts ← pairs.mapM fun files => do
    let (source, target) ← trees before after files
    return (jobs model files source target).map (Assignment.mk source target)
  return parts.flatten

/-- The state of the work: the assignments that are still open, and what has been handed in, in the
order in which it came. -/
structure Work where
  todo : List Assignment
  handedIn : List Contribution := []

/-- An assignment is finished, and what it found is handed in.  In parallel this may be any one that
is open, otherwise it is the first. -/
inductive Work.Step (thresholds : Thresholds) (parallel : Bool) : Work → Work → Prop
  | finish (left right : List Assignment) (assignment : Assignment) (handedIn : List Contribution)
      (turn : parallel = false → left = []) :
      Step thresholds parallel ⟨left ++ assignment :: right, handedIn⟩
        ⟨left ++ right, handedIn ++ [assignment.run thresholds]⟩

/-- Any number of assignments is finished, one after the other. -/
def Work.Run (thresholds : Thresholds) (parallel : Bool) : Work → Work → Prop :=
  Relation.ReflTransGen (Work.Step thresholds parallel)

/-- What has been handed in and what open assignments will hand in. -/
def Work.total (thresholds : Thresholds) (work : Work) : List Contribution :=
  work.handedIn ++ work.todo.map (Assignment.run thresholds)

theorem Work.Step.perm {parallel : Bool} {work next : Work}
    (h : Work.Step thresholds parallel work next) :
    (next.total thresholds).Perm (work.total thresholds) := by
  cases h with
  | finish left right assignment handedIn turn =>
    simp only [Work.total, List.map_append, List.map_cons, List.append_assoc,
      List.singleton_append]
    exact List.Perm.append_left _ List.perm_middle.symm

theorem Work.Run.perm {parallel : Bool} {work next : Work}
    (h : Work.Run thresholds parallel work next) :
    (next.total thresholds).Perm (work.total thresholds) := by
  induction h with
  | refl => exact List.Perm.refl _
  | tail _ hstep ih => exact hstep.perm.trans ih

/-- Finishing the open assignments in their order is a run, in parallel or not. -/
theorem Work.run_in_order (thresholds : Thresholds) (parallel : Bool) (todo : List Assignment)
    (handedIn : List Contribution) :
    Work.Run thresholds parallel ⟨todo, handedIn⟩
      ⟨[], handedIn ++ todo.map (Assignment.run thresholds)⟩ := by
  induction todo generalizing handedIn with
  | nil =>
    rw [List.map_nil, List.append_nil]
    exact Relation.ReflTransGen.refl
  | cons assignment todo ih =>
    have hrest := ih (handedIn ++ [assignment.run thresholds])
    rw [List.append_assoc, List.singleton_append] at hrest
    exact Relation.ReflTransGen.head (.finish [] todo assignment handedIn fun _ => rfl) hrest

/-- In parallel the assignments can be finished in any order. -/
theorem Work.run_of_perm (thresholds : Thresholds) {todo sequence : List Assignment}
    (h : sequence.Perm todo) (handedIn : List Contribution) :
    Work.Run thresholds true ⟨todo, handedIn⟩
      ⟨[], handedIn ++ sequence.map (Assignment.run thresholds)⟩ := by
  induction sequence generalizing todo handedIn with
  | nil =>
    obtain rfl := List.nil_perm.1 h
    rw [List.map_nil, List.append_nil]
    exact Relation.ReflTransGen.refl
  | cons assignment sequence ih =>
    obtain ⟨left, right, rfl⟩ := List.append_of_mem (h.subset (List.mem_cons_self ..))
    have hrest := ih (h.trans List.perm_middle).cons_inv (handedIn ++ [assignment.run thresholds])
    rw [List.append_assoc, List.singleton_append] at hrest
    exact Relation.ReflTransGen.head
      (.finish left right assignment handedIn fun hturn => nomatch hturn) hrest

/-- The results that a comparison may have.  If the jobs cannot be found, that is the result;
otherwise the open assignments are finished in some order, and the diffs are put together from what
was handed in. -/
inductive MayYield (model : ModelDiff) (before after : Snapshot) (config : Config) :
    Except Failure ProjectDiff → Prop
  | noJobs {failure : Failure}
      (found : assignments model before after (filePairs model before after) = .error failure) :
      MayYield model before after config (.error failure)
  | finished {todo : List Assignment} {handedIn : List Contribution}
      (found : assignments model before after (filePairs model before after) = .ok todo)
      (run : Work.Run config.thresholds.clamped config.parallel ⟨todo, []⟩ ⟨[], handedIn⟩) :
      MayYield model before after config
        (assemble model before after config.thresholds.clamped (filePairs model before after)
          handedIn)

/-- Contributions are what comes of the assignments. -/
theorem contributions_eq (model : ModelDiff) (before after : Snapshot) (thresholds : Thresholds)
    (pairs : List FilePair) :
    contributions model before after thresholds pairs =
      (assignments model before after pairs).map (List.map (Assignment.run thresholds)) := by
  rw [contributions, assignments]
  have hpart : ∀ files, (do
      let (source, target) ← trees before after files
      return (jobs model files source target).map (Job.run thresholds source target) :
        Except Failure (List Contribution)) = (do
      let (source, target) ← trees before after files
      return (jobs model files source target).map (Assignment.mk source target) :
        Except Failure (List Assignment)).map (List.map (Assignment.run thresholds)) := by
    intro files
    cases trees before after files with
    | error failure => rfl
    | ok found =>
      refine congrArg Except.ok ?_
      rw [List.map_map]
      rfl
  simp only [hpart, mapM_map]
  cases pairs.mapM (_ : FilePair → Except Failure (List Assignment)) with
  | error failure => rfl
  | ok parts => exact congrArg Except.ok List.map_flatten.symm

/-! ### Contributions to one pair of files -/

/-- The tier and the place of a contribution. -/
def Contribution.rank (part : Contribution) : Nat × Nat := (part.tier, part.place)

/-- Two contributions that differ in their files or in their rank. -/
def Contribution.Apart (a b : Contribution) : Prop :=
  (a.files == b.files) = true → a.rank ≠ b.rank

theorem comesFirst_iff {a b : Contribution} :
    a.comesFirst b = true ↔ a.tier < b.tier ∨ a.tier = b.tier ∧ a.place ≤ b.place := by
  simp [Contribution.comesFirst]

theorem comesFirst_trans (a b c : Contribution) (h : a.comesFirst b = true)
    (h' : b.comesFirst c = true) : a.comesFirst c = true := by
  rw [comesFirst_iff] at *
  omega

theorem comesFirst_total (a b : Contribution) : (a.comesFirst b || b.comesFirst a) = true := by
  rw [Bool.or_eq_true, comesFirst_iff, comesFirst_iff]
  omega

theorem rank_eq_of_comesFirst {a b : Contribution} (h : a.comesFirst b = true)
    (h' : b.comesFirst a = true) : a.rank = b.rank := by
  rw [comesFirst_iff] at *
  exact Prod.ext (by show a.tier = b.tier; omega) (by show a.place = b.place; omega)

theorem pairwise_mergeSort (parts : List Contribution) :
    (parts.mergeSort Contribution.comesFirst).Pairwise fun a b => a.comesFirst b = true :=
  List.pairwise_mergeSort comesFirst_trans comesFirst_total parts

/-- **Contributions of different ranks may come in any order.** -/
theorem combine_perm (hperm : order.Perm parts) (hranks : (parts.map Contribution.rank).Nodup) :
    combine order = combine parts := by
  have hsorted : order.mergeSort Contribution.comesFirst =
      parts.mergeSort Contribution.comesFirst := by
    have hsort := @List.mergeSort_perm Contribution
    refine List.Perm.eq_of_pairwise ?_ (pairwise_mergeSort order) (pairwise_mergeSort parts)
      ((hsort order _).trans (hperm.trans (hsort parts _).symm))
    intro a b ha hb hab hba
    have ha' : a ∈ parts := hperm.mem_iff.1 ((hsort order _).mem_iff.1 ha)
    have hb' : b ∈ parts := (hsort parts _).mem_iff.1 hb
    exact List.inj_on_of_nodup_map hranks ha' hb' (rank_eq_of_comesFirst hab hba)
  rw [combine, combine, hsorted]

/-- The places of a numbered list differ. -/
theorem pairwise_zipIdx {α : Type} (list : List α) :
    list.zipIdx.Pairwise fun a b => a.2 ≠ b.2 := by
  rw [← List.pairwise_map (R := (· ≠ ·)), List.zipIdx_map_snd]
  exact List.nodup_range'

theorem entityJob_eq_some {pair : EntityPair} {place : Nat} {job : Job}
    (h : (if FilePair.ofRefs pair.before pair.after == files then
        (tier? pair.before.id.kind).map fun tier =>
          ({ files, tier, place, sourceRoot := pair.before.node,
             targetRoot := pair.after.node } : Job)
      else none) = some job) : (job.tier = 0 ∨ job.tier = 2) ∧ job.place = place := by
  split at h
  · obtain ⟨tier, htier, rfl⟩ := Option.map_eq_some_iff.1 h
    refine ⟨?_, rfl⟩
    cases hkind : pair.before.id.kind <;> rw [hkind] at htier <;> cases htier <;> simp
  · cases h

/-- Two jobs that differ in tier or place. -/
def Job.Apart (a b : Job) : Prop := a.tier ≠ b.tier ∨ a.place ≠ b.place

/-- The jobs of one pair of files differ in tier or place. -/
theorem pairwise_jobs (model : ModelDiff) (files : FilePair) (source target : Tree) :
    (jobs model files source target).Pairwise Job.Apart := by
  have hentity : ∀ job ∈ entityJobs model files, job.tier = 0 ∨ job.tier = 2 := by
    intro job hjob
    obtain ⟨⟨pair, place⟩, -, h⟩ := List.mem_filterMap.1 hjob
    exact (entityJob_eq_some h).1
  have hexchange : ∀ job ∈ exchangeJobs model files, job.tier = 1 := by
    intro job hjob
    obtain ⟨⟨⟨b, a⟩, place⟩, -, rfl⟩ := List.mem_map.1 hjob
    rfl
  refine List.pairwise_append.2 ⟨List.pairwise_append.2 ⟨?_, ?_, fun a ha b hb => ?_⟩,
    List.pairwise_singleton _ _, fun a ha b hb => ?_⟩
  · refine List.pairwise_filterMap.2 ((pairwise_zipIdx _).imp ?_)
    intro p q hne a ha b hb
    rw [← (entityJob_eq_some ha).2, ← (entityJob_eq_some hb).2] at hne
    exact Or.inr hne
  · exact List.pairwise_map.2 ((pairwise_zipIdx _).imp fun hne => Or.inr hne)
  · have := hentity a ha
    have := hexchange b hb
    exact Or.inl (by omega)
  · obtain rfl := List.mem_singleton.1 hb
    refine Or.inl fun htier => ?_
    replace htier : a.tier = 3 := htier
    rcases List.mem_append.1 ha with ha | ha
    · have := hentity a ha
      omega
    · have := hexchange a ha
      omega

/-- Contributions to one pair of files, of different ranks. -/
structure Disjoint (files : FilePair) (parts : List Contribution) : Prop where
  files_eq : ∀ part ∈ parts, part.files = files
  ranks : (parts.map Contribution.rank).Nodup

theorem disjoint_jobs (model : ModelDiff) (files : FilePair) (thresholds : Thresholds)
    (source target : Tree) :
    Disjoint files ((jobs model files source target).map (Job.run thresholds source target)) := by
  refine ⟨fun part hpart => ?_, ?_⟩
  · obtain ⟨job, hjob, rfl⟩ := List.mem_map.1 hpart
    exact files_of_mem_jobs hjob
  · rw [List.map_map]
    refine List.pairwise_map.2 ((pairwise_jobs model files source target).imp ?_)
    intro a b hapart hrank
    obtain ⟨htier, hplace⟩ := Prod.mk.inj hrank
    exact hapart.elim (fun hne => hne htier) fun hne => hne hplace

theorem Disjoint.flatten {lists : List (List Contribution)}
    (honce : pairs.Pairwise FilePair.Differ) (h : List.Forall₂ Disjoint pairs lists) :
    (∀ part ∈ lists.flatten, part.files ∈ pairs) ∧ lists.flatten.Pairwise Contribution.Apart := by
  induction h with
  | nil => exact ⟨fun _ hpart => absurd hpart List.not_mem_nil, List.Pairwise.nil⟩
  | @cons files list pairs lists hlist _ ih =>
    obtain ⟨hdiffer, honce⟩ := List.pairwise_cons.1 honce
    obtain ⟨hlater, hapart⟩ := ih honce
    rw [List.flatten_cons]
    refine ⟨fun part hpart => ?_, List.pairwise_append.2 ⟨?_, hapart, fun a ha b hb hsame => ?_⟩⟩
    · rcases List.mem_append.1 hpart with hpart | hpart
      · exact hlist.files_eq part hpart ▸ List.mem_cons_self ..
      · exact List.mem_cons_of_mem _ (hlater part hpart)
    · exact (List.pairwise_map.1 hlist.ranks).imp fun {a b} hne (_ : (a.files == b.files) = true) =>
        hne
    · rw [hlist.files_eq a ha, hdiffer b.files (hlater b hb)] at hsame
      cases hsame

/-- **No two contributions clash.**  Contributions of different pairs of files are told apart by
their files, those of one pair by tier and place. -/
theorem pairwise_contributions (honce : pairs.Pairwise FilePair.Differ)
    (h : contributions model before after thresholds pairs = .ok parts) :
    parts.Pairwise Contribution.Apart := by
  obtain ⟨lists, hlists, hparts⟩ := bind_eq_ok.1 h
  obtain rfl := Except.ok.inj hparts
  refine (Disjoint.flatten honce ((forall₂_of_mapM hlists).imp fun files list hlist => ?_)).2
  obtain ⟨⟨source, target⟩, -, hlist⟩ := bind_eq_ok.1 hlist
  obtain rfl := Except.ok.inj hlist
  exact disjoint_jobs model files thresholds source target

/-! ### One result -/

/-- The order in which contributions come in does not matter to any pair of files. -/
theorem assemble_perm (hapart : parts.Pairwise Contribution.Apart) (hperm : order.Perm parts) :
    assemble model before after thresholds pairs order =
      assemble model before after thresholds pairs parts := by
  have hcombine : ∀ files : FilePair, combine (order.filter (·.files == files)) =
      combine (parts.filter (·.files == files)) := by
    intro files
    refine combine_perm (hperm.filter _) (List.pairwise_map.2 ?_)
    refine (hapart.filter _).imp_of_mem fun {a b} ha hb hne => hne ?_
    exact BEq.trans (List.mem_filter.1 ha).2 (BEq.symm (List.mem_filter.1 hb).2)
  simp only [assemble, changedDiffs, fileDiff, hcombine]

/-- **The comparison does not depend on the schedule.**  The jobs can be finished in any order.
Whatever the model diff, the snapshots and the configuration are, and whether files are compared at
the same time or one after the other, every order gives one and the same result, with the same
diffs, the same diffs of moved entities and the same failures. -/
theorem every_schedule_same_result (model : ModelDiff) (before after : Snapshot) (config : Config) :
    (∀ todo sequence : List Assignment, sequence.Perm todo →
      Work.Run config.thresholds.clamped true ⟨todo, []⟩
        ⟨[], sequence.map (Assignment.run config.thresholds.clamped)⟩) ∧
    ∀ (parallel : Bool) (result : Except Failure ProjectDiff),
      MayYield model before after { config with parallel } result ↔
        result = ProjectDiff.ofModelDiff model before after config := by
  refine ⟨fun todo sequence hperm => Work.run_of_perm _ hperm [], fun parallel result => ?_⟩
  have hcontributions := contributions_eq model before after config.thresholds.clamped
    (filePairs model before after)
  rw [ProjectDiff.ofModelDiff]
  constructor
  · rintro (⟨hfound⟩ | ⟨hfound, hrun⟩)
    · rw [hcontributions, hfound]
      rfl
    · rw [hfound] at hcontributions
      have hperm := hrun.perm
      simp only [Work.total, List.map_nil, List.append_nil, List.nil_append] at hperm
      rw [hcontributions]
      exact assemble_perm (pairwise_contributions (FilePair.pairwise_sorted _) hcontributions) hperm
  · rintro rfl
    cases hfound : assignments model before after (filePairs model before after) with
    | error failure =>
      rw [hcontributions, hfound]
      exact .noJobs hfound
    | ok todo =>
      rw [hcontributions, hfound]
      exact .finished hfound (Work.run_in_order _ parallel todo [])

end Project

end Reshape
