import Mathlib
import Reshape.Proofs.Script.Changes
import Reshape.Proofs.Script.Grouping

/-! # Departures come first and arrivals last

The edits of a script are noted phase by phase: the departures, then edits that stay within the
file, then the arrivals.  Departures and arrivals are each taken up in the order of their
justifications, so those that one refactoring explains stand together, and grouping brings them to
one place.  Nothing is assumed of the mapping here; it is enough that the script could be made. -/

namespace Reshape

namespace Edit

/-- Whether an edit is an arrival. -/
def arrives : Edit → Bool
  | .moveIn _ _ _ _ _ => true
  | _ => false

/-- Whether an edit moves a subtree between files. -/
def crosses : Edit → Bool
  | .moveIn _ _ _ _ _ | .moveOut _ _ _ => true
  | _ => false

theorem not_departsBy_of_within {e : Edit} (h : e.crosses = false) (j : Nat) :
    e.departsBy j = false := by
  cases e with
  | moveOut => cases h
  | _ => rfl

theorem not_arrivesBy_of_within {e : Edit} (h : e.crosses = false) (j : Nat) :
    e.arrivesBy j = false := by
  cases e with
  | moveIn => cases h
  | _ => rfl

theorem not_departsBy_of_arrives {e : Edit} (h : e.arrives = true) (j : Nat) :
    e.departsBy j = false := by
  cases e with
  | moveIn => rfl
  | _ => cases h

theorem arrivesBy_iff_of_arrives {e : Edit} (h : e.arrives = true) (j : Nat) :
    e.arrivesBy j = true ↔ e.justification? = some j := by
  rw [justification?_eq_some, not_departsBy_of_arrives h, Bool.false_eq_true, false_or]

end Edit

/-! ### The order of reports -/

/-- When a justification has its turn; what has none comes last. -/
def turnOf : Option Nat → WithTop Nat
  | none => ⊤
  | some j => j

theorem turnOf_eq_iff {justification : Option Nat} {j : Nat} :
    turnOf justification = j ↔ justification = some j := by
  cases justification with
  | none => simp [turnOf]
  | some i => simp [turnOf]

theorem Report.before_iff {a b : Report} :
    a.before b = true ↔ turnOf a.justification ≤ turnOf b.justification := by
  cases ha : a.justification <;> cases hb : b.justification <;> simp [before, turnOf, ha, hb]

theorem Report.before_trans (a b c : Report) (hab : a.before b = true) (hbc : b.before c = true) :
    a.before c = true :=
  before_iff.2 ((before_iff.1 hab).trans (before_iff.1 hbc))

theorem Report.before_total (a b : Report) : (a.before b || b.before a) = true := by
  rw [Bool.or_eq_true, before_iff, before_iff]
  exact le_total _ _

theorem ScriptSide.pairwise_transferred (side : ScriptSide) :
    side.transferred.Pairwise fun a b => turnOf a.justification ≤ turnOf b.justification :=
  (List.pairwise_mergeSort Report.before_trans Report.before_total _).imp Report.before_iff.1

namespace Script

variable {target : Tree} {progress next base : Progress} {edit : Edit}

/-! ### What the phases note -/

/-- The first phase notes the departures and then the deletions. -/
theorem edits_clear (task : Task) : task.clear.edits =
    task.sourceSide.transferred.map Task.departure ++ task.bare.map .delete := by
  have hdiscards : ∀ (ids : List Nat) (progress : Progress),
      (ids.foldl Task.discard progress).edits = progress.edits ++ ids.map .delete := by
    intro ids
    induction ids with
    | nil => exact fun progress => (List.append_nil _).symm
    | cons id ids ih =>
      intro progress
      rw [List.foldl_cons, ih, Task.discard, Progress.edits_note, List.map_cons, List.append_assoc,
        List.singleton_append]
  exact hdiscards task.bare (task.departed task.sourceSide)

/-- Since `base`, nothing has been noted but edits within the file. -/
def StaysWithin (base progress : Progress) : Prop :=
  ∃ more, progress.edits = base.edits ++ more ∧ ∀ e ∈ more, e.crosses = false

namespace StaysWithin

theorem refl (progress : Progress) : StaysWithin progress progress :=
  ⟨[], (List.append_nil _).symm, fun _ h => absurd h List.not_mem_nil⟩

theorem trans (h : StaysWithin base progress) (h' : StaysWithin progress next) :
    StaysWithin base next := by
  obtain ⟨more, hmore, hwithin⟩ := h
  obtain ⟨more', hmore', hwithin'⟩ := h'
  refine ⟨more ++ more', by rw [hmore', hmore, List.append_assoc], ?_⟩
  exact List.forall_mem_append.2 ⟨hwithin, hwithin'⟩

theorem note (progress : Progress) (draft : Draft) (hedit : edit.crosses = false) :
    StaysWithin progress (progress.note draft edit) :=
  ⟨[edit], rfl, fun _ he => List.mem_singleton.1 he ▸ hedit⟩

theorem mark (h : StaysWithin base progress) (t : Nat) : StaysWithin base (progress.mark t) :=
  h

theorem foldlM {α : Type} {f : Progress → α → Except Violation Progress} {list : List α}
    (step : ∀ x ∈ list, ∀ progress next, f progress x = .ok next → StaysWithin progress next)
    (h : list.foldlM f base = .ok next) : StaysWithin base next :=
  foldlM_keeps (StaysWithin base) (refl base)
    (fun x hx progress next hkeep hnext => hkeep.trans (step x hx progress next hnext)) h

end StaysWithin

namespace Task

variable {task : Task} {t w z : Nat}

theorem staysWithin_moveChild {child : Nat} (h : task.moveChild t z progress child = .ok next) :
    StaysWithin progress next := by
  unfold moveChild at h
  split at h
  · obtain rfl := Except.ok.inj h
    exact .refl _
  · obtain ⟨source, -, h⟩ := bind_eq_ok.1 h
    obtain ⟨placed, -, h⟩ := bind_eq_ok.1 h
    obtain rfl := Except.ok.inj h
    exact (StaysWithin.note progress placed rfl).mark child

theorem staysWithin_alignChildren (h : task.alignChildren progress w t = .ok next) :
    StaysWithin progress next := by
  obtain ⟨more, hmore, hwithin⟩ := StaysWithin.foldlM
    (fun _ _ _ _ hstep => staysWithin_moveChild hstep) h
  rw [foldl_mark] at hmore
  exact ⟨more, hmore, hwithin⟩

theorem staysWithin_relabel (h : task.relabel progress t w = .ok next) :
    StaysWithin progress next := by
  unfold relabel at h
  split at h
  · obtain rfl := Except.ok.inj h
    exact .refl _
  · obtain ⟨source, -, h⟩ := bind_eq_ok.1 h
    obtain rfl := Except.ok.inj h
    exact .note _ _ rfl

theorem staysWithin_reparent (h : task.reparent progress t w z = .ok next) :
    StaysWithin progress next := by
  unfold reparent at h
  split at h
  · obtain rfl := Except.ok.inj h
    exact .refl _
  · obtain ⟨source, -, h⟩ := bind_eq_ok.1 h
    obtain ⟨placed, -, h⟩ := bind_eq_ok.1 h
    obtain rfl := Except.ok.inj h
    exact .note _ _ rfl

theorem staysWithin_bring (h : task.bring progress t z = .ok next) : StaysWithin progress next := by
  unfold bring at h
  split at h
  · obtain ⟨relabelled, hrelabel, hreparent⟩ := bind_eq_ok.1 h
    exact (staysWithin_relabel hrelabel).trans (staysWithin_reparent hreparent)
  · obtain ⟨placed, -, h⟩ := bind_eq_ok.1 h
    obtain rfl := Except.ok.inj h
    exact .note _ _ rfl

theorem staysWithin_visit (h : task.visit progress t = .ok next) : StaysWithin progress next := by
  cases hz : progress.draft.place? (task.targetParent t) with
  | none =>
    simp only [visit, hz] at h
    cases h
  | some z =>
    simp only [visit, hz] at h
    obtain ⟨placed, hplaced, h⟩ := bind_eq_ok.1 h
    have hbrought := staysWithin_bring hplaced
    cases hw : placed.draft.standIns[t]? with
    | some w =>
      rw [hw] at h
      exact (hbrought.mark t).trans (staysWithin_alignChildren h)
    | none =>
      rw [hw] at h
      obtain rfl := Except.ok.inj h
      exact hbrought

theorem staysWithin_deleteLeftOver (h : deleteLeftOver progress w = .ok next) :
    StaysWithin progress next := by
  unfold deleteLeftOver at h
  split at h
  · obtain rfl := Except.ok.inj h
    exact .refl _
  · obtain ⟨source, -, h⟩ := bind_eq_ok.1 h
    split at h
    · obtain rfl := Except.ok.inj h
      exact .note _ _ rfl
    · cases h

theorem edits_of_arrive {report : Report} (h : task.arrive progress report = .ok next) :
    ∃ edit, edit.arrives = true ∧ edit.justification? = report.justification ∧
      next.edits = progress.edits ++ [edit] := by
  unfold arrive at h
  dsimp only at h
  split at h
  · cases h
  · split at h
    · cases h
    · obtain rfl := Except.ok.inj h
      exact ⟨_, rfl, rfl, rfl⟩

/-- The arrivals are noted in the order of their reports. -/
theorem edits_of_arrivals {reports : List Report}
    (h : reports.foldlM task.arrive progress = .ok next) :
    ∃ arrivals, next.edits = progress.edits ++ arrivals ∧ (∀ e ∈ arrivals, e.arrives = true) ∧
      arrivals.map Edit.justification? = reports.map Report.justification := by
  induction reports generalizing progress with
  | nil =>
    obtain rfl := Except.ok.inj h
    exact ⟨[], (List.append_nil _).symm, fun _ he => absurd he List.not_mem_nil, rfl⟩
  | cons report reports ih =>
    obtain ⟨arrived, harrive, h⟩ := bind_eq_ok.1 h
    obtain ⟨edit, hedit, hjustified, hnoted⟩ := edits_of_arrive harrive
    obtain ⟨arrivals, hedits, harrivals, hall⟩ := ih h
    refine ⟨edit :: arrivals, ?_, List.forall_mem_cons.2 ⟨hedit, harrivals⟩, ?_⟩
    · rw [hedits, hnoted, List.append_assoc, List.singleton_append]
    · rw [List.map_cons, List.map_cons, hjustified, hall]

/-- **The phases of a script.** -/
theorem phases_of_edits {edits : List Edit} (h : task.edits = .ok edits) :
    ∃ within arrivals, edits = task.sourceSide.transferred.map departure ++ within ++ arrivals ∧
      (∀ e ∈ within, e.crosses = false) ∧ (∀ e ∈ arrivals, e.arrives = true) ∧
      arrivals.map Edit.justification? = task.targetSide.transferred.map Report.justification := by
  unfold Task.edits at h
  obtain ⟨visited, hvisit, h⟩ := bind_eq_ok.1 h
  obtain ⟨reduced, hreduce, h⟩ := bind_eq_ok.1 h
  obtain ⟨complete, hcomplete, h⟩ := bind_eq_ok.1 h
  obtain rfl := Except.ok.inj h
  obtain ⟨more, hmore, hwithin⟩ :=
    (StaysWithin.foldlM (fun _ _ _ _ hstep => staysWithin_visit hstep) hvisit).trans
      (StaysWithin.foldlM (fun _ _ _ _ hstep => staysWithin_deleteLeftOver hstep) hreduce)
  obtain ⟨arrivals, harrivals, hall⟩ := edits_of_arrivals hcomplete
  refine ⟨task.bare.map .delete ++ more, arrivals, ?_, ?_, hall⟩
  · rw [harrivals, hmore, edits_clear, List.append_assoc _ _ more]
  · refine List.forall_mem_append.2 ⟨fun e he => ?_, hwithin⟩
    obtain ⟨s, -, rfl⟩ := List.mem_map.1 he
    rfl

/-! ### The places of departures and arrivals -/

/-- What is sorted by justification stands together. -/
theorem together_of_sorted {sort : Edit → Bool} {edits : List Edit} {j : Nat}
    (hsort : ∀ e ∈ edits, sort e = true ↔ e.justification? = some j)
    (hsorted : edits.Pairwise fun e e' => turnOf e.justification? ≤ turnOf e'.justification?) :
    Action.Together sort edits := by
  intro a b c habc ha hc
  have hmem := habc.subset
  obtain ⟨⟨hab, -⟩, hbc⟩ : (turnOf a.justification? ≤ turnOf b.justification? ∧
      turnOf a.justification? ≤ turnOf c.justification?) ∧
      turnOf b.justification? ≤ turnOf c.justification? := by
    simpa using hsorted.sublist habc
  rw [turnOf_eq_iff.2 ((hsort a (hmem (by simp))).1 ha)] at hab
  rw [turnOf_eq_iff.2 ((hsort c (hmem (by simp))).1 hc)] at hbc
  exact (hsort b (hmem (by simp))).2 (turnOf_eq_iff.1 (le_antisymm hbc hab))

/-- The departures that one refactoring explains stand together. -/
theorem together_departsBy {edits : List Edit} (h : task.edits = .ok edits) (j : Nat) :
    Action.Together (Edit.departsBy j) edits := by
  obtain ⟨within, arrivals, rfl, hwithin, harrivals, -⟩ := phases_of_edits h
  have hsorted :
      Action.Together (Edit.departsBy j) (task.sourceSide.transferred.map departure) := by
    refine together_of_sorted (j := j) (fun e he => ?_)
      (List.pairwise_map.2 task.sourceSide.pairwise_transferred)
    obtain ⟨report, -, rfl⟩ := List.mem_map.1 he
    exact beq_iff_eq
  exact (hsorted.append_right fun e he =>
    Edit.not_departsBy_of_within (hwithin e he) j).append_right
    fun e he => Edit.not_departsBy_of_arrives (harrivals e he) j

/-- The arrivals that one refactoring explains stand together. -/
theorem together_arrivesBy {edits : List Edit} (h : task.edits = .ok edits) (j : Nat) :
    Action.Together (Edit.arrivesBy j) edits := by
  obtain ⟨within, arrivals, rfl, hwithin, harrivals, hjustified⟩ := phases_of_edits h
  have hsorted : Action.Together (Edit.arrivesBy j) arrivals := by
    refine together_of_sorted (fun e he => Edit.arrivesBy_iff_of_arrives (harrivals e he) j) ?_
    have hreports : (task.targetSide.transferred.map Report.justification).Pairwise
        fun a b => turnOf a ≤ turnOf b := List.pairwise_map.2 task.targetSide.pairwise_transferred
    rwa [← hjustified, List.pairwise_map] at hreports
  refine hsorted.append_left fun e he => ?_
  rcases List.mem_append.1 he with he | he
  · obtain ⟨report, -, rfl⟩ := List.mem_map.1 he
    rfl
  · exact Edit.not_arrivesBy_of_within (hwithin e he) j

end Task

/-- **Grouping changes nothing but structure.**  For every list of edits, the groups unpack to the
list in its order; every group has at least two members, all of them cross-file moves with one
justification; neighbours in the result hold no moves with a common justification; grouping again
changes nothing; and for all trees, mappings and roots the result replays as the list does, with the
same failure if there is one.  In a script that could be made, the departures that one refactoring
explains are all in one place, and so are the arrivals. -/
theorem grouping_changes_structure_only :
    (∀ edits : List Edit,
      let grouped := Action.group (edits.map .edit)
      Action.editsAll grouped = edits ∧
      (∀ members, .multi members ∈ grouped → 2 ≤ members.length ∧
        ∃ j, ∀ member ∈ members, ∃ e, member = .edit e ∧
          (e.departsBy j = true ∨ e.arrivesBy j = true)) ∧
      (grouped.IsChain fun x y => ∀ j, ¬(x.Carries j ∧ y.Carries j)) ∧
      Action.group grouped = grouped ∧
      ∀ source target mapping sourceRoot targetRoot,
        replay source target mapping sourceRoot targetRoot grouped =
          replay source target mapping sourceRoot targetRoot (edits.map .edit)) ∧
    ∀ (task : Task) (actions : List Action), task.script = .ok actions → ∀ j,
      actions.countP (Action.holds (Edit.departsBy j)) ≤ 1 ∧
        actions.countP (Action.holds (Edit.arrivesBy j)) ≤ 1 := by
  refine ⟨fun edits => ⟨Action.editsAll_group edits, fun members hmembers => ?_,
    Action.isChain_group edits, Action.group_group edits,
    fun source target mapping sourceRoot targetRoot => ?_⟩, fun task actions hscript j => ?_⟩
  · obtain ⟨hlength, j, hall⟩ := Action.members_of_mem_group hmembers
    refine ⟨hlength, j, fun member hmember => ?_⟩
    obtain ⟨e, rfl, hj⟩ := hall member hmember
    exact ⟨e, rfl, Edit.justification?_eq_some.1 hj⟩
  · rw [replay, replay, Draft.performAll_eq, Draft.performAll_eq, Action.editsAll_group,
      Action.editsAll_map]
  · obtain ⟨edits, hedits, hactions⟩ := bind_eq_ok.1 hscript
    obtain rfl := Except.ok.inj hactions
    exact ⟨Action.countP_group_le_one (fun e he => Edit.justification?_eq_some.2 (.inl he))
        (Task.together_departsBy hedits j),
      Action.countP_group_le_one (fun e he => Edit.justification?_eq_some.2 (.inr he))
        (Task.together_arrivesBy hedits j)⟩

/-- One refactoring explains two departures and two arrivals.  Another departure comes before the
former, and an insertion parts the latter in the target tree. -/
theorem grouping_changes_structure_only_parted :
    let task : Task :=
      { source := .ofNodes default "" #[{ kind := "a" }, { kind := "b", parent := some 0 },
          { kind := "c", parent := some 0 }, { kind := "d", parent := some 0 }]
        target := .ofNodes default "" #[{ kind := "a" }, { kind := "e", parent := some 0 },
          { kind := "f", parent := some 0 }, { kind := "g", parent := some 0 }]
        mapping := Mapping.empty.insert 0 0
        movedOut := [⟨1, default, some 3⟩, ⟨2, default, some 1⟩, ⟨3, default, some 3⟩]
        movedIn := [⟨1, default, some 3⟩, ⟨3, default, some 3⟩] }
    let leaving : List Edit := [.moveOut 1 default (some 3), .moveOut 3 default (some 3)]
    let arriving : List Edit :=
      [.moveIn 1 (some 0) 0 default (some 3), .moveIn 3 (some 0) 2 default (some 3)]
    let actions : List Action := [.edit (.moveOut 2 default (some 1)), .multi (leaving.map .edit),
      .edit (.insert 2 (some 0) 0), .multi (arriving.map .edit)]
    task.script = .ok actions ∧
      actions.countP (Action.holds (Edit.departsBy 3)) ≤ 1 ∧
      actions.countP (Action.holds (Edit.arrivesBy 3)) ≤ 1 ∧
      .multi (leaving.map .edit) ∈ Action.group (leaving.map .edit) ∧
      2 ≤ (leaving.map Action.edit).length := by
  intro task leaving arriving actions
  have hscript : task.script = .ok actions := by cbv
  have hmulti : .multi (leaving.map .edit) ∈ Action.group (leaving.map .edit) :=
    List.mem_singleton_self _
  obtain ⟨hgroup, hplaces⟩ := grouping_changes_structure_only
  obtain ⟨hdepart, harrive⟩ := hplaces task actions hscript 3
  obtain ⟨-, hmembers, -⟩ := hgroup leaving
  exact ⟨hscript, hdepart, harrive, hmulti, (hmembers _ hmulti).1⟩

end Script

end Reshape
