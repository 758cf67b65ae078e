import Mathlib
import Reshape.Proofs.Script.RoundTrip

/-! # Grouping cross-file moves

Grouping cuts a list of actions into its longest runs of neighbouring cross-file moves with one
justification and packs every run of at least two moves.  So the groups can be unpacked again, what
stands next to each other in the result has no justification in common, and there is nothing left to
group.

Where the moves that one refactoring explains stand together in the list, they end up in one place
of the result: otherwise the action behind the first such place would either belong to the same run
or stand between two of the moves. -/

namespace Reshape

namespace Edit

/-- Whether an edit is a departure that a refactoring explains. -/
def departsBy (j : Nat) : Edit → Bool
  | .moveOut _ _ justification => justification == some j
  | _ => false

/-- Whether an edit is an arrival that a refactoring explains. -/
def arrivesBy (j : Nat) : Edit → Bool
  | .moveIn _ _ _ _ justification => justification == some j
  | _ => false

theorem justification?_eq_some {e : Edit} {j : Nat} :
    e.justification? = some j ↔ e.departsBy j = true ∨ e.arrivesBy j = true := by
  cases e <;> simp [justification?, departsBy, arrivesBy]

end Edit

namespace Action

variable {actions run rest items : List Action} {x y : Action} {edits : List Edit} {j : Nat}

/-! ### Runs -/

/-- Whether two actions are cross-file moves with one justification. -/
def sameCause (x y : Action) : Bool :=
  x.justification?.isSome && x.justification? == y.justification?

theorem sameCause_iff : x.sameCause y = true ↔
    ∃ j, x.justification? = some j ∧ y.justification? = some j := by
  rw [sameCause, Bool.and_eq_true, beq_iff_eq, Option.isSome_iff_exists]
  constructor
  · rintro ⟨⟨j, hj⟩, heq⟩
    exact ⟨j, hj, heq ▸ hj⟩
  · rintro ⟨j, hx, hy⟩
    exact ⟨⟨j, hx⟩, hx.trans hy.symm⟩

/-- What a run becomes: one action stands for itself. -/
def ofRun : List Action → Action
  | [action] => action
  | run => .multi run

theorem edits_ofRun (run : List Action) : (ofRun run).edits = editsAll run := by
  match run with
  | [] => rfl
  | [action] => exact (editsAll_singleton action).symm
  | _ :: _ :: _ => rfl

/-- A run is not cut. -/
theorem map_splitBy_run (hrun : run.IsChain fun x y => x.sameCause y = true) :
    (run.splitBy sameCause).map ofRun = closeRun run := by
  match run with
  | [] => rfl
  | [_] => rfl
  | _ :: _ :: _ =>
    rw [List.splitBy_of_isChain (List.cons_ne_nil _ _) hrun]
    rfl

/-- The run that is open belongs to the list that is cut. -/
theorem groupFrom_eq (hrun : run.IsChain fun x y => x.sameCause y = true) :
    groupFrom run rest = ((run ++ rest).splitBy sameCause).map ofRun := by
  induction rest generalizing run with
  | nil => rw [groupFrom, List.append_nil, map_splitBy_run hrun]
  | cons action rest ih =>
    -- A run that does not go on is closed.
    have hclosed : (∀ x ∈ run.getLast?, x.sameCause action = false) →
        ((run ++ action :: rest).splitBy sameCause).map ofRun =
          closeRun run ++ ((action :: rest).splitBy sameCause).map ofRun := by
      intro hlast
      rw [List.splitBy_append_cons rest hlast, List.map_append, map_splitBy_run hrun]
    rw [groupFrom]
    split
    · rename_i hnone
      have hfalse : ∀ x, x.sameCause action = false ∧ action.sameCause x = false := by
        intro x
        simp [← Bool.not_eq_true, sameCause_iff, hnone]
      have halone : (action :: rest).splitBy sameCause = [action] :: rest.splitBy sameCause := by
        refine List.splitBy_append (l := [action]) fun x hx y _ => ?_
        obtain rfl : action = x := by simpa using hx
        exact (hfalse y).2
      rw [hclosed fun x _ => (hfalse x).1, ih List.isChain_nil, halone]
      rfl
    · rename_i justification hsome
      split
      · rename_i hlast
        have hnext : (run ++ [action]).IsChain fun x y => x.sameCause y = true := by
          refine List.isChain_append.2 ⟨hrun, List.isChain_singleton _, fun x hx y hy => ?_⟩
          obtain rfl : action = y := by simpa using hy
          rw [Option.mem_def.1 hx] at hlast
          exact sameCause_iff.2 ⟨justification, hlast, hsome⟩
        rw [ih hnext, List.append_assoc, List.singleton_append]
      · rename_i hlast
        have hstop : ∀ x ∈ run.getLast?, x.sameCause action = false := by
          intro x hx
          rw [← Bool.not_eq_true, sameCause_iff]
          rintro ⟨j, hxj, hj⟩
          rw [Option.mem_def.1 hx] at hlast
          exact hlast (hxj.trans (hj.symm.trans hsome))
        rw [hclosed hstop, ih (List.isChain_singleton action)]
        rfl

/-- **Grouping packs the runs.** -/
theorem group_eq (actions : List Action) :
    group actions = (actions.splitBy sameCause).map ofRun :=
  groupFrom_eq List.isChain_nil

/-- What is next to each other has no cause in common, so there is nothing to group. -/
theorem group_eq_self (h : actions.IsChain fun x y => x.sameCause y = false) :
    group actions = actions := by
  have hcut : actions.splitBy sameCause = actions.map fun action => [action] := by
    refine List.splitBy_eq_iff.2 ⟨(List.flatMap_singleton' actions).symm, by simp, ?_, ?_⟩
    · intro run hrun
      obtain ⟨action, -, rfl⟩ := List.mem_map.1 hrun
      exact List.isChain_singleton action
    · refine (List.isChain_map _).2 (h.imp fun x y hxy => ?_)
      exact ⟨List.cons_ne_nil _ _, List.cons_ne_nil _ _, hxy⟩
  rw [group_eq, hcut, List.map_map]
  exact List.map_id _

/-! ### What groups hold -/

/-- Whether an action holds a cross-file move that a refactoring explains. -/
def Carries (x : Action) (j : Nat) : Prop :=
  ∃ e ∈ x.edits, e.justification? = some j

/-- A run starts with the cause of all its members. -/
theorem justification?_of_run (hrun : (x :: run).IsChain fun x y => x.sameCause y = true)
    (hy : y ∈ run) : y.justification? = x.justification? ∧ x.justification?.isSome = true := by
  induction run generalizing x with
  | nil => cases hy
  | cons first run ih =>
    obtain ⟨hsame, hrest⟩ := List.isChain_cons_cons.1 hrun
    obtain ⟨j, hx, hfirst⟩ := sameCause_iff.1 hsame
    rw [hx]
    refine ⟨?_, rfl⟩
    rcases List.mem_cons.1 hy with rfl | hy
    · exact hfirst
    · exact (ih hrest hy).1.trans hfirst

theorem mem_editsAll {e : Edit} : e ∈ editsAll actions ↔ ∃ x ∈ actions, e ∈ x.edits := by
  induction actions with
  | nil => simp [editsAll]
  | cons action actions ih => simp [editsAll, ih]

/-- The runs of a list of edits. -/
structure IsRun (edits : List Edit) (run : List Action) : Prop where
  ne_nil : run ≠ []
  isChain : run.IsChain fun x y => x.sameCause y = true
  single : ∀ x ∈ run, ∃ e ∈ edits, x = .edit e

theorem isRun_of_mem (h : run ∈ (edits.map .edit).splitBy sameCause) : IsRun edits run where
  ne_nil := List.ne_nil_of_mem_splitBy h
  isChain := List.isChain_of_mem_splitBy h
  single := by
    intro x hx
    have hmem : x ∈ edits.map .edit := by
      rw [← List.flatten_splitBy sameCause (edits.map .edit)]
      exact List.mem_flatten.2 ⟨run, h, hx⟩
    obtain ⟨e, he, rfl⟩ := List.mem_map.1 hmem
    exact ⟨e, he, rfl⟩

namespace IsRun

/-- All members of a run have the cause that one of them has. -/
theorem justification?_eq (h : IsRun edits run) (hx : x ∈ run) (hj : x.justification? = some j)
    (hy : y ∈ run) : y.justification? = some j := by
  cases run with
  | nil => cases hx
  | cons first run =>
    have hfirst : ∀ z ∈ first :: run, z.justification? = first.justification? := by
      intro z hz
      rcases List.mem_cons.1 hz with rfl | hz
      · rfl
      · exact (justification?_of_run h.isChain hz).1
    rw [hfirst y hy, ← hfirst x hx, hj]

theorem justification?_of_carries (h : IsRun edits run) (hj : (ofRun run).Carries j)
    (hy : y ∈ run) : y.justification? = some j := by
  obtain ⟨e, he, hej⟩ := hj
  rw [edits_ofRun, mem_editsAll] at he
  obtain ⟨x, hx, he⟩ := he
  obtain ⟨e', -, rfl⟩ := h.single x hx
  obtain rfl : e = e' := List.mem_singleton.1 he
  exact h.justification?_eq hx hej hy

/-- A run that is packed has at least two members, and they have one cause. -/
theorem of_multi (h : IsRun edits run) {members : List Action}
    (hmulti : ofRun run = .multi members) :
    members = run ∧ 2 ≤ run.length ∧ ∃ j, ∀ x ∈ run, x.justification? = some j := by
  match run, h, hmulti with
  | [], h, _ => exact absurd rfl h.ne_nil
  | [x], h, hmulti =>
    obtain ⟨e, -, rfl⟩ := h.single x (List.mem_singleton_self x)
    cases hmulti
  | first :: second :: more, h, hmulti =>
    obtain rfl := Action.multi.inj hmulti
    obtain ⟨-, hsome⟩ := justification?_of_run h.isChain (List.mem_cons_self (a := second))
    obtain ⟨j, hj⟩ := Option.isSome_iff_exists.1 hsome
    exact ⟨rfl, by simp, j, fun x hx => h.justification?_eq (List.mem_cons_self ..) hj hx⟩

end IsRun

/-- **Groups** have at least two members, all of them cross-file moves with one justification. -/
theorem members_of_mem_group {members : List Action}
    (h : .multi members ∈ group (edits.map .edit)) : 2 ≤ members.length ∧
      ∃ j, ∀ member ∈ members, ∃ e, member = .edit e ∧ e.justification? = some j := by
  rw [group_eq] at h
  obtain ⟨run, hmem, hmulti⟩ := List.mem_map.1 h
  have hrun := isRun_of_mem hmem
  obtain ⟨rfl, hlength, j, hj⟩ := hrun.of_multi hmulti
  refine ⟨hlength, j, fun member hmember => ?_⟩
  obtain ⟨e, -, rfl⟩ := hrun.single member hmember
  exact ⟨e, rfl, hj _ hmember⟩

/-- **Neighbours** in the result hold no moves with a common justification. -/
theorem isChain_group (edits : List Edit) :
    (group (edits.map .edit)).IsChain fun x y => ∀ j, ¬(x.Carries j ∧ y.Carries j) := by
  rw [group_eq, List.isChain_map]
  refine (List.isChain_getLast_head_splitBy _ _).imp_of_mem_imp fun run next hrun hnext hcut j => ?_
  rintro ⟨hj, hj'⟩
  obtain ⟨hne, hne', hcut⟩ := hcut
  have hlast := (isRun_of_mem hrun).justification?_of_carries hj (List.getLast_mem hne)
  have hhead := (isRun_of_mem hnext).justification?_of_carries hj' (List.head_mem hne')
  rw [sameCause_iff.2 ⟨j, hlast, hhead⟩] at hcut
  cases hcut

theorem carries_of_justification? (h : x.justification? = some j) : x.Carries j := by
  cases x with
  | edit e => exact ⟨e, List.mem_singleton_self e, h⟩
  | multi members => cases h

theorem group_group (edits : List Edit) :
    group (group (edits.map .edit)) = group (edits.map .edit) := by
  refine group_eq_self ((isChain_group edits).imp fun x y hxy => ?_)
  rw [← Bool.not_eq_true, sameCause_iff]
  rintro ⟨j, hx, hy⟩
  exact hxy j ⟨carries_of_justification? hx, carries_of_justification? hy⟩

/-! ### Moves that stand together -/

/-- Whether an action holds an edit of a sort. -/
def holds (sort : Edit → Bool) (x : Action) : Bool :=
  x.edits.any sort

/-- What is between two edits of one sort is of that sort. -/
def Together (sort : Edit → Bool) (edits : List Edit) : Prop :=
  ∀ a b c, [a, b, c].Sublist edits → sort a = true → sort c = true → sort b = true

theorem Together.sublist {sort : Edit → Bool} {more : List Edit} (h : Together sort edits)
    (hmore : more.Sublist edits) : Together sort more :=
  fun a b c habc => h a b c (habc.trans hmore)

theorem Together.append_left {sort : Edit → Bool} {more : List Edit}
    (hmore : ∀ e ∈ more, sort e = false) (h : Together sort edits) :
    Together sort (more ++ edits) := by
  intro a b c habc ha hc
  obtain ⟨left, right, heq, hleft, hright⟩ := List.sublist_append_iff.1 habc
  cases left with
  | nil =>
    obtain rfl : [a, b, c] = right := heq
    exact h a b c hright ha hc
  | cons first left =>
    obtain ⟨rfl, -⟩ := List.cons.inj heq
    rw [hmore a (hleft.subset (List.mem_cons_self ..))] at ha
    cases ha

theorem Together.append_right {sort : Edit → Bool} {more : List Edit}
    (hmore : ∀ e ∈ more, sort e = false) (h : Together sort edits) :
    Together sort (edits ++ more) := by
  intro a b c habc ha hc
  obtain ⟨left, right, heq, hleft, hright⟩ := List.sublist_append_iff.1 habc
  rcases right.eq_nil_or_concat with rfl | ⟨init, last, rfl⟩
  · obtain rfl : [a, b, c] = left := by simpa using heq
    exact h a b c hleft ha hc
  · have hlast : c = last := by
      have hends := congrArg List.getLast? heq
      simpa using hends
    rw [hmore c (hright.subset (by simp [hlast]))] at hc
    cases hc

theorem countP_le_one {sort : Edit → Bool}
    (hchain : items.IsChain fun x y => ¬(x.holds sort = true ∧ y.holds sort = true))
    (hne : ∀ x ∈ items, x.edits ≠ []) (htogether : Together sort (editsAll items)) :
    items.countP (holds sort) ≤ 1 := by
  induction items with
  | nil => exact Nat.zero_le _
  | cons x rest ih =>
    by_cases hx : x.holds sort = true
    · have hnone : rest.countP (holds sort) = 0 := by
        cases rest with
        | nil => rfl
        | cons next rest =>
          have hnext : ¬next.holds sort = true := fun h =>
            (List.isChain_cons_cons.1 hchain).1 ⟨hx, h⟩
          refine List.countP_eq_zero.2 fun y hy hholds => ?_
          rcases List.mem_cons.1 hy with rfl | hy
          · exact hnext hholds
          -- An edit of the next item would stand between two edits of the sort.
          obtain ⟨a, ha, hsorta⟩ := List.any_eq_true.1 hx
          obtain ⟨c, hc, hsortc⟩ := List.any_eq_true.1 hholds
          obtain ⟨b, hb⟩ := List.exists_mem_of_ne_nil _ (hne next (by simp))
          have habc : [a, b, c].Sublist (editsAll (x :: next :: rest)) :=
            (List.singleton_sublist.2 ha).append ((List.singleton_sublist.2 hb).append
              (List.singleton_sublist.2 (mem_editsAll.2 ⟨y, hy, hc⟩)))
          exact hnext (List.any_eq_true.2 ⟨b, hb, htogether a b c habc hsorta hsortc⟩)
      rw [List.countP_cons_of_pos hx, hnone]
    · rw [List.countP_cons_of_neg hx]
      exact ih hchain.tail (fun y hy => hne y (List.mem_cons_of_mem _ hy))
        (htogether.sublist (List.sublist_append_right ..))

/-- **Moves that stand together** and have one justification end up in one place. -/
theorem countP_group_le_one {sort : Edit → Bool}
    (hsort : ∀ e, sort e = true → e.justification? = some j) (htogether : Together sort edits) :
    (group (edits.map .edit)).countP (holds sort) ≤ 1 := by
  have hcarries : ∀ x : Action, x.holds sort = true → x.Carries j := by
    intro x hx
    obtain ⟨e, he, hsorte⟩ := List.any_eq_true.1 hx
    exact ⟨e, he, hsort e hsorte⟩
  refine countP_le_one ((isChain_group edits).imp fun x y hxy => ?_) ?_ ?_
  · exact fun h => hxy j ⟨hcarries x h.1, hcarries y h.2⟩
  · intro x hx
    rw [group_eq] at hx
    obtain ⟨run, hmem, rfl⟩ := List.mem_map.1 hx
    have hrun := isRun_of_mem hmem
    obtain ⟨first, hfirst⟩ := List.exists_mem_of_ne_nil run hrun.ne_nil
    obtain ⟨e, -, rfl⟩ := hrun.single first hfirst
    rw [edits_ofRun]
    exact List.ne_nil_of_mem (mem_editsAll.2 ⟨_, hfirst, List.mem_singleton_self e⟩)
  · rw [editsAll_group]
    exact htogether

end Action

end Reshape
