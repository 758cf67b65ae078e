import Mathlib
import Reshape.Script.Build
import Reshape.Proofs.Loop
import Reshape.Proofs.Script.WorkTree

/-! # The steps of a script in the making

While a script is made, its steps change the draft by themselves and note an edit.  What they do is
what the replay of the edit does, if the places that the edit names are those the step has at hand:
the copy of the source node it speaks of, and what stands for the parent.  So a step can be taken
for the edit that it notes, and all that is shown of edits is shown of the script in the making.

The first phase takes subtrees away in another order than it notes them.  The order does not matter,
since taking one node away does not touch the place of another one.  It also deletes without a look
at the children, which the replay refuses to do for a node that has some. -/

namespace Reshape.Script

namespace Progress

@[simp]
theorem draft_note (progress : Progress) (draft : Draft) (edit : Edit) :
    (progress.note draft edit).draft = draft := rfl

@[simp]
theorem edits_note (progress : Progress) (draft : Draft) (edit : Edit) :
    (progress.note draft edit).edits = progress.edits ++ [edit] := rfl

/-- Perform an edit and note it. -/
def emit (target : Tree) (progress : Progress) (edit : Edit) : Except Violation Progress := do
  let draft ← progress.draft.apply target edit
  return progress.note draft edit

/-- Perform edits in order and note them. -/
def emitAll (target : Tree) (progress : Progress) (edits : List Edit) : Except Violation Progress :=
  edits.foldlM (emit target) progress

end Progress

theorem emit_eq_ok {target : Tree} {progress next : Progress} {edit : Edit} :
    progress.emit target edit = .ok next ↔ ∃ draft, progress.draft.apply target edit = .ok draft ∧
      next = progress.note draft edit := by
  rw [Progress.emit, bind_eq_ok]
  refine exists_congr fun draft => and_congr_right fun _ => ?_
  exact ⟨fun h => (Except.ok.inj h).symm, fun h => by rw [h]; rfl⟩

namespace Task

variable {task : Task} {draft : Draft} {progress next : Progress} {s t w z k : Nat}
  {parent : Option Nat}

/-! ### One node -/

theorem putUnder_eq_ok {draft' : Draft} :
    putUnder draft z k w = .ok draft' ↔ draft.attach z k w = .ok draft' := by
  rw [putUnder, Draft.attach]
  cases draft.work.attach? z k w <;> simp

/-- A step that places a node and one that performs an edit do the same if the draft is the same. -/
theorem note_eq_ok {edit : Edit} {f : Draft → Draft}
    (h : progress.draft.apply task.target edit = (draft.attach z k w).map f) :
    (putUnder draft z k w >>= fun placed => .ok (progress.note (f placed) edit)) = .ok next ↔
      progress.emit task.target edit = .ok next := by
  rw [emit_eq_ok, h, bind_eq_ok]
  simp only [putUnder_eq_ok, Except.ok.injEq]
  cases draft.attach z k w with
  | error violation => simp [Except.map]
  | ok placed => simp [Except.map, eq_comm]

theorem apply_insert_eq (hz : draft.place? parent = some z) :
    draft.apply task.target (.insert t parent k) =
      let work := draft.work.push { kind := task.target.kind t, label := task.target.label t }
      (Draft.attach { draft with work } z k draft.work.next).map
        fun placed => placed.link draft.work.next t := by
  simp only [Draft.apply, Draft.place, hz, ok_bind]
  rfl

theorem apply_move_eq (hcopy : draft.copies[s]? = some w) (hz : draft.place? parent = some z) :
    draft.apply task.target (.move s t parent k) =
      (Draft.attach { draft with work := draft.work.detach w } z k w).map id := by
  simp only [Draft.apply, Draft.copy, hcopy, Draft.place, hz, ok_bind, Except.map_id]
  rfl

/-- A node is created as the replay creates it. -/
theorem create_eq_ok (hz : progress.draft.place? (task.targetParent t) = some z) :
    task.create progress t z = .ok next ↔
      progress.emit task.target (.insert t (task.targetParent t)
        (task.findPosition progress.draft progress.inOrder t)) = .ok next :=
  note_eq_ok (apply_insert_eq hz)

/-- A node takes another label as in the replay. -/
theorem relabel_eq_emit (horigin : progress.draft.work.origin w = some s)
    (hcopy : progress.draft.copies[s]? = some w) :
    task.relabel progress t w =
      if progress.draft.work.label w == task.target.label t then .ok progress
      else progress.emit task.target (.update s t) := by
  rw [relabel]
  split
  · rfl
  · simp only [originOf, horigin, Progress.emit, Draft.apply, Draft.copy, hcopy, ok_bind]
    rfl

/-- A node takes another parent as in the replay. -/
theorem reparent_eq_ok (horigin : progress.draft.work.origin w = some s)
    (hcopy : progress.draft.copies[s]? = some w)
    (hz : progress.draft.place? (task.targetParent t) = some z)
    (hup : progress.draft.work.parent w ≠ some z) :
    task.reparent progress t w z = .ok next ↔
      progress.emit task.target (.move s t (task.targetParent t)
        (task.findPosition progress.draft progress.inOrder t)) = .ok next := by
  rw [reparent, if_neg (by simpa using hup), originOf, horigin, ok_bind]
  exact note_eq_ok (apply_move_eq hcopy hz)

/-- A child is moved among its siblings as in the replay. -/
theorem moveChild_eq_ok {child : Nat} (hchild : progress.draft.standIns[child]? = some w)
    (horigin : progress.draft.work.origin w = some s)
    (hcopy : progress.draft.copies[s]? = some w) (hz : progress.draft.standIns[t]? = some z) :
    task.moveChild t z progress child = .ok next ↔ ∃ moved,
      progress.emit task.target (.move s child (some t)
        (task.findPosition { progress.draft with work := progress.draft.work.detach w }
          progress.inOrder child)) = .ok moved ∧ moved.mark child = next := by
  have hplace : progress.draft.place? (some t) = some z := hz
  have hnote :
      ∀ moved k, (putUnder { progress.draft with work := progress.draft.work.detach w } z k w
        >>= fun placed => .ok (progress.note placed (.move s child (some t) k))) = .ok moved ↔
      progress.emit task.target (.move s child (some t) k) = .ok moved :=
    fun moved k => note_eq_ok (f := id) (apply_move_eq hcopy hplace)
  simp only [moveChild, hchild, originOf, horigin, ok_bind, ← hnote, bind_eq_ok]
  constructor
  · rintro ⟨placed, hplaced, hnext⟩
    exact ⟨_, ⟨placed, hplaced, rfl⟩, Except.ok.inj hnext⟩
  · rintro ⟨moved, ⟨placed, hplaced, hmoved⟩, rfl⟩
    exact ⟨placed, hplaced, by rw [← Except.ok.inj hmoved]; rfl⟩

/-- A node that is left over is deleted as in the replay, which refuses to delete one with
children. -/
theorem deleteLeftOver_eq_ok (hpartner : progress.draft.partners[w]? = none)
    (horigin : progress.draft.work.origin w = some s)
    (hcopy : progress.draft.copies[s]? = some w) :
    deleteLeftOver progress w = .ok next ↔ progress.emit task.target (.delete s) = .ok next := by
  have hcontains : ¬ progress.draft.partners.contains w = true := by
    simp [Std.TreeMap.contains_eq_isSome_getElem?, hpartner]
  rw [deleteLeftOver, if_neg hcontains, originOf, horigin, ok_bind]
  simp only [Progress.emit, Draft.apply, Draft.copy, hcopy, ok_bind]
  by_cases hleaf : (progress.draft.work.children w).isEmpty = true
  · rw [if_pos hleaf, if_pos hleaf]
    rfl
  · rw [if_neg hleaf, if_neg hleaf]
    exact iff_of_false (fun h => by cases h) fun h => by cases h

/-- A subtree arrives as in the replay. -/
theorem arrive_eq_ok {report : Report}
    (hz : progress.draft.place? (task.targetParent report.node) = some z) :
    task.arrive progress report = .ok next ↔
      progress.emit task.target (.moveIn report.node (task.targetParent report.node)
        ((task.leftSiblings report.node).filter progress.draft.standIns.contains).length
        report.file report.justification) = .ok next := by
  simp only [arrive, hz, Progress.emit, Draft.apply, Draft.place, ok_bind]
  cases progress.draft.graft? task.target report.node z _ with
  | none => exact iff_of_false (fun h => by cases h) fun h => by cases h
  | some draft => rfl

/-! ### Taking nodes away -/

theorem withoutCopy_of_none (h : draft.copies[s]? = none) : withoutCopy draft s = draft := by
  rw [withoutCopy, h]

theorem withoutCopy_of_some (h : draft.copies[s]? = some w) :
    withoutCopy draft s = { draft with work := draft.work.detach w } := by
  rw [withoutCopy, h]

theorem copies_withoutCopy (draft : Draft) (s : Nat) :
    (withoutCopy draft s).copies = draft.copies := by
  rw [withoutCopy]
  split <;> rfl

theorem withoutCopy_comm (draft : Draft) (a b : Nat) :
    withoutCopy (withoutCopy draft a) b = withoutCopy (withoutCopy draft b) a := by
  cases ha : draft.copies[a]? with
  | none =>
    have ha' : (withoutCopy draft b).copies[a]? = none := by rw [copies_withoutCopy, ha]
    rw [withoutCopy_of_none ha, withoutCopy_of_none ha']
  | some v =>
    have ha' : (withoutCopy draft b).copies[a]? = some v := by rw [copies_withoutCopy, ha]
    rw [withoutCopy_of_some ha']
    cases hb : draft.copies[b]? with
    | none =>
      have hb' : (withoutCopy draft a).copies[b]? = none := by rw [copies_withoutCopy, hb]
      rw [withoutCopy_of_none hb', withoutCopy_of_none hb, withoutCopy_of_some ha]
    | some w =>
      have hb' : (withoutCopy draft a).copies[b]? = some w := by rw [copies_withoutCopy, hb]
      rw [withoutCopy_of_some hb', withoutCopy_of_some hb, withoutCopy_of_some ha]
      simp only [WorkTree.detach_comm draft.work v w]

theorem emit_departure {report : Report}
    (h : progress.emit task.target (departure report) = .ok next) :
    next = progress.note (withoutCopy progress.draft report.node) (departure report) := by
  obtain ⟨draft, happly, rfl⟩ := emit_eq_ok.1 h
  rw [withoutCopy]
  rw [departure, Draft.apply, Draft.copy] at happly
  cases hcopy : progress.draft.copies[report.node]? with
  | none =>
    rw [hcopy] at happly
    cases happly
  | some w =>
    rw [hcopy] at happly
    rw [← Except.ok.inj happly]

theorem emit_delete (h : progress.emit task.target (.delete s) = .ok next) :
    next = discard progress s := by
  obtain ⟨draft, happly, rfl⟩ := emit_eq_ok.1 h
  rw [discard, withoutCopy]
  rw [Draft.apply, Draft.copy] at happly
  cases hcopy : progress.draft.copies[s]? with
  | none =>
    rw [hcopy] at happly
    cases happly
  | some w =>
    rw [hcopy, ok_bind] at happly
    split at happly
    · rw [← Except.ok.inj happly]
    · cases happly

/-- Departures that are performed one after the other take the subtrees away. -/
theorem emitAll_departures {reports : List Report}
    (h : progress.emitAll task.target (reports.map departure) = .ok next) :
    next = { progress with
      draft := reports.foldl (fun draft report => withoutCopy draft report.node) progress.draft
      edits := progress.edits ++ reports.map departure } := by
  induction reports generalizing progress with
  | nil =>
    obtain rfl := Except.ok.inj h
    simp
  | cons report reports ih =>
    obtain ⟨middle, hmiddle, h⟩ := bind_eq_ok.1 h
    obtain rfl := emit_departure hmiddle
    rw [ih h]
    simp [Progress.note]

/-- Deletions that are performed one after the other take the nodes away. -/
theorem emitAll_deletions {ids : List Nat}
    (h : progress.emitAll task.target (ids.map .delete) = .ok next) :
    next = ids.foldl discard progress := by
  induction ids generalizing progress with
  | nil => exact (Except.ok.inj h).symm
  | cons id ids ih =>
    obtain ⟨middle, hmiddle, h⟩ := bind_eq_ok.1 h
    obtain rfl := emit_delete hmiddle
    exact ih h

/-- The first phase takes away what its edits take away, whatever their order. -/
theorem clear_eq {departed : Progress}
    (hdepart : Progress.emitAll task.target { draft := task.start }
      (task.sourceSide.transferred.map departure) = .ok departed)
    (hdelete : departed.emitAll task.target
      (((task.source.postorder task.sourceRoot).filter fun s =>
        task.sourceSide.unmapped s && !task.sourceSide.carried s).map .delete) = .ok next) :
    task.clear = next := by
  have horder : task.sourceSide.reported.foldl (fun draft report => withoutCopy draft report.node)
        task.start =
      task.sourceSide.transferred.foldl (fun draft report => withoutCopy draft report.node)
        task.start :=
    (List.mergeSort_perm _ _).symm.foldl_eq'
      (fun a _ b _ draft => withoutCopy_comm draft a.node b.node) task.start
  have hdeparted : task.departed task.sourceSide = departed := by
    rw [emitAll_departures hdepart, Task.departed, horder, List.nil_append]
  rw [emitAll_deletions hdelete, ← hdeparted]
  rfl

end Task

end Reshape.Script
