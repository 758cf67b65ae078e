import Mathlib
import Reshape.Proofs.Tree
import Reshape.Script.Transfer

/-! # The largest subtrees that move between files

A node is carried by a move between files if a node on its way up is reported and has an unmapped
subtree.  The subtrees that are taken up are the largest of these: every carried node belongs to
exactly one of them, and no other node belongs to any. -/

namespace Reshape.ScriptSide

variable {side : ScriptSide} {id a c p : Nat}

theorem unmapped_iff : side.unmapped id = true ↔
    ∀ x, side.tree.Within id x → side.mapped x = false := by
  simp only [unmapped, List.all_eq_true, Bool.not_eq_true', side.tree.mem_preorder]

theorem unmapped_of_within (h : side.unmapped a = true) (hid : side.tree.Within a id) :
    side.unmapped id = true :=
  unmapped_iff.2 fun x hx => unmapped_iff.1 h x (hx.trans hid)

theorem unmapped_of_transfers (h : side.transfers id = true) : side.unmapped id = true := by
  rw [transfers, Bool.and_eq_true] at h
  exact h.2

theorem mem_ancestorsWithin : a ∈ side.ancestorsWithin id ↔
    (∃ q, side.tree.parent id = some q ∧ side.tree.Within a q) ∧ side.tree.Within side.root a := by
  rw [ancestorsWithin, List.mem_filter, side.tree.mem_ancestors, side.tree.isAncestorOrSelf_iff]

/-- A node is carried if a node on its way up to the root of the side is transferred. -/
theorem carried_iff (hid : side.tree.Within side.root id) : side.carried id = true ↔
    ∃ a, side.tree.Within side.root a ∧ side.tree.Within a id ∧ side.transfers a = true := by
  simp only [carried, List.any_eq_true, List.mem_cons, mem_ancestorsWithin]
  constructor
  · rintro ⟨a, rfl | ⟨⟨q, hq, ha⟩, hroot⟩, ht⟩
    · exact ⟨a, hid, Leads.refl _, ht⟩
    · exact ⟨a, hroot, Leads.step hq ha, ht⟩
  · rintro ⟨a, hroot, ha, ht⟩
    rcases ha.eq_or_step with rfl | ⟨q, hq, ha⟩
    · exact ⟨id, Or.inl rfl, ht⟩
    · exact ⟨a, Or.inr ⟨⟨q, hq, ha⟩, hroot⟩, ht⟩

theorem carried_of_parent (hp : side.tree.Within side.root p) (hc : side.tree.parent c = some p)
    (h : side.carried p = true) : side.carried c = true := by
  obtain ⟨a, hroot, ha, ht⟩ := (carried_iff hp).1 h
  exact (carried_iff (Leads.step hc hp)).2 ⟨a, hroot, Leads.step hc ha, ht⟩

theorem unmapped_of_carried (hid : side.tree.Within side.root id) (h : side.carried id = true) :
    side.unmapped id = true := by
  obtain ⟨a, -, ha, ht⟩ := (carried_iff hid).1 h
  exact unmapped_of_within (unmapped_of_transfers ht) ha

/-- The subtree at a node is taken up: it is transferred and not part of a larger one that is. -/
def TakenUp (side : ScriptSide) (id : Nat) : Prop :=
  side.tree.Within side.root id ∧ side.transfers id = true ∧
    ∀ a, a ∈ side.ancestorsWithin id → side.transfers a = false

theorem transferred_nodes_perm (side : ScriptSide) : (side.transferred.map Report.node).Perm
    ((side.tree.preorder side.root).filter fun id =>
      side.transfers id && !(side.ancestorsWithin id).any side.transfers) := by
  refine ((List.mergeSort_perm _ _).map Report.node).trans ?_
  rw [reported, List.map_filterMap]
  refine List.Perm.of_eq ((List.filterMap_eq_map_iff_forall_eq_some.2 ?_).trans (List.map_id' _))
  intro x hx
  have ht := (List.mem_filter.1 hx).2
  rw [Bool.and_eq_true, transfers, Bool.and_eq_true] at ht
  obtain ⟨report, hreport⟩ := Option.isSome_iff_exists.1 ht.1.1
  have hnode := List.find?_some hreport
  rw [hreport, Option.map_some]
  simpa using hnode

theorem mem_transferred_nodes : id ∈ side.transferred.map Report.node ↔ side.TakenUp id := by
  rw [side.transferred_nodes_perm.mem_iff, List.mem_filter, side.tree.mem_preorder, TakenUp]
  simp

theorem nodup_transferred_nodes (side : ScriptSide) :
    (side.transferred.map Report.node).Nodup :=
  side.transferred_nodes_perm.nodup_iff.2 ((side.tree.nodup_preorder side.root).filter _)

theorem TakenUp.carried (h : side.TakenUp a) (hid : side.tree.Within a id) :
    side.carried id = true :=
  (carried_iff (hid.trans h.1)).2 ⟨a, h.1, hid, h.2.1⟩

/-- Of two subtrees that are taken up neither contains the other. -/
theorem TakenUp.eq_of_within {b : Nat} (ha : side.TakenUp a) (hb : side.TakenUp b)
    (hida : side.tree.Within a id) (hidb : side.tree.Within b id) : a = b := by
  have key : ∀ {a b}, side.TakenUp a → side.TakenUp b → side.tree.Within b a → a = b := by
    intro a b ha hb h
    rcases h.eq_or_step with rfl | ⟨q, hq, h⟩
    · rfl
    · have hnot := ha.2.2 b (mem_ancestorsWithin.2 ⟨⟨q, hq, h⟩, hb.1⟩)
      rw [hb.2.1] at hnot
      cases hnot
  rcases hida.comparable hidb with h | h
  · exact key ha hb h
  · exact (key hb ha h).symm

/-- **Every carried node belongs to a subtree that is taken up.** -/
theorem exists_takenUp (hid : side.tree.Within side.root id) (h : side.carried id = true) :
    ∃ a, side.TakenUp a ∧ side.tree.Within a id := by
  -- Either the node itself is taken up, or its parent is carried.
  induction id using Nat.strongRecOn with
  | ind id ih =>
    obtain ⟨a, hroot, ha, ht⟩ := (carried_iff hid).1 h
    by_cases hup : ∃ b, b ∈ side.ancestorsWithin id ∧ side.transfers b = true
    · obtain ⟨b, hb, htb⟩ := hup
      obtain ⟨⟨q, hq, hbq⟩, hbroot⟩ := mem_ancestorsWithin.1 hb
      have hqroot : side.tree.Within side.root q := hbq.trans hbroot
      obtain ⟨r, hr, hrq⟩ := ih q (side.tree.lt_of_parent hq) hqroot
        ((carried_iff hqroot).2 ⟨b, hbroot, hbq, htb⟩)
      exact ⟨r, hr, Leads.step hq hrq⟩
    · have hnone : ∀ b, b ∈ side.ancestorsWithin id → side.transfers b = false := by
        intro b hb
        by_contra htb
        exact hup ⟨b, hb, by simpa using htb⟩
      rcases ha.eq_or_step with rfl | ⟨q, hq, ha⟩
      · exact ⟨id, ⟨hid, ht, hnone⟩, Leads.refl _⟩
      · have hfalse := hnone a (mem_ancestorsWithin.2 ⟨⟨q, hq, ha⟩, hroot⟩)
        rw [ht] at hfalse
        cases hfalse

/-- A carried node whose parent is not carried is taken up itself. -/
theorem takenUp_of_parent (hp : side.tree.Within side.root p) (hc : side.tree.parent c = some p)
    (hpnot : side.carried p = false) (h : side.carried c = true) : side.TakenUp c := by
  obtain ⟨a, ha, hca⟩ := exists_takenUp (Leads.step hc hp) h
  rcases hca.eq_or_step with rfl | ⟨q, hq, hqa⟩
  · exact ha
  · obtain rfl : p = q := Option.some.inj (hc.symm.trans hq)
    rw [ha.carried hqa] at hpnot
    cases hpnot

end Reshape.ScriptSide
