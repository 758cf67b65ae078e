import Mathlib
import Reshape.ModelDiff
import Reshape.Proofs.Refactoring.Related
import Reshape.Proofs.Snapshot

/-! # Differences of models speak of entities that exist

What is paired and what is related by a refactoring are entities of the two models.  Their files are
files of the two snapshots that the models belong to. -/

namespace Reshape

namespace ModelDiff

/-- Every entity that a model diff speaks of is declared in a file that its snapshot holds. -/
structure Rooted (model : ModelDiff) (before after : Snapshot) : Prop where
  matched : ∀ pair ∈ model.matched, before.files.contains pair.before.path = true ∧
    after.files.contains pair.after.path = true
  refactorings : ∀ r ∈ model.refactorings, ∀ refs ∈ r.fact.entityPairs,
    before.files.contains refs.1.path = true ∧ after.files.contains refs.2.path = true

theorem holds_matchedOf (before after : Model) (kind : EntityKind) {pairing : KindPairing}
    (h : pairing.InRange (before.size kind) (after.size kind)) {pair : EntityPair}
    (hpair : pair ∈ matchedOf before after kind pairing.pairs) :
    before.Holds pair.before ∧ after.Holds pair.after := by
  obtain ⟨p, hp, rfl⟩ := List.mem_map.1 hpair
  obtain ⟨hbefore, hafter⟩ := h.pairs p hp
  cases kind <;> exact ⟨⟨hbefore, rfl⟩, ⟨hafter, rfl⟩⟩

/-- The comparison of two models speaks only of their entities. -/
theorem rooted_compute {before after : Snapshot} (hbefore : before.Stored) (hafter : after.Stored)
    (thresholds : Thresholds) :
    (compute thresholds before.model after.model).Rooted before after := by
  have hrange := Pairing.inRange_ofModels hbefore.model hafter.model .standard thresholds.clamped
  have hfound : ∀ {b a : EntityRef}, before.model.Holds b → after.model.Holds a →
      before.files.contains b.path = true ∧ after.files.contains a.path = true :=
    fun hb ha => ⟨FileMap.contains_of_mem_paths (hbefore.model.path_mem hb),
      FileMap.contains_of_mem_paths (hafter.model.path_mem ha)⟩
  constructor
  · intro pair hpair
    simp only [compute, computeBy, List.mem_append] at hpair
    rcases hpair with (hpair | hpair) | hpair
    · obtain ⟨hb, ha⟩ := holds_matchedOf _ _ .type hrange.classes hpair
      exact hfound hb ha
    · obtain ⟨hb, ha⟩ := holds_matchedOf _ _ .operation hrange.operations hpair
      exact hfound hb ha
    · obtain ⟨hb, ha⟩ := holds_matchedOf _ _ .attribute hrange.attributes hpair
      exact hfound hb ha
  · intro r hr refs hrefs
    have hgrounded : Comparison.Grounded
        { before := before.model, after := after.model
          pairing := Pairing.ofModels .standard thresholds.clamped before.model after.model
          thresholds := thresholds.clamped } before.files.paths after.files.paths :=
      ⟨hbefore.model, hafter.model, hrange⟩
    obtain ⟨hb, ha⟩ := hgrounded.refactorings hr refs hrefs
    exact hfound hb ha

end ModelDiff

end Reshape
