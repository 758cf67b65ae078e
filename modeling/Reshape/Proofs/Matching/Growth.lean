import Mathlib
import Reshape.Mapping.Subtrees
import Reshape.Proofs.Mapping
import Reshape.Proofs.Tree
import Reshape.Tree.Isomorphism

/-! # How a mapping grows

A mapping grows within two subtrees if it keeps its pairs, stays one-to-one, and gains only pairs of
nodes of one kind that belong to the two subtrees.  All steps of the matching are of this form.
Steps within subtrees that have no node in common do not get in each other's way: what fits the
mapping for one of them still fits it after another one.  So a loop over such pairs of subtrees
succeeds as soon as each of its steps would succeed at the beginning. -/

namespace Reshape

/-! ### Subtrees that agree have nodes of equal kinds -/

namespace Tree

variable {source target : Tree} {withLabels : Bool}

theorem sameFrom_kinds {fuel : Nat} (as bs : List (Rose Nat)) (hlen : as.length = bs.length)
    (has : ∀ rose ∈ as, rose.Follows source.children)
    (hbs : ∀ rose ∈ bs, rose.Follows target.children)
    (h : sameFrom withLabels source target fuel
      ((as.map Rose.value).zip (bs.map Rose.value)) = true) :
    List.Forall₂ (fun x y => source.kind x = target.kind y) (as.flatMap Rose.preorder)
      (bs.flatMap Rose.preorder) := by
  induction fuel generalizing as bs with
  | zero =>
    rcases as with - | ⟨a, as⟩ <;> rcases bs with - | ⟨b, bs⟩
    · exact List.Forall₂.nil
    · cases hlen
    · cases hlen
    · cases h
  | succ fuel ih =>
    rcases as with - | ⟨⟨a, belowA⟩, as⟩ <;> rcases bs with - | ⟨⟨b, belowB⟩, bs⟩
    · exact List.Forall₂.nil
    · cases hlen
    · cases hlen
    · obtain ⟨hvaluesA, hbelowA⟩ := has _ (List.mem_cons_self ..)
      obtain ⟨hvaluesB, hbelowB⟩ := hbs _ (List.mem_cons_self ..)
      simp only [List.map_cons, Rose.value_node, List.zip_cons_cons, sameFrom, sameNode,
        Bool.and_eq_true, beq_iff_eq] at h
      obtain ⟨⟨⟨hkind, -⟩, hchildren⟩, hrest⟩ := h
      rw [← hvaluesA, ← hvaluesB, List.length_map, List.length_map] at hchildren
      -- The children of both nodes come before the pairs that are still open.
      have hopen : (source.children a).zip (target.children b) ++
            (as.map Rose.value).zip (bs.map Rose.value) =
          ((belowA ++ as).map Rose.value).zip ((belowB ++ bs).map Rose.value) := by
        rw [← hvaluesA, ← hvaluesB, List.map_append, List.map_append,
          List.zip_append (by simpa using hchildren)]
      rw [hopen] at hrest
      have hbelow := ih (belowA ++ as) (belowB ++ bs)
        (by simpa [hchildren] using hlen)
        (fun rose hrose => (List.mem_append.1 hrose).elim (hbelowA rose)
          fun hmem => has rose (List.mem_cons_of_mem _ hmem))
        (fun rose hrose => (List.mem_append.1 hrose).elim (hbelowB rose)
          fun hmem => hbs rose (List.mem_cons_of_mem _ hmem)) hrest
      rw [List.flatMap_append, List.flatMap_append] at hbelow
      rw [List.flatMap_cons, List.flatMap_cons, Rose.preorder_node, Rose.preorder_node,
        List.cons_append, List.cons_append]
      exact List.Forall₂.cons hkind hbelow

/-- The preorders of two subtrees that agree run through nodes of equal kinds. -/
theorem sameSubtree_kinds {a b : Nat} (h : sameSubtree withLabels source a target b = true) :
    List.Forall₂ (fun x y => source.kind x = target.kind y) (source.preorder a)
      (target.preorder b) := by
  have hkinds := sameFrom_kinds [source.subtree a] [target.subtree b] rfl
    (by simpa using source.subtree_follows a) (by simpa using target.subtree_follows b)
    (by simpa [sameSubtree] using h)
  simpa [preorder_eq] using hkinds

end Tree

namespace Measured

variable {digest : Digest} {source target : Measured digest} {a b : Nat}

theorem isomorphic_kinds (h : source.isomorphic a target b = true) :
    List.Forall₂ (fun x y => source.tree.kind x = target.tree.kind y) (source.tree.preorder a)
      (target.tree.preorder b) := by
  simp only [isomorphic, Bool.and_eq_true] at h
  exact Tree.sameSubtree_kinds h.2

theorem structurallyIsomorphic_kinds (h : source.structurallyIsomorphic a target b = true) :
    List.Forall₂ (fun x y => source.tree.kind x = target.tree.kind y) (source.tree.preorder a)
      (target.tree.preorder b) := by
  simp only [structurallyIsomorphic, Bool.and_eq_true] at h
  exact Tree.sameSubtree_kinds h.2

end Measured

namespace Mapping

variable {source target : Tree} {mapping other : Mapping} {s t x y : Nat}

/-- A mapping has gained pairs of nodes of one kind within two subtrees. -/
structure Grows (source target : Tree) (s t : Nat) (mapping other : Mapping) : Prop where
  oneToOne : other.OneToOne
  keeps : ∀ x y, mapping.target? x = some y → other.target? x = some y
  gains : ∀ x y, other.target? x = some y → mapping.target? x = some y ∨
    source.Within s x ∧ target.Within t y ∧ source.kind x = target.kind y

namespace Grows

theorem refl (h : mapping.OneToOne) (s t : Nat) : Grows source target s t mapping mapping :=
  ⟨h, fun _ _ => id, fun _ _ => Or.inl⟩

theorem trans {final : Mapping} (h : Grows source target s t mapping other)
    (h' : Grows source target s t other final) : Grows source target s t mapping final where
  oneToOne := h'.oneToOne
  keeps x y hxy := h'.keeps x y (h.keeps x y hxy)
  gains x y hxy := (h'.gains x y hxy).elim (h.gains x y) Or.inr

/-- Growth within smaller subtrees is growth within larger ones. -/
theorem mono (h : Grows source target x y mapping other) (hx : source.Within s x)
    (hy : target.Within t y) : Grows source target s t mapping other where
  oneToOne := h.oneToOne
  keeps := h.keeps
  gains a b hab := (h.gains a b hab).imp_right fun ⟨ha, hb, hkind⟩ =>
    ⟨ha.trans hx, hb.trans hy, hkind⟩

/-- What fits a mapping still fits it after it has grown elsewhere. -/
theorem fits (h : Grows source target s t mapping other) (hone : mapping.OneToOne)
    (hx : ¬ source.Within s x) (hy : ¬ target.Within t y) (hfit : mapping.Fits x y) :
    other.Fits x y := by
  refine ⟨fun b hb => ?_, fun a ha => ?_⟩
  · exact (h.gains x b hb).elim (hfit.1 b) fun hnew => absurd hnew.1 hx
  · refine (h.gains a y ((h.oneToOne a y).2 ha)).elim (fun hold => ?_)
      fun hnew => absurd hnew.2.1 hy
    exact hfit.2 a ((hone a y).1 hold)

end Grows

/-- A pair of nodes of one kind that fits can be added. -/
theorem exists_add (hone : mapping.OneToOne) (hfit : mapping.Fits x y)
    (hkind : source.kind x = target.kind y) :
    ∃ other, (mapping.add x y).toExcept = .ok other ∧ Grows source target x y mapping other := by
  obtain ⟨other, hadd, hother, hgain⟩ := hone.add hfit
  refine ⟨other, by rw [hadd, Outcome.toExcept], hother, fun a b hab => (hgain a b).2 (Or.inl hab),
    fun a b hab => ?_⟩
  rcases (hgain a b).1 hab with hold | ⟨rfl, rfl⟩
  · exact Or.inl hold
  · exact Or.inr ⟨Leads.refl _, Leads.refl _, hkind⟩

theorem mem_subtreePairs (h : (x, y) ∈ subtreePairs source target s t) :
    source.Within s x ∧ target.Within t y := by
  obtain ⟨hx, hy⟩ := List.of_mem_zip h
  exact ⟨source.mem_preorder.1 hx, target.mem_preorder.1 hy⟩

theorem nodup_zip {xs ys : List Nat} (hxs : xs.Nodup) (hys : ys.Nodup) :
    ((xs.zip ys).map Prod.fst).Nodup ∧ ((xs.zip ys).map Prod.snd).Nodup := by
  induction xs generalizing ys with
  | nil => exact ⟨List.nodup_nil, List.nodup_nil⟩
  | cons x xs ih =>
    cases ys with
    | nil => exact ⟨List.nodup_nil, List.nodup_nil⟩
    | cons y ys =>
      obtain ⟨hx, hxs⟩ := List.nodup_cons.1 hxs
      obtain ⟨hy, hys⟩ := List.nodup_cons.1 hys
      obtain ⟨hfst, hsnd⟩ := ih hxs hys
      refine ⟨List.nodup_cons.2 ⟨fun hmem => hx ?_, hfst⟩,
        List.nodup_cons.2 ⟨fun hmem => hy ?_, hsnd⟩⟩
      · obtain ⟨p, hp, rfl⟩ := List.mem_map.1 hmem
        exact (List.of_mem_zip hp).1
      · obtain ⟨p, hp, rfl⟩ := List.mem_map.1 hmem
        exact (List.of_mem_zip hp).2

/-- No node is in two of the pairs along the preorders of two subtrees. -/
theorem nodup_subtreePairs (source target : Tree) (s t : Nat) :
    ((subtreePairs source target s t).map Prod.fst).Nodup ∧
      ((subtreePairs source target s t).map Prod.snd).Nodup :=
  nodup_zip (source.nodup_preorder s) (target.nodup_preorder t)

/-- Two subtrees that agree in kinds can be paired if their pairs fit. -/
theorem exists_addSubtrees (hone : mapping.OneToOne)
    (hkinds : List.Forall₂ (fun x y => source.kind x = target.kind y) (source.preorder s)
      (target.preorder t))
    (hfit : ∀ p ∈ subtreePairs source target s t, mapping.Fits p.1 p.2) :
    ∃ other, mapping.addSubtrees source target s t = .ok other ∧
      Grows source target s t mapping other := by
  obtain ⟨hfst, hsnd⟩ := nodup_subtreePairs source target s t
  obtain ⟨other, hadd, hother, hgain⟩ := hone.addAll hfst hsnd hfit
  refine ⟨other, hadd, hother, fun a b hab => (hgain a b).2 (Or.inl hab), fun a b hab => ?_⟩
  rcases (hgain a b).1 hab with hold | hnew
  · exact Or.inl hold
  · obtain ⟨ha, hb⟩ := mem_subtreePairs hnew
    exact Or.inr ⟨ha, hb, (List.forall₂_iff_zip.1 hkinds).2 hnew⟩

theorem fits_of_subtreesFree (h : mapping.subtreesFree source target s t = true) :
    ∀ p ∈ subtreePairs source target s t, mapping.Fits p.1 p.2 := by
  rintro ⟨x, y⟩ hp
  obtain ⟨hx, hy⟩ := mem_subtreePairs hp
  simp only [subtreesFree, Bool.and_eq_true, List.all_eq_true, source.mem_preorder,
    target.mem_preorder, Bool.not_eq_true', hasSource, hasTarget] at h
  exact fits_of_free (by simpa using h.1 x hx) (by simpa using h.2 y hy)

theorem fits_of_subtreesAligned (h : mapping.subtreesAligned source target s t = true) :
    ∀ p ∈ subtreePairs source target s t, mapping.Fits p.1 p.2 := by
  rintro ⟨x, y⟩ hp
  simp only [subtreesAligned, List.all_eq_true, Bool.and_eq_true] at h
  obtain ⟨hx, hy⟩ := h (x, y) hp
  refine ⟨fun b hb => ?_, fun a ha => ?_⟩
  · simpa [hb] using hx
  · simpa [ha] using hy

/-! ### Loops over subtrees without a common node -/

/-- Neither the source subtrees nor the target subtrees of two pairs have a node in common. -/
def Apart (source target : Tree) (p q : Nat × Nat) : Prop :=
  (∀ x, source.Within p.1 x → ¬ source.Within q.1 x) ∧
    ∀ y, target.Within p.2 y → ¬ target.Within q.2 y

/-- Pairs are apart if no node is in two of them and their subtrees have nodes in common only if
they are equal. -/
theorem apart_of_nodup {pairs : List (Nat × Nat)} (hfst : (pairs.map Prod.fst).Nodup)
    (hsnd : (pairs.map Prod.snd).Nodup)
    (hsource : ∀ p ∈ pairs, ∀ q ∈ pairs, ∀ x,
      source.Within p.1 x → source.Within q.1 x → p.1 = q.1)
    (htarget : ∀ p ∈ pairs, ∀ q ∈ pairs, ∀ y,
      target.Within p.2 y → target.Within q.2 y → p.2 = q.2) :
    pairs.Pairwise (Apart source target) := by
  refine List.Pairwise.imp_of_mem ?_
    ((List.pairwise_map.1 hfst).and (List.pairwise_map.1 hsnd))
  intro p q hp hq hne
  exact ⟨fun x hx hx' => hne.1 (hsource p hp q hq x hx hx'),
    fun y hy hy' => hne.2 (htarget p hp q hq y hy hy')⟩

/-- Children of one node on either side are apart. -/
theorem apart_of_children {pairs : List (Nat × Nat)} (hfst : (pairs.map Prod.fst).Nodup)
    (hsnd : (pairs.map Prod.snd).Nodup)
    (hmem : ∀ p ∈ pairs, p.1 ∈ source.children s ∧ p.2 ∈ target.children t) :
    pairs.Pairwise (Apart source target) :=
  apart_of_nodup hfst hsnd
    (fun p hp q hq _ => source.eq_of_within_siblings (hmem p hp).1 (hmem q hq).1)
    (fun p hp q hq _ => target.eq_of_within_siblings (hmem p hp).2 (hmem q hq).2)

/-- **A loop over pairs of subtrees that are apart.**  The step for a pair asks that certain pairs
of nodes of its subtrees fit, and they fit at the beginning. -/
theorem exists_foldlM_apart {pairs : List (Nat × Nat)}
    {f : Mapping → Nat × Nat → Except Violation Mapping}
    (asks : Nat × Nat → List (Nat × Nat))
    (hasks : ∀ p ∈ pairs, ∀ c ∈ asks p, source.Within p.1 c.1 ∧ target.Within p.2 c.2)
    (happart : pairs.Pairwise (Apart source target))
    (hin : ∀ p ∈ pairs, source.Within s p.1 ∧ target.Within t p.2)
    (hone : mapping.OneToOne) (hfit : ∀ p ∈ pairs, ∀ c ∈ asks p, mapping.Fits c.1 c.2)
    (hstep : ∀ p ∈ pairs, ∀ mapping : Mapping, mapping.OneToOne →
      (∀ c ∈ asks p, mapping.Fits c.1 c.2) →
      ∃ other, f mapping p = .ok other ∧ Grows source target p.1 p.2 mapping other) :
    ∃ other, pairs.foldlM f mapping = .ok other ∧ Grows source target s t mapping other ∧
      ∀ x y, other.target? x = some y → mapping.target? x = some y ∨
        ∃ p ∈ pairs, source.Within p.1 x ∧ target.Within p.2 y := by
  induction pairs generalizing mapping with
  | nil => exact ⟨mapping, rfl, Grows.refl hone s t, fun _ _ => Or.inl⟩
  | cons p pairs ih =>
    obtain ⟨hp, happart⟩ := List.pairwise_cons.1 happart
    have htail : ∀ q ∈ pairs, q ∈ p :: pairs := fun q hq => List.mem_cons_of_mem _ hq
    have hhead : p ∈ p :: pairs := List.mem_cons_self ..
    obtain ⟨middle, hmiddle, hgrow⟩ := hstep p hhead mapping hone (hfit p hhead)
    have hfit' : ∀ q ∈ pairs, ∀ c ∈ asks q, middle.Fits c.1 c.2 := by
      intro q hq c hc
      obtain ⟨hc₁, hc₂⟩ := hasks q (htail q hq) c hc
      exact hgrow.fits hone (fun hwithin => (hp q hq).1 _ hwithin hc₁)
        (fun hwithin => (hp q hq).2 _ hwithin hc₂) (hfit q (htail q hq) c hc)
    obtain ⟨other, hother, hgrow', hnew⟩ := ih (fun q hq => hasks q (htail q hq)) happart
      (fun q hq => hin q (htail q hq)) hgrow.oneToOne hfit' fun q hq => hstep q (htail q hq)
    refine ⟨other, ?_, (hgrow.mono (hin p hhead).1 (hin p hhead).2).trans hgrow', ?_⟩
    · rw [List.foldlM_cons, hmiddle, ok_bind, hother]
    · intro x y hxy
      rcases hnew x y hxy with hold | ⟨q, hq, hx, hy⟩
      · rcases hgrow.gains x y hold with hold | ⟨hx, hy, -⟩
        · exact Or.inl hold
        · exact Or.inr ⟨p, hhead, hx, hy⟩
      · exact Or.inr ⟨q, htail q hq, hx, hy⟩

end Mapping

end Reshape
