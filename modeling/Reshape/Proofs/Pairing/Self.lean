import Mathlib
import Reshape.Proofs.FileMap
import Reshape.Proofs.Model.Construction
import Reshape.Proofs.Pairing.Partition
import Reshape.Proofs.Text.Distance
import Reshape.Proofs.Thresholds

/-! # Pairing entities with themselves

When the same entities stand on both sides, pairing by key joins the first entity of every key with
itself.  The others are left to the rounds, where copies of one entity may all have the best score.
Then the rank decides: a candidate that joins two entities ranks behind the one that joins the
earlier of them with itself.  So what joins an entity with itself is accepted, and every other
candidate meets an entity that is taken. -/

namespace Reshape

/-! ### What is accepted -/

namespace Candidate

instance : Std.TransCmp order :=
  -- Scores and files are compared from the other side: the greater one comes first.
  have : Std.TransCmp fun x y : Candidate => compare (Number.rank y.score) (Number.rank x.score) :=
    @Std.TransCmp.opposite _ (compareOn fun x : Candidate => Number.rank x.score) _
  have : Std.TransCmp fun x y : Candidate => compare y.sameFile.toNat x.sameFile.toNat :=
    @Std.TransCmp.opposite _ (compareOn fun x : Candidate => x.sameFile.toNat) _
  inferInstanceAs (Std.TransCmp (compareLex _ (compareLex _ (compareLex (compareOn nameDistance)
    (compareLex (compareOn before) (compareOn after))))))

theorem ranksFirst_trans (x y z : Candidate) (hxy : x.ranksFirst y = true)
    (hyz : y.ranksFirst z = true) : x.ranksFirst z = true :=
  Std.TransCmp.isLE_trans hxy hyz

theorem ranksFirst_total (x y : Candidate) : (x.ranksFirst y || y.ranksFirst x) = true := by
  have hswap : x.order y = (y.order x).swap := Std.OrientedCmp.eq_swap
  rw [ranksFirst, ranksFirst, hswap]
  cases y.order x <;> rfl

/-- A comparison that does not come out in favour of the left side leaves the decision to the
next. -/
theorem isLE_of_isLE_then {first next : Ordering} (h : (first.then next).isLE = true)
    (hfirst : first ≠ .lt) : next.isLE = true := by
  cases first with
  | lt => exact absurd rfl hfirst
  | eq => exact h
  | gt => cases h

/-- A candidate of one file and one name comes before those of later entities that score no
better. -/
theorem not_ranksFirst {x y : Candidate} (hscore : Number.rank x.score ≤ Number.rank y.score)
    (hfile : y.sameFile = true) (hname : y.nameDistance = 0) (hbefore : y.before ≤ x.before)
    (hafter : y.after ≤ x.after) (hlater : y.before < x.before ∨ y.after < x.after) :
    ¬x.ranksFirst y = true := by
  intro h
  have hfile_le : x.sameFile.toNat ≤ y.sameFile.toNat := hfile ▸ Bool.toNat_le _
  replace h := isLE_of_isLE_then h fun hlt => by
    have := compare_lt_iff_lt.1 hlt
    omega
  replace h := isLE_of_isLE_then h fun hlt => by
    have := compare_lt_iff_lt.1 hlt
    omega
  replace h := isLE_of_isLE_then h fun hlt => by
    have := compare_lt_iff_lt.1 hlt
    omega
  have hplaces := h
  replace h := isLE_of_isLE_then h fun hlt => by
    have := compare_lt_iff_lt.1 hlt
    omega
  have hle : x.after ≤ y.after := Nat.isLE_compare.1 h
  have hgt : compare x.before y.before = .gt := compare_gt_iff_gt.2 (by omega)
  rw [hgt] at hplaces
  cases hplaces

variable {candidates taken : List Candidate} {x : Candidate}

/-- If no two candidates of a set need the same entity, and every other candidate clashes with an
earlier one of the set, then exactly the set is accepted. -/
theorem mem_acceptFrom_iff {keep : Candidate → Prop} (htaken : ∀ y ∈ taken, keep y)
    (hunique : ∀ x ∈ candidates, ∀ y ∈ taken ++ candidates, keep x → keep y →
      x.clashes y = true → x = y)
    (hother : ∀ left x right, candidates = left ++ x :: right → ¬keep x →
      ∃ y ∈ taken ++ left, keep y ∧ x.clashes y = true) :
    x ∈ taken ∨ x ∈ acceptFrom taken candidates ↔ x ∈ taken ∨ x ∈ candidates ∧ keep x := by
  induction candidates generalizing taken with
  | nil => simp [acceptFrom]
  | cons c rest ih =>
    rw [acceptFrom]
    split
    · rename_i hclash
      obtain ⟨y, hy, hclash⟩ := List.any_eq_true.1 hclash
      have hmem : keep c → c ∈ taken := fun hc =>
        hunique c (by simp) y (by simp [hy]) hc (htaken y hy) hclash ▸ hy
      rw [ih htaken (fun x hx y hy => hunique x (by simp [hx]) y (by grind))]
      · grind
      · intro left x right hrest hx
        obtain ⟨y, hy, hkeep, hxy⟩ := hother (c :: left) x right (by simp [hrest]) hx
        exact ⟨y, by grind, hkeep, hxy⟩
    · rename_i hfree
      have hc : keep c := by
        by_contra hc
        obtain ⟨y, hy, -, hclash⟩ := hother [] c rest rfl hc
        exact hfree (List.any_eq_true.2 ⟨y, by simpa using hy, hclash⟩)
      have hrest : x ∈ c :: taken ∨ x ∈ acceptFrom (c :: taken) rest ↔
          x ∈ c :: taken ∨ x ∈ rest ∧ keep x := by
        refine ih (by grind) (fun x hx y hy => hunique x (by simp [hx]) y (by grind)) ?_
        intro left x right hrest hx
        obtain ⟨y, hy, hkeep, hxy⟩ := hother (c :: left) x right (by simp [hrest]) hx
        exact ⟨y, by grind, hkeep, hxy⟩
      grind

/-- What is accepted is determined by the rank: candidates that do not clash with each other, and
each of the others clashes with one of them that ranks before it. -/
theorem mem_accept_iff {keep : Candidate → Prop}
    (hunique : ∀ x ∈ candidates, ∀ y ∈ candidates, keep x → keep y → x.clashes y = true → x = y)
    (hother : ∀ x ∈ candidates, ¬keep x →
      ∃ y ∈ candidates, keep y ∧ x.clashes y = true ∧ ¬x.ranksFirst y = true) :
    x ∈ accept candidates ↔ x ∈ candidates ∧ keep x := by
  have hsorted := List.pairwise_mergeSort ranksFirst_trans ranksFirst_total candidates
  have hmem : ∀ y, y ∈ candidates.mergeSort ranksFirst ↔ y ∈ candidates := fun y =>
    (List.mergeSort_perm candidates ranksFirst).mem_iff
  have hiff : x ∈ [] ∨ x ∈ accept candidates ↔
      x ∈ [] ∨ x ∈ candidates.mergeSort ranksFirst ∧ keep x := by
    refine mem_acceptFrom_iff (by simp)
      (fun x hx y hy => hunique x ((hmem x).1 hx) y ((hmem y).1 hy)) ?_
    intro left x right hsplit hx
    obtain ⟨y, hy, hkeep, hclash, hrank⟩ := hother x ((hmem x).1 (by simp [hsplit])) hx
    have hy : y ∈ left ++ x :: right := hsplit ▸ (hmem y).2 hy
    rw [hsplit] at hsorted
    obtain ⟨-, hright, -⟩ := List.pairwise_append.1 hsorted
    rcases List.mem_append.1 hy with hleft | hmem
    · exact ⟨y, hleft, hkeep, hclash⟩
    · rcases List.mem_cons.1 hmem with rfl | hmem
      · exact absurd hkeep hx
      · exact absurd ((List.pairwise_cons.1 hright).1 y hmem) hrank
  simpa [hmem] using hiff

end Candidate

/-- The pair of an entity and itself, at the best score. -/
def Pair.self (id : Nat) : Pair := ⟨id, id, 1.0⟩

/-- The candidate of an entity and itself, at the best score. -/
def Candidate.self (id : Nat) : Candidate := ⟨id, id, 1.0, true, 0⟩

/-- A score of one for every entity and itself that no two entities exceed. -/
structure ScoresSelfBest {α : Type} (score : α → α → Float) (entities : List α) : Prop where
  self : ∀ e ∈ entities, score e e = 1.0
  best : ∀ b ∈ entities, ∀ a ∈ entities, Number.rank (score b a) ≤ Number.rank 1.0

namespace Pairing.View

variable {α : Type} {view : View α} {entities : List α} {pairs : List Pair} {p : Pair}
  {related : α → α → Bool}

/-- Entities with different numbers that score best against themselves, and reach the threshold
then. -/
structure Proper (view : View α) (entities : List α) : Prop
    extends ScoresSelfBest view.score entities where
  numbered : (entities.map view.id).Nodup
  reached : view.threshold ≤ 1.0

/-! ### Pairing by key -/

/-- Whoever is the first with its key among the entities before is so among those after. -/
theorem eq_self_of_mem_exactFrom {left rest : List α} {seen : List (String × String)}
    (hseen : ∀ e ∈ left, view.key e ∈ seen) (h : p ∈ view.exactFrom (left ++ rest) seen rest) :
    ∃ e ∈ rest, p = Pair.self (view.id e) := by
  induction rest generalizing left seen with
  | nil => cases h
  | cons b rest ih =>
    have hlater : p ∈ view.exactFrom (left ++ b :: rest) (view.key b :: seen) rest →
        ∃ e ∈ b :: rest, p = Pair.self (view.id e) := by
      intro hp
      have hsplit : left ++ b :: rest = (left ++ [b]) ++ rest := by simp
      rw [hsplit] at hp
      obtain ⟨e, he, hpe⟩ := ih (by grind) hp
      exact ⟨e, List.mem_cons_of_mem _ he, hpe⟩
    rw [exactFrom] at h
    split at h
    · exact hlater h
    · rename_i hnew
      have hfirst : (left ++ b :: rest).find? (fun a => view.key a == view.key b) = some b := by
        refine List.find?_eq_some_iff_append.2 ⟨by simp, left, rest, rfl, fun e he => ?_⟩
        have hne : view.key e ≠ view.key b := fun heq =>
          hnew (List.contains_iff_mem.2 (heq ▸ hseen e he))
        simpa using hne
      rw [hfirst] at h
      rcases List.mem_cons.1 h with rfl | h
      · exact ⟨b, List.mem_cons_self .., rfl⟩
      · exact hlater h

/-! ### One round -/

theorem mem_candidates_iff {before after : List α} {x : Candidate} :
    x ∈ view.candidates related before after pairs ↔
      ∃ b ∈ before, ∃ a ∈ after, (∀ p ∈ pairs, p.before ≠ view.id b) ∧
        (∀ p ∈ pairs, p.after ≠ view.id a) ∧ related b a = true ∧ view.candidate? b a = some x := by
  simp only [candidates, List.mem_flatMap, List.mem_filterMap, List.mem_filter, Bool.not_eq_true',
    List.any_eq_false, beq_iff_eq]
  grind

theorem candidate?_self (h : view.Proper entities) {e : α} (he : e ∈ entities) :
    view.candidate? e e = some (Candidate.self (view.id e)) := by
  rw [candidate?, h.self e he]
  simp only [if_pos h.reached, BEq.rfl, Text.editDistance_self]
  rfl

/-- Pairs of entities with themselves. -/
def Mirrors (view : View α) (entities : List α) (pairs : List Pair) : Prop :=
  ∀ p ∈ pairs, ∃ e ∈ entities, p = Pair.self (view.id e)

/-- Pairs of entities with themselves take an entity on both sides or on none. -/
theorem Mirrors.free_iff (h : view.Mirrors entities pairs) {id : Nat} :
    (∀ p ∈ pairs, p.before ≠ id) ↔ ∀ p ∈ pairs, p.after ≠ id := by
  refine forall₂_congr fun p hp => ?_
  obtain ⟨e, -, rfl⟩ := h p hp
  rfl

theorem self_mem_candidates (h : view.Proper entities)
    (hpairs : view.Mirrors entities pairs) {e : α} (he : e ∈ entities)
    (hrelated : related e e = true) (hfree : ∀ p ∈ pairs, p.before ≠ view.id e) :
    Candidate.self (view.id e) ∈ view.candidates related entities entities pairs :=
  mem_candidates_iff.2
    ⟨e, he, e, he, hfree, hpairs.free_iff.1 hfree, hrelated, candidate?_self h he⟩

/-- A candidate of two entities ranks behind that of the earlier one and itself. -/
theorem exists_better (h : view.Proper entities) (hpairs : view.Mirrors entities pairs)
    (hrelated : ∀ e ∈ entities, related e e = true) {x : Candidate}
    (hx : x ∈ view.candidates related entities entities pairs) (hne : x.before ≠ x.after) :
    ∃ y ∈ view.candidates related entities entities pairs, y.before = y.after ∧
      x.clashes y = true ∧ ¬x.ranksFirst y = true := by
  obtain ⟨b, hb, a, ha, hfreeb, hfreea, -, hcandidate⟩ := mem_candidates_iff.1 hx
  have hbself := self_mem_candidates h hpairs hb (hrelated b hb) hfreeb
  have haself := self_mem_candidates h hpairs ha (hrelated a ha) (hpairs.free_iff.2 hfreea)
  rw [candidate?] at hcandidate
  split at hcandidate
  · obtain rfl := Option.some.inj hcandidate
    have hscore := h.best b hb a ha
    rcases Nat.lt_or_gt_of_ne hne with hlt | hgt
    · refine ⟨_, hbself, rfl, by simp [Candidate.clashes, Candidate.self], ?_⟩
      exact Candidate.not_ranksFirst hscore rfl rfl (Nat.le_refl _) (Nat.le_of_lt hlt) (.inr hlt)
    · refine ⟨_, haself, rfl, by simp [Candidate.clashes, Candidate.self], ?_⟩
      exact Candidate.not_ranksFirst hscore rfl rfl (Nat.le_of_lt hgt) (Nat.le_refl _) (.inl hgt)
  · cases hcandidate

theorem eq_self_of_mem_candidates (h : view.Proper entities) {x : Candidate}
    (hx : x ∈ view.candidates related entities entities pairs) (hself : x.before = x.after) :
    ∃ e ∈ entities, x = Candidate.self (view.id e) := by
  obtain ⟨b, hb, a, ha, -, -, -, hcandidate⟩ := mem_candidates_iff.1 hx
  obtain rfl : b = a := by
    rw [candidate?] at hcandidate
    split at hcandidate
    · obtain rfl := Option.some.inj hcandidate
      exact List.inj_on_of_nodup_map h.numbered hb ha hself
    · cases hcandidate
  rw [candidate?_self h hb] at hcandidate
  exact ⟨b, hb, (Option.some.inj hcandidate).symm⟩

/-- After one round for a reflexive relation, every entity is paired with itself. -/
theorem mem_round_iff (h : view.Proper entities) (hpairs : view.Mirrors entities pairs)
    (hrelated : ∀ e ∈ entities, related e e = true) :
    p ∈ view.round entities entities pairs related ↔
      ∃ e ∈ entities, p = Pair.self (view.id e) := by
  have haccept : ∀ x, x ∈ Candidate.accept (view.candidates related entities entities pairs) ↔
      x ∈ view.candidates related entities entities pairs ∧ x.before = x.after := by
    intro x
    refine Candidate.mem_accept_iff (fun x hx y hy hxself hyself hclash => ?_) fun x hx hne =>
      exists_better h hpairs hrelated hx hne
    obtain ⟨e, -, rfl⟩ := eq_self_of_mem_candidates h hx hxself
    obtain ⟨e', -, rfl⟩ := eq_self_of_mem_candidates h hy hyself
    have heq : view.id e = view.id e' := by simpa [Candidate.clashes, Candidate.self] using hclash
    rw [heq]
  rw [round, List.mem_append, List.mem_map]
  constructor
  · rintro (hp | ⟨x, hx, rfl⟩)
    · exact hpairs p hp
    · obtain ⟨hx, hself⟩ := (haccept x).1 hx
      obtain ⟨e, he, rfl⟩ := eq_self_of_mem_candidates h hx hself
      exact ⟨e, he, rfl⟩
  · rintro ⟨e, he, rfl⟩
    by_cases hfree : ∀ p ∈ pairs, p.before ≠ view.id e
    · have hmem := self_mem_candidates h hpairs he (hrelated e he) hfree
      exact .inr ⟨Candidate.self (view.id e), (haccept _).2 ⟨hmem, rfl⟩, rfl⟩
    · push Not at hfree
      obtain ⟨p, hp, hpe⟩ := hfree
      obtain ⟨e', -, rfl⟩ := hpairs p hp
      have heq : view.id e' = view.id e := hpe
      exact .inl (heq ▸ hp)

/-- Once every entity is in a pair, rounds add nothing. -/
theorem rounds_eq (hpairs : ∀ e ∈ entities, ∃ p ∈ pairs, p.before = view.id e)
    (rounds : List (α → α → Bool)) {after : List α} :
    rounds.foldl (view.round entities after) pairs = pairs := by
  induction rounds with
  | nil => rfl
  | cons related rounds ih =>
    have hnone : view.candidates related entities after pairs = [] := by
      refine List.eq_nil_iff_forall_not_mem.2 fun x hx => ?_
      obtain ⟨b, hb, -, -, hfree, -⟩ := mem_candidates_iff.1 hx
      obtain ⟨p, hp, hpb⟩ := hpairs b hb
      exact hfree p hp hpb
    have hround : view.round entities after pairs related = pairs := by
      rw [round, hnone]
      simp [Candidate.accept, Candidate.acceptFrom]
    rw [List.foldl_cons, hround]
    exact ih

/-! ### Whole pairings -/

theorem precedes_iff {p q : Pair} : precedes p q = true ↔
    p.before < q.before ∨ p.before = q.before ∧ p.after ≤ q.after := by
  simp [precedes]

theorem precedes_trans (p q r : Pair) (hpq : precedes p q = true) (hqr : precedes q r = true) :
    precedes p r = true := by
  rw [precedes_iff] at *
  omega

theorem precedes_total (p q : Pair) : (precedes p q || precedes q p) = true := by
  rw [Bool.or_eq_true, precedes_iff, precedes_iff]
  omega

end Pairing.View

/-- The pairing of some entities with themselves. -/
def KindPairing.identity (count : Nat) : KindPairing where
  pairs := (List.range count).map Pair.self

theorem KindPairing.ofPairs_self (count : Nat) :
    ofPairs count count ((List.range count).map Pair.self) = identity count := by
  have hbefore : ((List.range count).map Pair.self).map Pair.before = List.range count := by
    rw [List.map_map]
    exact List.map_id _
  have hafter : ((List.range count).map Pair.self).map Pair.after = List.range count := by
    rw [List.map_map]
    exact List.map_id _
  have hnone : (List.range count).filter (fun id => !(List.range count).contains id) = [] := by simp
  have hremoved : (ofPairs count count ((List.range count).map Pair.self)).removed = [] := by
    rw [removed_ofPairs, hbefore, hnone]
  have hadded : (ofPairs count count ((List.range count).map Pair.self)).added = [] := by
    rw [added_ofPairs, hafter, hnone]
  exact KindPairing.mk.injEq .. |>.mpr ⟨rfl, hremoved, hadded⟩

namespace Pairing.View

variable {α : Type} {view : View α}

/-- The order of pairs leaves one way to list the pairs of entities with themselves. -/
theorem sorted_eq_self {pairs : List Pair} {count : Nat} (hapart : pairs.Pairwise Pair.Apart)
    (hmem : ∀ p, p ∈ pairs ↔ p ∈ (List.range count).map Pair.self) :
    pairs.mergeSort precedes = (List.range count).map Pair.self := by
  have hnodup : pairs.Nodup := hapart.imp fun hapart heq => hapart.1 (congrArg Pair.before heq)
  have hself : ((List.range count).map Pair.self).Nodup :=
    List.nodup_range.map fun _ _ heq => congrArg Pair.before heq
  have hperm := (List.mergeSort_perm pairs precedes).trans
    ((List.perm_ext_iff_of_nodup hnodup hself).2 hmem)
  refine hperm.eq_of_pairwise ?_ (List.pairwise_mergeSort precedes_trans precedes_total pairs) ?_
  · intro p q hp hq hpq hqp
    obtain ⟨i, -, rfl⟩ := List.mem_map.1 (hperm.mem_iff.1 hp)
    obtain ⟨j, -, rfl⟩ := List.mem_map.1 hq
    have hle : i ≤ j := by grind [precedes_iff, Pair.self]
    have hge : j ≤ i := by grind [precedes_iff, Pair.self]
    rw [Nat.le_antisymm hle hge]
  · exact List.pairwise_map.2 (List.pairwise_lt_range.imp fun hlt => precedes_iff.2 (.inl hlt))

/-- Entities are paired with themselves if the first relation holds of each and itself. -/
theorem pairUp_self {path : α → Path} {paths : List Path} {entities : Array α}
    (hnumbered : Numbered view.id path paths entities) (h : view.Proper entities.toList)
    {related : α → α → Bool} (hrelated : ∀ e ∈ entities, related e e = true)
    (rounds : List (α → α → Bool)) :
    view.pairUp (related :: rounds) entities entities = KindPairing.identity entities.size := by
  have hmirrors :
      view.Mirrors entities.toList (view.exactFrom entities.toList [] entities.toList) :=
    fun p hp => eq_self_of_mem_exactFrom (List.forall_mem_nil _) hp
  have hround : ∀ p, p ∈ view.round entities.toList entities.toList
      (view.exactFrom entities.toList [] entities.toList) related ↔
      ∃ e ∈ entities.toList, p = Pair.self (view.id e) := fun p =>
    mem_round_iff h hmirrors fun e he => hrelated e (Array.mem_toList_iff.1 he)
  rw [pairUp, List.foldl_cons, rounds_eq fun e he => ⟨_, (hround _).2 ⟨e, he, rfl⟩, rfl⟩,
    ← KindPairing.ofPairs_self]
  refine congrArg _ (sorted_eq_self (view.pairwise_round
    (view.pairwise_exactFrom h.numbered h.numbered []) related) fun p => ?_)
  rw [hround, ← hnumbered.map_id, List.map_map, List.mem_map]
  exact ⟨fun ⟨e, he, hp⟩ => ⟨e, he, hp.symm⟩, fun ⟨e, he, hp⟩ => ⟨e, he, hp.symm⟩⟩

end Pairing.View

/-! ### A model and itself -/

/-- A scoring by which the entities of a model score best against themselves. -/
structure Scoring.Proper (scoring : Scoring) (model : Model) : Prop where
  classes : ScoresSelfBest (scoring.classes model model) model.classes.toList
  operations : ScoresSelfBest scoring.operations model.operations.toList
  attributes : ScoresSelfBest scoring.attributes model.attributes.toList

/-- The thresholds of pairing are numbers. -/
structure Thresholds.AreNumbers (thresholds : Thresholds) : Prop where
  classMatch : thresholds.classMatch.isNaN = false
  operationMatch : thresholds.operationMatch.isNaN = false
  attributeMatch : thresholds.attributeMatch.isNaN = false

namespace Pairing

/-- The pairing of the entities of a model with themselves. -/
def identity (model : Model) : Pairing where
  classes := .identity model.classes.size
  operations := .identity model.operations.size
  attributes := .identity model.attributes.size

theorem ofKind_identity (model : Model) (kind : EntityKind) :
    (identity model).ofKind kind = .identity (model.size kind) := by
  cases kind <;> rfl

theorem hasPair_identity {count id : Nat} (h : id < count) :
    hasPair (.identity count) id id = true := by
  refine List.any_eq_true.2 ⟨Pair.self id, List.mem_map.2 ⟨id, List.mem_range.2 h, rfl⟩, ?_⟩
  simp [Pair.self]

theorem sameHome_identity {model : Model} {op : Operation} (h : model.HasOwner op.owner) :
    sameHome (.identity model.classes.size) op op = true := by
  cases howner : op.owner with
  | none => simp [sameHome, howner]
  | some id => simp [sameHome, howner, hasPair_identity (h id howner)]

theorem View.proper_of_numbered {α : Type} {view : View α} {path : α → Path} {paths : List Path}
    {entities : Array α} (hnumbered : Numbered view.id path paths entities)
    (hscores : ScoresSelfBest view.score entities.toList) (hreached : view.threshold ≤ 1.0) :
    view.Proper entities.toList :=
  ⟨hscores, hnumbered.map_id ▸ List.nodup_range, hreached⟩

/-- A model is paired with itself entity by entity, whatever names and signatures its entities
share. -/
theorem ofModels_self {scoring : Scoring} {thresholds : Thresholds} {model : Model}
    {paths : List Path} (hgrounded : model.Grounded paths) (howned : model.Owned)
    (hscoring : scoring.Proper model) (hnumbers : thresholds.AreNumbers) :
    ofModels scoring thresholds.clamped model model = identity model := by
  have hclasses : (classView scoring thresholds.clamped model model).pairUp [fun _ _ => true]
      model.classes model.classes = .identity model.classes.size := by
    refine View.pairUp_self hgrounded.classes ?_ (fun _ _ => rfl) []
    refine View.proper_of_numbered hgrounded.classes hscoring.classes ?_
    exact Thresholds.clampRatio_le_one hnumbers.classMatch
  have hoperations : (operationView scoring thresholds.clamped).pairUp
      [sameHome (.identity model.classes.size), fun _ _ => true] model.operations model.operations =
      .identity model.operations.size := by
    refine View.pairUp_self hgrounded.operations ?_
      (fun op hop => sameHome_identity (howned.operations op hop)) _
    refine View.proper_of_numbered hgrounded.operations hscoring.operations ?_
    exact Thresholds.clampRatio_le_one hnumbers.operationMatch
  have hattributes : (attributeView scoring thresholds.clamped).pairUp
      [fun b a => hasPair (.identity model.classes.size) b.owner a.owner,
        fun b a => b.name == a.name]
      model.attributes model.attributes = .identity model.attributes.size := by
    refine View.pairUp_self hgrounded.attributes ?_ ?_ _
    · refine View.proper_of_numbered hgrounded.attributes hscoring.attributes ?_
      exact Thresholds.clampRatio_le_one hnumbers.attributeMatch
    · exact fun a ha => hasPair_identity (howned.attributes a ha)
  simp only [ofModels, identity, hclasses, hoperations, hattributes]

end Pairing

end Reshape
