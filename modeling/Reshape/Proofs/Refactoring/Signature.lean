import Mathlib
import Reshape.Proofs.Refactoring.Unchanged
import Reshape.Refactoring.Parameter

/-! # The changes of a signature account for all of it

Parameters are told apart by their names.  A parameter that only one version has is renamed, removed
or added, and the loop that pairs these off loses none of them and uses none twice.  What both
versions have can change its type, and the order of the shared names can change.  The main statement
collects this, with the consequence that nothing is reported exactly if the signatures agree. -/

namespace Reshape.ParameterChange

/-! ### Pairing off removed and added parameters -/

theorem successor?_eq (added : List (Parameter × Nat)) (old : Parameter) (place : Nat) :
    successor? added old place =
      ((added.filter (·.1.typeName == old.typeName)).find? (·.2 == place)).or
        (added.filter (·.1.typeName == old.typeName)).head? := rfl

theorem of_successor? {added : List (Parameter × Nat)} {old new : Parameter} {place taken : Nat}
    (h : successor? added old place = some (new, taken)) :
    (new, taken) ∈ added ∧ new.typeName = old.typeName := by
  rw [successor?_eq] at h
  have hmem : (new, taken) ∈ added.filter (·.1.typeName == old.typeName) := by
    rcases Option.or_eq_some_iff.1 h with hfound | ⟨-, hhead⟩
    · exact List.mem_of_find?_eq_some hfound
    · exact List.mem_of_head? hhead
  simpa using hmem

theorem of_successor?_eq_none {added : List (Parameter × Nat)} {old p : Parameter} {place i : Nat}
    (h : successor? added old place = none) (hp : (p, i) ∈ added) : p.typeName ≠ old.typeName := by
  intro htype
  rw [successor?_eq] at h
  have hempty : added.filter (·.1.typeName == old.typeName) = [] :=
    List.head?_eq_none_iff.1 (Option.or_eq_none_iff.1 h).2
  have hmem : (p, i) ∈ added.filter (·.1.typeName == old.typeName) :=
    List.mem_filter.2 ⟨hp, by simpa using htype⟩
  rw [hempty] at hmem
  exact List.not_mem_nil hmem

/-- Taking the parameter at a place takes one parameter. -/
theorem perm_take {added : List (Parameter × Nat)} (h : (added.map Prod.snd).Nodup)
    {new : Parameter} {taken : Nat} (hnew : (new, taken) ∈ added) :
    added.Perm ((new, taken) :: added.filter (·.2 != taken)) := by
  have hfilter : added.filter (·.2 != taken) = added.erase (new, taken) := by
    rw [h.of_map.erase_eq_filter]
    refine List.filter_congr fun other hother => ?_
    have hinj : other.2 = taken ↔ other = (new, taken) :=
      ⟨fun heq => List.inj_on_of_nodup_map h hother hnew heq, fun heq => congrArg Prod.snd heq⟩
    rw [Bool.eq_iff_iff, bne_iff_ne, bne_iff_ne, ne_eq, ne_eq, hinj]
  rw [hfilter]
  exact List.perm_cons_erase hnew

/-- Every removed parameter is renamed or stays removed. -/
theorem perm_removed (removed added : List (Parameter × Nat)) :
    ((pairOff removed added).renamed.map Prod.fst ++ (pairOff removed added).removed).Perm
      (removed.map Prod.fst) := by
  fun_induction pairOff removed added with
  | case1 added => simp
  | case2 old place rest added new taken h outcome ih => exact ih.cons old
  | case3 old place rest added h outcome ih => exact List.perm_middle.trans (ih.cons old)

/-- Every added parameter is the new version of a renamed one or stays added. -/
theorem perm_added (removed : List (Parameter × Nat)) {added : List (Parameter × Nat)}
    (hplaces : (added.map Prod.snd).Nodup) :
    ((pairOff removed added).renamed.map Prod.snd ++ (pairOff removed added).added).Perm
      (added.map Prod.fst) := by
  fun_induction pairOff removed added with
  | case1 added => simp
  | case2 old place rest added new taken h outcome ih =>
    have htake := (perm_take hplaces (of_successor? h).1).map Prod.fst
    exact ((ih (hplaces.sublist (List.filter_sublist.map _))).cons new).trans htake.symm
  | case3 old place rest added h outcome ih => exact ih hplaces

theorem type_eq_of_renamed {removed added : List (Parameter × Nat)} {p q : Parameter}
    (h : (p, q) ∈ (pairOff removed added).renamed) : p.typeName = q.typeName := by
  fun_induction pairOff removed added with
  | case1 added => cases h
  | case2 old place rest added new taken hsome outcome ih =>
    rcases List.mem_cons.1 h with heq | hrest
    · obtain ⟨rfl, rfl⟩ := Prod.mk.inj heq
      exact (of_successor? hsome).2.symm
    · exact ih hrest
  | case3 old place rest added hnone outcome ih => exact ih h

/-- A parameter is only left over if there is none of its type to pair it with. -/
theorem type_ne_of_left_over {removed added : List (Parameter × Nat)}
    (hplaces : (added.map Prod.snd).Nodup) {p q : Parameter}
    (hp : p ∈ (pairOff removed added).removed) (hq : q ∈ (pairOff removed added).added) :
    p.typeName ≠ q.typeName := by
  fun_induction pairOff removed added with
  | case1 added => cases hp
  | case2 old place rest added new taken hsome outcome ih =>
    exact ih (hplaces.sublist (List.filter_sublist.map _)) hp hq
  | case3 old place rest added hnone outcome ih =>
    rcases List.mem_cons.1 hp with rfl | hrest
    · have hmem : q ∈ added.map Prod.fst :=
        (perm_added rest hplaces).subset (List.mem_append_right _ hq)
      obtain ⟨⟨_, i⟩, hadded, rfl⟩ := List.mem_map.1 hmem
      exact (of_successor?_eq_none hnone hadded).symm
    · exact ih hplaces hrest hq

/-! ### The parameters of one version only, and those of both -/

theorem mem_missingFrom {others parameters : List Parameter} {p : Parameter} {i : Nat} :
    (p, i) ∈ missingFrom others parameters ↔
      parameters[i]? = some p ∧ p.name ∉ others.map Parameter.name := by
  simp [missingFrom, List.mem_zipIdx_iff_getElem?]

/-- Parameters in the order of their places. -/
def InOrder (parameters : List (Parameter × Nat)) : Prop :=
  parameters.Pairwise fun x y => x.2 < y.2

theorem InOrder.nodup {parameters : List (Parameter × Nat)} (h : InOrder parameters) :
    (parameters.map Prod.snd).Nodup :=
  List.pairwise_map.2 (h.imp fun hlt => Nat.ne_of_lt hlt)

theorem inOrder_missingFrom (others parameters : List Parameter) :
    InOrder (missingFrom others parameters) := by
  have hplaces : (parameters.zipIdx.map Prod.snd).Pairwise (· < ·) := by
    rw [List.zipIdx_map_snd]
    exact List.pairwise_lt_range'
  exact (List.pairwise_map.1 hplaces).sublist List.filter_sublist

theorem nodup_places (others parameters : List Parameter) :
    ((missingFrom others parameters).map Prod.snd).Nodup :=
  (inOrder_missingFrom others parameters).nodup

theorem mem_missingFrom_fst {others parameters : List Parameter} {p : Parameter} :
    p ∈ (missingFrom others parameters).map Prod.fst ↔
      p ∈ parameters ∧ p.name ∉ others.map Parameter.name := by
  rw [List.mem_map, List.mem_iff_getElem?]
  constructor
  · rintro ⟨⟨_, i⟩, hmem, rfl⟩
    exact ⟨⟨i, (mem_missingFrom.1 hmem).1⟩, (mem_missingFrom.1 hmem).2⟩
  · rintro ⟨⟨i, hp⟩, hname⟩
    exact ⟨(p, i), mem_missingFrom.2 ⟨hp, hname⟩, rfl⟩

theorem nodup_missingFrom {others parameters : List Parameter}
    (h : (parameters.map Parameter.name).Nodup) :
    ((missingFrom others parameters).map Prod.fst).Nodup := by
  refine List.Nodup.sublist (List.filter_sublist.map _) ?_
  rw [List.zipIdx_map_fst]
  exact h.of_map

theorem mem_common {old new : List Parameter} (h : (new.map Parameter.name).Nodup)
    {p q : Parameter} :
    (p, q) ∈ common old new ↔ p ∈ old ∧ q ∈ new ∧ p.name = q.name := by
  simp only [common, List.mem_filterMap, Option.map_eq_some_iff, Prod.mk.injEq,
    exists_eq_right_right]
  constructor
  · rintro ⟨hp, hq⟩
    have hname : q.name = p.name := by simpa using List.find?_some hq
    exact ⟨hp, List.mem_of_find?_eq_some hq, hname.symm⟩
  · rintro ⟨hp, hq, hname⟩
    exact ⟨hp, hname ▸ find?_key_eq_some h hq⟩

/-- The names of a parameter list that another one has too, in order. -/
def sharedNames (parameters others : List Parameter) : List String :=
  (parameters.map Parameter.name).filter (others.map Parameter.name).contains

theorem mem_sharedNames {parameters others : List Parameter} {name : String} :
    name ∈ sharedNames parameters others ↔
      name ∈ parameters.map Parameter.name ∧ name ∈ others.map Parameter.name := by
  simp only [sharedNames, List.mem_filter, List.contains_iff_mem]

theorem names_common (old new : List Parameter) :
    (common old new).map (·.1.name) = sharedNames old new := by
  induction old with
  | nil => rfl
  | cons p rest ih =>
    have hrest : (common rest new).map (·.1.name) = sharedNames rest new := ih
    cases hfind : new.find? (·.name == p.name) with
    | none =>
      have hname : p.name ∉ new.map Parameter.name := by simpa using hfind
      simp_all [common, sharedNames]
    | some q =>
      have hname : p.name ∈ new.map Parameter.name :=
        List.mem_map.2 ⟨q, List.mem_of_find?_eq_some hfind, by simpa using List.find?_some hfind⟩
      simp_all [common, sharedNames]

theorem filter_contains_sharedNames (old new : List Parameter) :
    (new.map Parameter.name).filter (sharedNames old new).contains = sharedNames new old := by
  refine List.filter_congr fun name hname => ?_
  rw [Bool.eq_iff_iff, List.contains_iff_mem, List.contains_iff_mem, mem_sharedNames]
  exact ⟨fun h => h.1, fun h => ⟨h, hname⟩⟩

/-- A list of at most one shared name cannot change its order. -/
theorem two_le_of_sharedNames_ne {old new : List Parameter} (hold : (old.map Parameter.name).Nodup)
    (hnew : (new.map Parameter.name).Nodup) (hne : sharedNames old new ≠ sharedNames new old) :
    2 ≤ (sharedNames old new).length := by
  have hperm : (sharedNames old new).Perm (sharedNames new old) :=
    (List.perm_ext_iff_of_nodup (hold.filter _) (hnew.filter _)).2 fun _ =>
      (mem_sharedNames.trans and_comm).trans mem_sharedNames.symm
  rcases hshared : sharedNames old new with _ | ⟨name, _ | ⟨other, rest⟩⟩
  · rw [hshared] at hperm hne
    exact absurd (List.nil_perm.1 hperm).symm hne
  · rw [hshared] at hperm hne
    exact absurd (List.singleton_perm.1 hperm) hne
  · simp

theorem reorder?_eq {old new : List Parameter} (hold : (old.map Parameter.name).Nodup)
    (hnew : (new.map Parameter.name).Nodup) :
    reorder? (common old new) new =
      if sharedNames old new = sharedNames new old then none
      else some (reorder (sharedNames old new) (sharedNames new old)) := by
  have hlength : (common old new).length = (sharedNames old new).length := by
    rw [← names_common, List.length_map]
  simp only [reorder?, names_common, filter_contains_sharedNames, hlength]
  split <;> rename_i h
  · rw [if_neg (by simpa using (Bool.and_eq_true_iff.1 h).2)]
  · refine (if_pos (Classical.byContradiction fun hne => h ?_)).symm
    simpa [hne] using two_le_of_sharedNames_ne hold hnew hne

/-! ### The reported changes -/

variable {b a : Operation} {p q : Parameter}

/-- What became of the parameters that only one of two operations has. -/
def outcome (b a : Operation) : Outcome :=
  pairOff (missingFrom a.parameters b.parameters) (missingFrom b.parameters a.parameters)

theorem rename_mem_iff : rename p q ∈ ofOperations b a ↔ (p, q) ∈ (outcome b a).renamed := by
  simp [ofOperations, ofParameters, outcome, typeChanges, reorder?]

theorem remove_mem_iff : remove p ∈ ofOperations b a ↔ p ∈ (outcome b a).removed := by
  simp [ofOperations, ofParameters, outcome, typeChanges, reorder?]

theorem add_mem_iff : add q ∈ ofOperations b a ↔ q ∈ (outcome b a).added := by
  simp [ofOperations, ofParameters, outcome, typeChanges, reorder?]

theorem changeType_mem_iff (ha : (a.parameters.map Parameter.name).Nodup) :
    changeType p q ∈ ofOperations b a ↔
      p ∈ b.parameters ∧ q ∈ a.parameters ∧ p.name = q.name ∧ p.typeName ≠ q.typeName := by
  have hshared : changeType p q ∈ ofOperations b a ↔
      (p, q) ∈ common b.parameters a.parameters ∧ p.typeName ≠ q.typeName := by
    simp [ofOperations, ofParameters, typeChanges, reorder?]
  rw [hshared, mem_common ha, and_assoc, and_assoc]

theorem reorder_mem_iff (hb : (b.parameters.map Parameter.name).Nodup)
    (ha : (a.parameters.map Parameter.name).Nodup) {old new : List String} :
    reorder old new ∈ ofOperations b a ↔ old = sharedNames b.parameters a.parameters ∧
      new = sharedNames a.parameters b.parameters ∧ old ≠ new := by
  have horder : reorder old new ∈ ofOperations b a ↔
      reorder? (common b.parameters a.parameters) a.parameters = some (reorder old new) := by
    simp [ofOperations, ofParameters, typeChanges]
  rw [horder, reorder?_eq hb ha]
  split <;> rename_i h
  · constructor
    · intro hnone
      cases hnone
    · rintro ⟨rfl, rfl, hne⟩
      exact absurd h hne
  · simp only [Option.some.injEq, reorder.injEq]
    constructor
    · rintro ⟨rfl, rfl⟩
      exact ⟨rfl, rfl, h⟩
    · rintro ⟨rfl, rfl, -⟩
      exact ⟨rfl, rfl⟩

theorem changeReturnType_mem_iff {old new : Option String} :
    changeReturnType old new ∈ ofOperations b a ↔
      old = b.returnType ∧ new = a.returnType ∧ old ≠ new := by
  have hreturn : changeReturnType old new ∈ ofOperations b a ↔
      b.returnType ≠ a.returnType ∧ old = b.returnType ∧ new = a.returnType := by
    by_cases h : b.returnType = a.returnType <;>
      simp [ofOperations, ofParameters, typeChanges, reorder?, h]
  rw [hreturn]
  constructor
  · rintro ⟨hne, rfl, rfl⟩
    exact ⟨rfl, rfl, hne⟩
  · rintro ⟨rfl, rfl, hne⟩
    exact ⟨hne, rfl, rfl⟩

/-- Whether a change renames a parameter. -/
def renamesFrom (p : Parameter) : ParameterChange → Bool
  | rename old _ => old == p
  | _ => false

/-- Whether a change gives a parameter its name. -/
def renamesTo (q : Parameter) : ParameterChange → Bool
  | rename _ new => new == q
  | _ => false

/-- Whether a change removes a parameter. -/
def removes (p : Parameter) : ParameterChange → Bool
  | remove old => old == p
  | _ => false

/-- Whether a change adds a parameter. -/
def adds (q : Parameter) : ParameterChange → Bool
  | add new => new == q
  | _ => false

/-- The changes of types, of the order and of the return type say nothing about who came or went. -/
theorem countP_ofOperations (f : ParameterChange → Bool) (htype : ∀ p q, f (changeType p q) = false)
    (horder : ∀ old new, f (reorder old new) = false)
    (hreturn : ∀ old new, f (changeReturnType old new) = false) :
    (ofOperations b a).countP f = (outcome b a).renamed.countP (fun (p, q) => f (rename p q)) +
      (outcome b a).removed.countP (fun p => f (remove p)) +
      (outcome b a).added.countP (fun q => f (add q)) := by
  have htypes : (typeChanges (common b.parameters a.parameters)).countP f = 0 := by
    simp [typeChanges, htype]
  have horders :
      (reorder? (common b.parameters a.parameters) a.parameters).toList.countP f = 0 := by
    simp [reorder?, List.countP_eq_zero, horder]
  have hreturns : (if b.returnType == a.returnType then []
      else [changeReturnType b.returnType a.returnType]).countP f = 0 := by
    split <;> simp [hreturn]
  simp only [ofOperations, ofParameters, List.countP_append, htypes, horders, hreturns,
    List.countP_map, outcome]
  simp [Function.comp_def]

theorem count_gone :
    (ofOperations b a).countP (renamesFrom p) + (ofOperations b a).countP (removes p) =
    ((missingFrom a.parameters b.parameters).map Prod.fst).count p := by
  rw [← (perm_removed _ (missingFrom b.parameters a.parameters)).count_eq p, List.count_append,
    countP_ofOperations _ (fun _ _ => rfl) (fun _ _ => rfl) (fun _ _ => rfl),
    countP_ofOperations _ (fun _ _ => rfl) (fun _ _ => rfl) (fun _ _ => rfl)]
  simp [renamesFrom, removes, List.count, List.countP_map, Function.comp_def, outcome]

theorem count_fresh : (ofOperations b a).countP (renamesTo q) + (ofOperations b a).countP (adds q) =
    ((missingFrom b.parameters a.parameters).map Prod.fst).count q := by
  rw [← (perm_added (missingFrom a.parameters b.parameters) (nodup_places _ _)).count_eq q,
    List.count_append, countP_ofOperations _ (fun _ _ => rfl) (fun _ _ => rfl) (fun _ _ => rfl),
    countP_ofOperations _ (fun _ _ => rfl) (fun _ _ => rfl) (fun _ _ => rfl)]
  simp [renamesTo, adds, List.count, List.countP_map, Function.comp_def, outcome]

/-- What the reported changes say about the signatures of two operations. -/
structure Explains (b a : Operation) (changes : List ParameterChange) : Prop where
  /-- A parameter whose name is gone was renamed or removed, once and not both. -/
  gone : ∀ p ∈ b.parameters, p.name ∉ a.parameters.map Parameter.name →
    changes.countP (renamesFrom p) + changes.countP (removes p) = 1
  /-- A parameter whose name is new got it by a renaming or was added, once and not both. -/
  fresh : ∀ q ∈ a.parameters, q.name ∉ b.parameters.map Parameter.name →
    changes.countP (renamesTo q) + changes.countP (adds q) = 1
  /-- A renaming leads from a name that is gone to a new one and keeps the type. -/
  rename_sound : ∀ p q, rename p q ∈ changes →
    (p ∈ b.parameters ∧ p.name ∉ a.parameters.map Parameter.name) ∧
      (q ∈ a.parameters ∧ q.name ∉ b.parameters.map Parameter.name) ∧ p.typeName = q.typeName
  remove_sound : ∀ p, remove p ∈ changes →
    p ∈ b.parameters ∧ p.name ∉ a.parameters.map Parameter.name
  add_sound : ∀ q, add q ∈ changes → q ∈ a.parameters ∧ q.name ∉ b.parameters.map Parameter.name
  /-- What is left over on the two sides has no type in common. -/
  unlike : ∀ p q, remove p ∈ changes → add q ∈ changes → p.typeName ≠ q.typeName
  changeType_iff : ∀ p q, changeType p q ∈ changes ↔
    p ∈ b.parameters ∧ q ∈ a.parameters ∧ p.name = q.name ∧ p.typeName ≠ q.typeName
  reorder_iff : ∀ old new, reorder old new ∈ changes ↔ old = sharedNames b.parameters a.parameters ∧
    new = sharedNames a.parameters b.parameters ∧ old ≠ new
  changeReturnType_iff : ∀ old new, changeReturnType old new ∈ changes ↔
    old = b.returnType ∧ new = a.returnType ∧ old ≠ new

theorem explains_ofOperations (hb : (b.parameters.map Parameter.name).Nodup)
    (ha : (a.parameters.map Parameter.name).Nodup) : Explains b a (ofOperations b a) where
  gone p hp hname := by
    rw [count_gone]
    exact List.count_eq_one_of_mem (nodup_missingFrom hb) (mem_missingFrom_fst.2 ⟨hp, hname⟩)
  fresh q hq hname := by
    rw [count_fresh]
    exact List.count_eq_one_of_mem (nodup_missingFrom ha) (mem_missingFrom_fst.2 ⟨hq, hname⟩)
  rename_sound p q h := by
    have hmem := rename_mem_iff.1 h
    have hold := (perm_removed _ _).subset (List.mem_append_left _ (List.mem_map_of_mem hmem))
    have hnew := (perm_added _ (nodup_places _ _)).subset
      (List.mem_append_left _ (List.mem_map_of_mem hmem))
    exact ⟨mem_missingFrom_fst.1 hold, mem_missingFrom_fst.1 hnew, type_eq_of_renamed hmem⟩
  remove_sound p h := mem_missingFrom_fst.1
    ((perm_removed _ _).subset (List.mem_append_right _ (remove_mem_iff.1 h)))
  add_sound q h := mem_missingFrom_fst.1
    ((perm_added _ (nodup_places _ _)).subset (List.mem_append_right _ (add_mem_iff.1 h)))
  unlike p q hp hq :=
    type_ne_of_left_over (nodup_places _ _) (remove_mem_iff.1 hp) (add_mem_iff.1 hq)
  changeType_iff p q := changeType_mem_iff ha
  reorder_iff old new := reorder_mem_iff hb ha
  changeReturnType_iff old new := changeReturnType_mem_iff

/-- A parameter as its signature declares it. -/
def declared (p : Parameter) : String × Option String := (p.name, p.typeName)

namespace Explains

variable {changes : List ParameterChange}

/-- Signatures of which nothing is said agree place by place: no name came or went, so the shared
names are all the names, and these kept their order and their types. -/
theorem agree_of_nil (h : Explains b a []) :
    b.parameters.map declared = a.parameters.map declared ∧ b.returnType = a.returnType := by
  have hold : ∀ name ∈ b.parameters.map Parameter.name, name ∈ a.parameters.map Parameter.name := by
    intro name hname
    obtain ⟨p, hp, rfl⟩ := List.mem_map.1 hname
    by_contra hgone
    exact absurd (h.gone p hp hgone) (by simp)
  have hnew : ∀ name ∈ a.parameters.map Parameter.name, name ∈ b.parameters.map Parameter.name := by
    intro name hname
    obtain ⟨q, hq, rfl⟩ := List.mem_map.1 hname
    by_contra hfresh
    exact absurd (h.fresh q hq hfresh) (by simp)
  have hnames : b.parameters.map Parameter.name = a.parameters.map Parameter.name := by
    have hsame : sharedNames b.parameters a.parameters = sharedNames a.parameters b.parameters := by
      by_contra hne
      exact List.not_mem_nil ((h.reorder_iff _ _).2 ⟨rfl, rfl, hne⟩)
    rwa [sharedNames, sharedNames,
      List.filter_eq_self.2 fun name hname => List.contains_iff_mem.2 (hold name hname),
      List.filter_eq_self.2 fun name hname => List.contains_iff_mem.2 (hnew name hname)] at hsame
  have hlength : b.parameters.length = a.parameters.length := by
    simpa using congrArg List.length hnames
  constructor
  · refine List.ext_getElem (by simpa using hlength) fun i hi hi' => ?_
    rw [List.length_map] at hi hi'
    have hname : b.parameters[i].name = a.parameters[i].name := by
      simpa [hi, hi'] using congrArg (·[i]?) hnames
    have htype : b.parameters[i].typeName = a.parameters[i].typeName := by
      by_contra hne
      exact List.not_mem_nil
        ((h.changeType_iff _ _).2 ⟨List.getElem_mem hi, List.getElem_mem hi', hname, hne⟩)
    simp [declared, hname, htype]
  · by_contra hne
    exact List.not_mem_nil ((h.changeReturnType_iff _ _).2 ⟨rfl, rfl, hne⟩)

/-- Of signatures that agree nothing can be said. -/
theorem nil_of_agree (h : Explains b a changes) (ha : (a.parameters.map Parameter.name).Nodup)
    (hparameters : b.parameters.map declared = a.parameters.map declared)
    (hreturn : b.returnType = a.returnType) : changes = [] := by
  have hnames : b.parameters.map Parameter.name = a.parameters.map Parameter.name := by
    simpa [declared, Function.comp_def] using congrArg (List.map Prod.fst) hparameters
  refine List.eq_nil_iff_forall_not_mem.2 fun change hchange => ?_
  cases change with
  | add q =>
    obtain ⟨hq, hfresh⟩ := h.add_sound q hchange
    exact hfresh (hnames ▸ List.mem_map_of_mem hq)
  | remove p =>
    obtain ⟨hp, hgone⟩ := h.remove_sound p hchange
    exact hgone (hnames ▸ List.mem_map_of_mem hp)
  | rename p q =>
    obtain ⟨⟨hp, hgone⟩, -⟩ := h.rename_sound p q hchange
    exact hgone (hnames ▸ List.mem_map_of_mem hp)
  | changeType p q =>
    obtain ⟨hp, hq, hname, htype⟩ := (h.changeType_iff p q).1 hchange
    -- The parameter that stands in the place of `p` has its name, so it is `q`.
    have hmem : declared p ∈ a.parameters.map declared := hparameters ▸ List.mem_map_of_mem hp
    obtain ⟨r, hr, hdeclared⟩ := List.mem_map.1 hmem
    have hrq : r = q :=
      List.inj_on_of_nodup_map ha hr hq ((congrArg Prod.fst hdeclared).trans hname)
    exact htype (hrq ▸ (congrArg Prod.snd hdeclared).symm)
  | reorder old new =>
    obtain ⟨rfl, rfl, hne⟩ := (h.reorder_iff old new).1 hchange
    exact hne (by rw [sharedNames, sharedNames, hnames])
  | changeReturnType old new =>
    obtain ⟨rfl, rfl, hne⟩ := (h.changeReturnType_iff old new).1 hchange
    exact hne hreturn

end Explains

/-- **The changes of a signature account for all of it.**  The facts about a pair of operations are
the changes between their signatures.  If no operation has two parameters of one name, these explain
both signatures, and there are none of them exactly if the signatures agree. -/
theorem signature_explained (c : Comparison) (hb : (b.parameters.map Parameter.name).Nodup)
    (ha : (a.parameters.map Parameter.name).Nodup) :
    (c.signatureChanges b a).map Refactoring.fact = (ofOperations b a).map
        (Fact.parameterChange (c.before.operationRef b.id) (c.after.operationRef a.id)) ∧
    Explains b a (ofOperations b a) ∧
    (ofOperations b a = [] ↔
      b.parameters.map declared = a.parameters.map declared ∧ b.returnType = a.returnType) := by
  have hexplains := explains_ofOperations hb ha
  refine ⟨?_, hexplains, fun hnil => ?_, fun ⟨hparameters, hreturn⟩ => ?_⟩
  · simp [Comparison.signatureChanges, Comparison.operationRefs, Function.comp_def]
  · rw [hnil] at hexplains
    exact hexplains.agree_of_nil
  · exact hexplains.nil_of_agree ha hparameters hreturn

/-- One parameter is renamed, one removed, one added; two change places, and one of these its
type. -/
theorem signature_explained_mixed :
    let b : Operation := { (default : Operation) with
      parameters := [⟨"item", some "Item", 1⟩, ⟨"n", some "int", 2⟩, ⟨"log", some "Log", 3⟩,
        ⟨"k", none, 4⟩] }
    let a : Operation := { (default : Operation) with
      parameters := [⟨"k", none, 1⟩, ⟨"it", some "Item", 2⟩, ⟨"n", some "long", 3⟩,
        ⟨"on", some "bool", 4⟩] }
    Explains b a [changeType ⟨"n", some "int", 2⟩ ⟨"n", some "long", 3⟩,
      rename ⟨"item", some "Item", 1⟩ ⟨"it", some "Item", 2⟩, remove ⟨"log", some "Log", 3⟩,
      add ⟨"on", some "bool", 4⟩, reorder ["n", "k"] ["k", "n"]] := by
  intro b a
  have hexplains :=
    (signature_explained (b := b) (a := a) ⟨default, default, default, {}⟩ (by decide)
      (by decide)).2.1
  have hchanges : ofOperations b a = [changeType ⟨"n", some "int", 2⟩ ⟨"n", some "long", 3⟩,
      rename ⟨"item", some "Item", 1⟩ ⟨"it", some "Item", 2⟩, remove ⟨"log", some "Log", 3⟩,
      add ⟨"on", some "bool", 4⟩, reorder ["n", "k"] ["k", "n"]] := by decide
  rwa [hchanges] at hexplains

end Reshape.ParameterChange
