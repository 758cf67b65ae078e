import Mathlib
import Reshape.Tree.Rose

/-! # Forests

A forest is seen from two sides: going up, a node has at most one parent; going down, a parent lists
its children.  Numbered trees and work trees are forests in this sense, and so are the stages a work
tree passes through while it is edited.

A rank that grows on every way up excludes cycles.  The subtree at a node then unrolls to an ordered
tree (`Rose.Follows`), and the walks of the library, which keep a list of open nodes, visit the
nodes of that ordered tree in its preorder or its postorder.  From this come the facts that the
users of a walk need: it meets exactly the nodes that lead up to its start, each of them once, and
it meets parents before children, or children before parents. -/

namespace Reshape

/-- A parent function and lists of children that describe one forest. -/
structure IsForest (up : Nat → Option Nat) (down : Nat → List Nat) : Prop where
  mem_down : ∀ {c p}, c ∈ down p ↔ up c = some p
  nodup_down : ∀ p, (down p).Nodup

/-- The rank grows on every way up. -/
def Climbs (up : Nat → Option Nat) (rank : Nat → Nat) : Prop :=
  ∀ c p, up c = some p → rank c < rank p

/-- Going up from one node leads to another one. -/
def Leads (up : Nat → Option Nat) (a b : Nat) : Prop :=
  Relation.ReflTransGen (fun c p => up c = some p) a b

namespace Leads

variable {up : Nat → Option Nat} {rank : Nat → Nat} {a b c : Nat}

theorem refl (a : Nat) : Leads up a a :=
  Relation.ReflTransGen.refl

theorem trans (h : Leads up a b) (h' : Leads up b c) : Leads up a c :=
  Relation.ReflTransGen.trans h h'

theorem step (h : up a = some b) (h' : Leads up b c) : Leads up a c :=
  Relation.ReflTransGen.head h h'

theorem single (h : up a = some b) : Leads up a b :=
  step h (refl b)

theorem eq_or_step (h : Leads up a b) : a = b ∨ ∃ p, up a = some p ∧ Leads up p b := by
  rcases Relation.ReflTransGen.cases_head h with h | ⟨p, hp, h⟩
  · exact Or.inl h
  · exact Or.inr ⟨p, hp, h⟩

/-- There is one way up, so what lies on it is comparable. -/
theorem comparable (h : Leads up a b) (h' : Leads up a c) : Leads up b c ∨ Leads up c b :=
  Relation.ReflTransGen.total_of_right_unique
    (fun _ _ _ hb hc => Option.some.inj (hb.symm.trans hc)) h h'

theorem rank_le (hr : Climbs up rank) (h : Leads up a b) : rank a ≤ rank b := by
  induction h with
  | refl => exact Nat.le_refl _
  | tail _ hp ih => exact Nat.le_trans ih (Nat.le_of_lt (hr _ _ hp))

end Leads

namespace Rose

variable {α : Type}

theorem preorderAll_eq (roses : List (Rose α)) : preorderAll roses = roses.flatMap preorder := by
  induction roses with
  | nil => rfl
  | cons rose roses ih => rw [preorderAll, ih, List.flatMap_cons]

theorem postorderAll_eq (roses : List (Rose α)) :
    postorderAll roses = roses.flatMap postorder := by
  induction roses with
  | nil => rfl
  | cons rose roses ih => rw [postorderAll, ih, List.flatMap_cons]

theorem preorder_node (value : α) (below : List (Rose α)) :
    preorder (.node value below) = value :: below.flatMap preorder := by
  rw [preorder, preorderAll_eq]

theorem postorder_node (value : α) (below : List (Rose α)) :
    postorder (.node value below) = below.flatMap postorder ++ [value] := by
  rw [postorder, postorderAll_eq]

@[simp] theorem value_node (value : α) (below : List (Rose α)) :
    (Rose.node value below).value = value := rfl

theorem value_mem_preorder (rose : Rose α) : rose.value ∈ rose.preorder := by
  cases rose with
  | node value below => rw [preorder_node]; exact List.mem_cons_self ..

/-- An ordered tree that unrolls from the children of its nodes. -/
inductive Follows (down : Nat → List Nat) : Rose Nat → Prop
  | node {value : Nat} {below : List (Rose Nat)} (values : below.map Rose.value = down value)
      (all : ∀ rose ∈ below, Follows down rose) : Follows down (.node value below)

namespace Follows

variable {up : Nat → Option Nat} {down : Nat → List Nat} {rank : Nat → Nat} {rose : Rose Nat}

/-- Without cycles the subtree at every node unrolls to an ordered tree. -/
theorem exists_of_climbs (hf : IsForest up down) (hr : Climbs up rank) (id : Nat) :
    ∃ rose : Rose Nat, rose.value = id ∧ rose.Follows down := by
  induction hn : rank id using Nat.strongRecOn generalizing id with
  | ind n ih =>
    have unroll : ∀ ids : List Nat, (∀ c ∈ ids, c ∈ down id) →
        ∃ roses : List (Rose Nat), roses.map Rose.value = ids ∧
          ∀ rose ∈ roses, rose.Follows down := by
      intro ids
      induction ids with
      | nil => exact fun _ => ⟨[], rfl, fun _ h => absurd h List.not_mem_nil⟩
      | cons c ids ihl =>
        intro hsub
        have hc := hr _ _ (hf.mem_down.1 (hsub c (List.mem_cons_self ..)))
        obtain ⟨rose, hv, hrose⟩ := ih (rank c) (hn ▸ hc) c rfl
        obtain ⟨roses, hvs, hroses⟩ := ihl fun x hx => hsub x (List.mem_cons_of_mem _ hx)
        refine ⟨rose :: roses, by rw [List.map_cons, hv, hvs], ?_⟩
        intro r hmem
        rcases List.mem_cons.1 hmem with rfl | hmem
        · exact hrose
        · exact hroses r hmem
    obtain ⟨roses, hvs, hroses⟩ := unroll (down id) fun _ h => h
    exact ⟨.node id roses, rfl, .node hvs hroses⟩

theorem perm_postorder (h : rose.Follows down) : rose.postorder.Perm rose.preorder := by
  induction h with
  | @node value below _ _ ih =>
    rw [preorder_node, postorder_node]
    refine (List.perm_append_singleton _ _).trans (List.Perm.cons _ ?_)
    exact List.Perm.flatMap_left _ fun rose hrose => ih rose hrose

/-- The nodes of an unrolled subtree are those that lead up to its top. -/
theorem mem_preorder (hf : IsForest up down) (h : rose.Follows down) {id : Nat} :
    id ∈ rose.preorder ↔ Leads up id rose.value := by
  constructor
  · intro hid
    induction h with
    | @node value below hvalues _ ih =>
      rw [preorder_node] at hid
      rcases List.mem_cons.1 hid with rfl | hid
      · exact Leads.refl _
      · obtain ⟨rose, hrose, hid⟩ := List.mem_flatMap.1 hid
        have hmem : rose.value ∈ down value := hvalues ▸ List.mem_map_of_mem hrose
        exact (ih rose hrose hid).trans (Leads.single (hf.mem_down.1 hmem))
  · -- The nodes of the subtree are closed under children.
    have closed : ∀ {c p : Nat}, p ∈ rose.preorder → c ∈ down p → c ∈ rose.preorder := by
      intro c p hp hc
      induction h with
      | @node value below hvalues _ ih =>
        rw [preorder_node] at hp ⊢
        refine List.mem_cons_of_mem _ (List.mem_flatMap.2 ?_)
        rcases List.mem_cons.1 hp with rfl | hp
        · rw [← hvalues] at hc
          obtain ⟨rose, hrose, rfl⟩ := List.mem_map.1 hc
          exact ⟨rose, hrose, rose.value_mem_preorder⟩
        · obtain ⟨rose, hrose, hp⟩ := List.mem_flatMap.1 hp
          exact ⟨rose, hrose, ih rose hrose hp⟩
    intro hid
    induction hid using Relation.ReflTransGen.head_induction_on with
    | refl => exact rose.value_mem_preorder
    | head hp _ ih => exact closed ih (hf.mem_down.2 hp)

/-- The subtrees of two siblings have no node in common. -/
theorem siblings_disjoint (hf : IsForest up down) (hr : Climbs up rank) {a b p id : Nat}
    (ha : a ∈ down p) (hb : b ∈ down p) (hida : Leads up id a) (hidb : Leads up id b) : a = b := by
  have key : ∀ {a b : Nat}, a ∈ down p → b ∈ down p → Leads up a b → a = b := by
    intro a b ha hb h
    rcases h.eq_or_step with rfl | ⟨q, hq, h⟩
    · rfl
    · have hpq : q = p := Option.some.inj (hq.symm.trans (hf.mem_down.1 ha))
      have hlt := hr _ _ (hf.mem_down.1 hb)
      have hle := (hpq ▸ h).rank_le hr
      omega
  rcases hida.comparable hidb with h | h
  · exact key ha hb h
  · exact (key hb ha h).symm

theorem nodup_preorder (hf : IsForest up down) (hr : Climbs up rank) (h : rose.Follows down) :
    rose.preorder.Nodup := by
  induction h with
  | @node value below hvalues hall ih =>
    rw [preorder_node]
    have hmem : ∀ rose ∈ below, rose.value ∈ down value := fun rose hrose =>
      hvalues ▸ List.mem_map_of_mem hrose
    refine List.nodup_cons.2 ⟨?_, List.nodup_flatMap.2 ⟨ih, ?_⟩⟩
    · intro hv
      obtain ⟨rose, hrose, hv⟩ := List.mem_flatMap.1 hv
      have hle := (((hall rose hrose).mem_preorder hf).1 hv).rank_le hr
      have hlt := hr _ _ (hf.mem_down.1 (hmem rose hrose))
      omega
    · have hnd : (below.map Rose.value).Nodup := hvalues ▸ hf.nodup_down value
      refine (List.pairwise_map.1 hnd).imp_of_mem ?_
      intro r r' hr₁ hr₂ hne
      refine List.disjoint_left.2 fun id hid hid' => hne ?_
      exact siblings_disjoint hf hr (hmem r hr₁) (hmem r' hr₂)
        (((hall r hr₁).mem_preorder hf).1 hid) (((hall r' hr₂).mem_preorder hf).1 hid')

/-- A walk that keeps open nodes, marked once their children have been opened, visits the postorder
of the subtrees at the nodes that are not marked. -/
theorem postorder_walk {walk : Nat → List (Nat × Bool) → List Nat}
    (hnil : ∀ fuel, walk fuel [] = [])
    (hmarked : ∀ fuel id rest, walk (fuel + 1) ((id, true) :: rest) = id :: walk fuel rest)
    (hopen : ∀ fuel id rest, walk (fuel + 1) ((id, false) :: rest) =
      walk fuel ((down id).map (·, false) ++ (id, true) :: rest))
    (fuel : Nat) (items : List (Rose Nat × Bool)) (hall : ∀ item ∈ items, item.1.Follows down)
    (hfuel : (items.map fun item => if item.2 then 1 else 2 * item.1.preorder.length).sum ≤ fuel) :
    walk fuel (items.map fun item => (item.1.value, item.2)) =
      items.flatMap fun item => if item.2 then [item.1.value] else item.1.postorder := by
  induction fuel generalizing items with
  | zero =>
    cases items with
    | nil => rw [List.map_nil, hnil]; rfl
    | cons item items =>
      have hpos := List.length_pos_of_mem item.1.value_mem_preorder
      rw [List.map_cons, List.sum_cons] at hfuel
      cases hmark : item.2 <;> simp only [hmark, Bool.false_eq_true, ↓reduceIte] at hfuel <;> omega
  | succ fuel ih =>
    rcases items with - | ⟨⟨⟨value, below⟩, marked⟩, items⟩
    · rw [List.map_nil, hnil]; rfl
    · have hrest := fun item h => hall item (List.mem_cons_of_mem _ h)
      cases marked with
      | true =>
        simp only [List.map_cons, List.sum_cons, ↓reduceIte] at hfuel
        simp only [List.map_cons, List.flatMap_cons, value_node, ↓reduceIte]
        rw [hmarked, ih items hrest (by omega)]
        rfl
      | false =>
        obtain ⟨hvalues, hbelow⟩ := hall _ (List.mem_cons_self ..)
        -- Opening the node puts its children, and then the node itself, before the rest.
        have hstack : (down value).map (·, false) ++ (value, true) ::
              items.map (fun item => (item.1.value, item.2)) =
            (below.map (·, false) ++ (.node value below, true) :: items).map
              (fun item => (item.1.value, item.2)) := by
          rw [← hvalues]
          simp [Function.comp_def]
        have hfollows : ∀ item ∈ below.map (·, false) ++ (.node value below, true) :: items,
            item.1.Follows down := by
          intro item hitem
          rcases List.mem_append.1 hitem with hitem | hitem
          · obtain ⟨rose, hrose, rfl⟩ := List.mem_map.1 hitem
            exact hbelow rose hrose
          · rcases List.mem_cons.1 hitem with rfl | hitem
            · exact .node hvalues hbelow
            · exact hrest item hitem
        simp only [List.map_cons, List.sum_cons, Bool.false_eq_true, ↓reduceIte, preorder_node,
          List.length_cons, List.length_flatMap] at hfuel
        rw [List.map_cons, hopen, value_node, hstack, ih _ hfollows]
        · simp [postorder_node, List.flatMap_map]
        · simp only [List.map_append, List.map_map, List.map_cons, List.sum_append, List.sum_cons,
            Function.comp_def, Bool.false_eq_true, ↓reduceIte, List.sum_map_mul_left]
          omega

/-- The first place of an element in a list that is put together from parts. -/
theorem flatMap_split {α β : Type} {f : α → List β} {l : List α} {seen rest : List β} {x : β}
    (h : l.flatMap f = seen ++ x :: rest) :
    ∃ left a right seen' rest', l = left ++ a :: right ∧ f a = seen' ++ x :: rest' ∧
      seen = left.flatMap f ++ seen' := by
  induction l generalizing seen with
  | nil => simp at h
  | cons a l ih =>
    rw [List.flatMap_cons] at h
    rcases List.append_eq_append_iff.1 h with ⟨mid, hseen, hl⟩ | ⟨mid, hfa, hrest⟩
    · obtain ⟨left, b, right, seen', rest', rfl, hfb, rfl⟩ := ih hl
      exact ⟨a :: left, b, right, seen', rest', rfl, hfb, by
        rw [hseen, List.flatMap_cons, List.append_assoc]⟩
    · cases mid with
      | nil =>
        rw [List.nil_append] at hrest
        obtain ⟨left, b, right, seen', rest', rfl, hfb, hnil⟩ := @ih [] hrest.symm
        obtain ⟨hleft, rfl⟩ := List.append_eq_nil_iff.1 hnil.symm
        exact ⟨a :: left, b, right, [], rest', rfl, hfb, by
          rw [List.flatMap_cons, hleft, hfa]; simp⟩
      | cons y mid =>
        obtain ⟨rfl, -⟩ := List.cons.inj hrest
        exact ⟨[], a, l, seen, mid, rfl, hfa, rfl⟩

/-- In postorder the children of a node come before it. -/
theorem mem_seen_of_postorder (h : rose.Follows down) {seen rest : List Nat} {p c : Nat}
    (hs : rose.postorder = seen ++ p :: rest) (hc : c ∈ down p) : c ∈ seen := by
  induction h generalizing seen rest with
  | @node value below hvalues hall ih =>
    rw [postorder_node] at hs
    rcases List.eq_nil_or_concat rest with rfl | ⟨rest', last, rfl⟩
    · obtain ⟨rfl, hp⟩ := List.append_inj' hs rfl
      obtain rfl : value = p := by simpa using hp
      rw [← hvalues] at hc
      obtain ⟨rose, hrose, rfl⟩ := List.mem_map.1 hc
      refine List.mem_flatMap.2 ⟨rose, hrose, ?_⟩
      exact (hall rose hrose).perm_postorder.mem_iff.2 rose.value_mem_preorder
    · rw [List.concat_eq_append, ← List.cons_append, ← List.append_assoc] at hs
      obtain ⟨hbelow, -⟩ := List.append_inj' hs rfl
      obtain ⟨left, rose, right, seen', rest', rfl, hsplit, rfl⟩ := flatMap_split hbelow
      exact List.mem_append_right _ (ih rose (by simp) hsplit)

/-- In preorder the parent of a node comes before it. -/
theorem mem_seen_of_preorder (hf : IsForest up down) (h : rose.Follows down)
    {seen rest : List Nat} {c : Nat} (hs : rose.preorder = seen ++ c :: rest)
    (hc : c ≠ rose.value) : ∃ p ∈ seen, up c = some p := by
  induction h generalizing seen rest with
  | @node value below hvalues hall ih =>
    rw [preorder_node] at hs
    cases seen with
    | nil => exact absurd (List.cons.inj hs).1.symm hc
    | cons v seen =>
      rw [List.cons_append] at hs
      obtain ⟨rfl, hbelow⟩ := List.cons.inj hs
      obtain ⟨left, rose, right, seen', rest', rfl, hsplit, rfl⟩ := flatMap_split hbelow
      have hrose : rose ∈ left ++ rose :: right := by simp
      by_cases hcv : c = rose.value
      · have hmem : c ∈ down value := hvalues ▸ hcv ▸ List.mem_map_of_mem hrose
        exact ⟨value, List.mem_cons_self .., hf.mem_down.1 hmem⟩
      · obtain ⟨p, hp, hup⟩ := ih rose hrose hsplit hcv
        exact ⟨p, List.mem_cons_of_mem _ (List.mem_append_right _ hp), hup⟩

end Follows

end Rose

end Reshape
