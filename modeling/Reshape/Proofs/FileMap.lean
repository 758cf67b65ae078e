import Mathlib
import Reshape.FileMap

/-! # Paths and file maps

Two paths are the same if their components are, and the order of paths is one of their components.
A file map made of a list holds its paths in strictly ascending order, so every path once. -/

namespace Reshape

/-! ### The order of paths -/

instance : Std.TransOrd PathComponent :=
  inferInstanceAs (Std.TransCmp (compareLex (compareOn fun c : PathComponent => c.key.1)
    (compareOn fun c => c.key.2)))

namespace Path

variable {a b : Path}

theorem beq_iff : (a == b) = true ↔ a.components = b.components := by
  show (a.components == b.components) = true ↔ _
  exact beq_iff_eq

instance : EquivBEq Path where
  rfl := beq_iff.2 rfl
  symm h := beq_iff.2 (beq_iff.1 h).symm
  trans h h' := beq_iff.2 ((beq_iff.1 h).trans (beq_iff.1 h'))

instance : Std.TransOrd Path :=
  inferInstanceAs (Std.TransCmp (compareOn Path.components))

theorem beq_eq_false_of_lt (h : compare a b = .lt) : (a == b) = false := by
  refine Bool.eq_false_iff.2 fun heq => ?_
  have hself : compare a b = .eq := by
    show compare a.components b.components = .eq
    rw [beq_iff.1 heq]
    exact Std.ReflCmp.compare_self
  rw [h] at hself
  cases hself

end Path

/-! ### Looking up a path -/

namespace FileMap

variable {α : Type} {map : FileMap α} {path other : Path}

theorem get?_congr (h : (path == other) = true) : map.get? path = map.get? other := by
  have hsame : (fun entry : Path × α => entry.1 == path) = fun entry => entry.1 == other :=
    funext fun entry => Bool.eq_iff_iff.2
      ⟨fun h' => BEq.trans h' h, fun h' => BEq.trans h' (BEq.symm h)⟩
  rw [get?, get?, hsame]

theorem contains_congr (h : (path == other) = true) : map.contains path = map.contains other := by
  rw [contains, contains, get?_congr h]

theorem exists_of_get? {value : α} (h : map.get? path = some value) :
    ∃ stored, (stored, value) ∈ map.entries ∧ (stored == path) = true := by
  obtain ⟨⟨stored, value⟩, hentry, rfl⟩ := Option.map_eq_some_iff.1 h
  have hsame := List.find?_some hentry
  exact ⟨stored, List.mem_of_find?_eq_some hentry, hsame⟩

theorem contains_of_mem {value : α} (h : (path, value) ∈ map.entries) :
    map.contains path = true := by
  rw [contains, get?, Option.isSome_map, List.find?_isSome]
  exact ⟨(path, value), h, BEq.rfl⟩

theorem contains_of_mem_paths (h : path ∈ map.paths) : map.contains path = true := by
  obtain ⟨⟨path, value⟩, hentry, rfl⟩ := List.mem_map.1 h
  exact contains_of_mem hentry

/-! ### The order of the entries -/

/-- A map whose paths ascend. -/
def Ordered (map : FileMap α) : Prop :=
  map.entries.Pairwise fun a b => compare a.1 b.1 = .lt

theorem mem_insertInto {value : α} {entries : List (Path × α)} {entry : Path × α}
    (h : entry ∈ insertInto path value entries) :
    entry.1 = path ∨ ∃ old ∈ entries, entry.1 = old.1 := by
  induction entries with
  | nil =>
    obtain rfl := List.mem_singleton.1 h
    exact Or.inl rfl
  | cons head rest ih =>
    obtain ⟨p, v⟩ := head
    rw [insertInto] at h
    split at h
    · rcases List.mem_cons.1 h with rfl | h
      · exact Or.inl rfl
      · exact Or.inr ⟨entry, h, rfl⟩
    · rcases List.mem_cons.1 h with rfl | h
      · exact Or.inr ⟨(p, v), List.mem_cons_self .., rfl⟩
      · exact Or.inr ⟨entry, List.mem_cons_of_mem _ h, rfl⟩
    · rcases List.mem_cons.1 h with rfl | h
      · exact Or.inr ⟨(p, v), List.mem_cons_self .., rfl⟩
      · exact (ih h).imp_right fun ⟨old, hold, heq⟩ => ⟨old, List.mem_cons_of_mem _ hold, heq⟩

theorem Ordered.insert (h : map.Ordered) (path : Path) (value : α) :
    (map.insert path value).Ordered := by
  obtain ⟨entries⟩ := map
  show (insertInto path value entries).Pairwise _
  induction entries with
  | nil => exact List.pairwise_singleton _ _
  | cons head rest ih =>
    obtain ⟨p, v⟩ := head
    obtain ⟨hhead, hrest⟩ := List.pairwise_cons.1 h
    rw [insertInto]
    split
    · rename_i hlt
      refine List.pairwise_cons.2 ⟨fun entry hentry => ?_, h⟩
      rcases List.mem_cons.1 hentry with rfl | hentry
      · exact hlt
      · exact Std.TransCmp.lt_trans hlt (hhead entry hentry)
    · exact List.pairwise_cons.2 ⟨hhead, hrest⟩
    · rename_i hgt
      refine List.pairwise_cons.2 ⟨fun entry hentry => ?_, ih hrest⟩
      rcases mem_insertInto hentry with heq | ⟨old, hold, heq⟩ <;> rw [heq]
      · exact Std.OrientedCmp.gt_iff_lt.1 hgt
      · exact hhead old hold

theorem ordered_ofList (entries : List (Path × α)) : (ofList entries).Ordered := by
  suffices hfold : ∀ map : FileMap α, map.Ordered →
      (entries.foldl (fun map entry => map.insert entry.1 entry.2) map).Ordered from
    hfold empty List.Pairwise.nil
  induction entries with
  | nil => exact fun _ h => h
  | cons entry rest ih => exact fun map h => ih _ (h.insert entry.1 entry.2)

end FileMap

end Reshape
