import Mathlib
import Reshape.Text.Distance
import Reshape.Proofs.Text.Edits
import Reshape.Proofs.Similarity.Rounding

/-! # The edit distance is the least number of edits

The row of a prefix of the first sequence holds the least number of edits to every prefix of the
second.  The prefixes are written from their ends, since that is where a row and a cell extend
them. -/

namespace Reshape.Text

variable {α : Type} [DecidableEq α] {read ys : List α} {x y : α} {j : Nat}

/-- The first cells of a row hold the least numbers of edits from `read` to the prefixes of `ys`. -/
def HoldsLeast (read ys : List α) (row : Array Nat) (count : Nat) : Prop :=
  ∀ j < count, row[j]? = some (leastEdits read (ys.take j).reverse)

theorem HoldsLeast.getD {row : Array Nat} {count : Nat} (h : HoldsLeast read ys row count)
    (hj : j < count) : row.getD j 0 = leastEdits read (ys.take j).reverse := by
  rw [Array.getD_eq_getD_getElem?, h j hj, Option.getD_some]

namespace DistanceRows

variable {rows : DistanceRows}

/-- The row before is that of `read`, and the one that is filled is that of `next` up to `count`. -/
structure Rolling (read next ys : List α) (rows : DistanceRows) (count : Nat) : Prop where
  before : HoldsLeast read ys rows.before (ys.length + 1)
  filling : HoldsLeast next ys rows.filling count
  size_before : rows.before.size = ys.length + 1
  size_filling : rows.filling.size = ys.length + 1

theorem rolling_start (next ys : List α) : Rolling [] next ys (start ys.length) 0 := by
  refine ⟨fun j hj => ?_, fun j hj => absurd hj (Nat.not_lt_zero j), Array.size_range,
    Array.size_replicate⟩
  rw [start, leastEdits_nil_left, List.length_reverse, List.length_take, Nat.min_eq_left (by omega)]
  simp [hj]

namespace Rolling

/-- The first cell is that of the empty prefix. -/
theorem first (h : Rolling read (x :: read) ys rows 0) : Rolling read (x :: read) ys
    { rows with filling := rows.filling.setIfInBounds 0 (read.length + 1) } 1 := by
  refine ⟨h.before, fun j hj => ?_, h.size_before,
    (Array.size_setIfInBounds ..).trans h.size_filling⟩
  obtain rfl : j = 0 := by omega
  simp [h.size_filling]

/-- One more cell. -/
theorem fill (h : Rolling read (x :: read) ys rows (j + 1)) (hy : ys[j]? = some y) :
    Rolling read (x :: read) ys (rows.fill x y j) (j + 2) := by
  obtain ⟨hj, -⟩ := List.getElem?_eq_some_iff.1 hy
  have htake : (ys.take (j + 1)).reverse = y :: (ys.take j).reverse := by
    rw [List.take_add_one, hy, Option.toList_some, List.reverse_append, List.reverse_singleton,
      List.singleton_append]
  refine ⟨h.before, fun k hk => ?_, h.size_before,
    (Array.size_setIfInBounds ..).trans h.size_filling⟩
  simp only [DistanceRows.fill, Array.getElem?_setIfInBounds]
  by_cases hlast : j + 1 = k
  · subst hlast
    rw [if_pos rfl, if_pos (by rw [h.size_filling]; omega), h.before.getD (by omega),
      h.filling.getD (by omega), h.before.getD (by omega), htake, leastEdits_cons_cons]
  · rw [if_neg hlast]
    exact h.filling k (by omega)

/-- Filling from a position on ends with a row that is right. -/
theorem foldl_fill {rest : List α} (hrest : ys.drop j = rest)
    (h : Rolling read (x :: read) ys rows (j + 1)) :
    Rolling read (x :: read) ys ((rest.zipIdx j).foldl (fun rows (y, j) => rows.fill x y j) rows)
      (ys.length + 1) := by
  induction rest generalizing j rows with
  | nil =>
    have hend : ys.length ≤ j := List.drop_eq_nil_iff.1 hrest
    exact ⟨h.before, fun k hk => h.filling k (by omega), h.size_before, h.size_filling⟩
  | cons y rest ih =>
    have hy : ys[j]? = some y := by rw [← List.head?_drop, hrest, List.head?_cons]
    have htail : ys.drop (j + 1) = rest := by rw [← List.tail_drop, hrest, List.tail_cons]
    rw [List.zipIdx_cons, List.foldl_cons]
    exact ih htail (h.fill hy)

/-- The filled row is the row before of the next element. -/
theorem swap {next : List α} (h : Rolling read next ys rows (ys.length + 1)) (other : List α) :
    Rolling next other ys rows.swap 0 :=
  ⟨h.filling, fun j hj => absurd hj (Nat.not_lt_zero j), h.size_filling, h.size_before⟩

/-- The last row is that of the whole first sequence. -/
theorem holdsLeast_foldl (xs : List α) (h : ∀ next, Rolling read next ys rows 0) :
    HoldsLeast (xs.reverse ++ read) ys ((xs.zipIdx read.length).foldl
      (fun rows (x, i) => (rows.fillRow ys x i).swap) rows).before (ys.length + 1) := by
  induction xs generalizing read rows with
  | nil => exact (h []).before
  | cons x xs ih =>
    have hfilled : Rolling read (x :: read) ys (rows.fillRow ys x read.length) (ys.length + 1) :=
      (h (x :: read)).first.foldl_fill List.drop_zero
    rw [List.zipIdx_cons, List.foldl_cons, List.reverse_cons, List.append_assoc,
      List.singleton_append]
    exact ih hfilled.swap

end Rolling

end DistanceRows

theorem distance_eq_leastEdits (xs ys : List α) : distance xs ys = leastEdits xs ys := by
  rw [distance]
  split
  · rename_i hxs
    rw [List.isEmpty_iff.1 hxs, leastEdits_nil_left]
  · split
    · rename_i hys
      rw [List.isEmpty_iff.1 hys, leastEdits_nil_right]
    · have hlast := DistanceRows.Rolling.holdsLeast_foldl xs
        fun next => DistanceRows.rolling_start next ys
      rw [List.append_nil] at hlast
      exact (hlast.getD (by omega)).trans
        (by rw [List.take_length, leastEdits_reverse])

theorem editDistance_eq_leastEdits (a b : String) :
    editDistance a b = leastEdits a.toList b.toList :=
  distance_eq_leastEdits a.toList b.toList

theorem editDistance_self (text : String) : editDistance text text = 0 := by
  rw [editDistance_eq_leastEdits, leastEdits_self]

theorem editDistance_eq_zero_iff {a b : String} : editDistance a b = 0 ↔ a = b := by
  rw [editDistance_eq_leastEdits, leastEdits_eq_zero_iff, String.toList_inj]

theorem editDistance_le_max (a b : String) : editDistance a b ≤ max a.length b.length := by
  rw [editDistance_eq_leastEdits, ← String.length_toList, ← String.length_toList]
  exact leastEdits_le_max a.toList b.toList

theorem length_le_editDistance (a b : String) : a.length ≤ b.length + editDistance a b := by
  rw [editDistance_eq_leastEdits, ← String.length_toList, ← String.length_toList]
  exact (editsIn_leastEdits a.toList b.toList).length_le

theorem editDistance_comm (a b : String) : editDistance a b = editDistance b a := by
  rw [editDistance_eq_leastEdits, editDistance_eq_leastEdits, leastEdits_comm]

theorem editDistance_triangle (a b c : String) :
    editDistance a c ≤ editDistance a b + editDistance b c := by
  simp only [editDistance_eq_leastEdits]
  exact leastEdits_triangle a.toList b.toList c.toList

/-- The edit distance is the least number of insertions, deletions and substitutions of one
character that turn the first text into the second.  It is a metric, it lies between the difference
and the maximum of the lengths, and in proportion to a longer text whose length fits a machine word
it is at most one. -/
theorem editDistance_least_edits (a b : String) :
    IsLeast {n | EditsIn n a.toList b.toList} (editDistance a b) ∧
      editDistance a b = editDistance b a ∧
      (editDistance a b = 0 ↔ a = b) ∧
      (∀ c, editDistance a c ≤ editDistance a b + editDistance b c) ∧
      max a.length b.length - min a.length b.length ≤ editDistance a b ∧
      editDistance a b ≤ max a.length b.length ∧
      (0 < max a.length b.length → max a.length b.length < 2 ^ 64 →
        Similarity.ratio (editDistance a b) (max a.length b.length) ≤ 1.0) := by
  have hmost := editDistance_le_max a b
  refine ⟨?_, editDistance_comm a b, editDistance_eq_zero_iff, editDistance_triangle a b, ?_, hmost,
    Similarity.ratio_le_one hmost⟩
  · rw [editDistance_eq_leastEdits]
    exact isLeast_leastEdits a.toList b.toList
  · have hleft := length_le_editDistance a b
    have hright := length_le_editDistance b a
    rw [editDistance_comm b a] at hright
    omega

theorem editDistance_least_edits_kitten :
    editDistance "kitten" "sitting" = 3 ∧ max "kitten".length "sitting".length = 7 ∧
      IsLeast {n | EditsIn n "kitten".toList "sitting".toList} 3 ∧ Similarity.ratio 3 7 ≤ 1.0 := by
  have hdistance : editDistance "kitten" "sitting" = 3 := by decide +kernel
  have hlength : max "kitten".length "sitting".length = 7 := by decide
  obtain ⟨hleast, -, -, -, -, -, hratio⟩ := editDistance_least_edits "kitten" "sitting"
  rw [hdistance] at hleast hratio
  rw [hlength] at hratio
  exact ⟨hdistance, hlength, hleast, hratio (by decide) (by decide)⟩

end Reshape.Text
