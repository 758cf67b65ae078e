import Mathlib

/-! # Turning one sequence into another

A single edit inserts, deletes or substitutes one element anywhere in a sequence.  The least number
of single edits between two sequences satisfies the recurrence on their first elements: `leastEdits`
is that recurrence, it is reached by some edits, and one edit changes its value by at most one. -/

namespace Reshape.Text

variable {α : Type}

/-- One element is inserted, deleted or substituted. -/
inductive SingleEdit : List α → List α → Prop where
  | insert (left right : List α) (x : α) : SingleEdit (left ++ right) (left ++ x :: right)
  | delete (left right : List α) (x : α) : SingleEdit (left ++ x :: right) (left ++ right)
  | substitute (left right : List α) (x y : α) :
      SingleEdit (left ++ x :: right) (left ++ y :: right)

/-- So many single edits, one after the other, turn the first sequence into the second. -/
inductive EditsIn : Nat → List α → List α → Prop where
  | refl (xs : List α) : EditsIn 0 xs xs
  | step {n : Nat} {xs ys zs : List α} :
    SingleEdit xs ys → EditsIn n ys zs → EditsIn (n + 1) xs zs

namespace SingleEdit

theorem symm {xs ys : List α} (h : SingleEdit xs ys) : SingleEdit ys xs := by
  cases h with
  | insert left right x => exact .delete left right x
  | delete left right x => exact .insert left right x
  | substitute left right x y => exact .substitute left right y x

theorem cons {xs ys : List α} (z : α) (h : SingleEdit xs ys) : SingleEdit (z :: xs) (z :: ys) := by
  cases h with
  | insert left right x => exact .insert (z :: left) right x
  | delete left right x => exact .delete (z :: left) right x
  | substitute left right x y => exact .substitute (z :: left) right x y

theorem reverse {xs ys : List α} (h : SingleEdit xs ys) : SingleEdit xs.reverse ys.reverse := by
  cases h with
  | insert left right x => simpa using SingleEdit.insert right.reverse left.reverse x
  | delete left right x => simpa using SingleEdit.delete right.reverse left.reverse x
  | substitute left right x y => simpa using SingleEdit.substitute right.reverse left.reverse x y

theorem length_le {xs ys : List α} (h : SingleEdit xs ys) : xs.length ≤ ys.length + 1 := by
  cases h <;> simp <;> omega

end SingleEdit

namespace EditsIn

theorem single {xs ys : List α} (h : SingleEdit xs ys) : EditsIn 1 xs ys :=
  .step h (.refl ys)

theorem trans {m n : Nat} {xs ys zs : List α} (h : EditsIn m xs ys) (h' : EditsIn n ys zs) :
    EditsIn (m + n) xs zs := by
  induction h with
  | refl => simpa using h'
  | @step m _ _ _ hstep _ ih =>
    rw [Nat.add_right_comm]
    exact .step hstep (ih h')

theorem symm {n : Nat} {xs ys : List α} (h : EditsIn n xs ys) : EditsIn n ys xs := by
  induction h with
  | refl => exact .refl _
  | step hstep _ ih => exact ih.trans (single hstep.symm)

theorem cons {n : Nat} {xs ys : List α} (z : α) (h : EditsIn n xs ys) :
    EditsIn n (z :: xs) (z :: ys) := by
  induction h with
  | refl => exact .refl _
  | step hstep _ ih => exact .step (hstep.cons z) ih

theorem reverse {n : Nat} {xs ys : List α} (h : EditsIn n xs ys) :
    EditsIn n xs.reverse ys.reverse := by
  induction h with
  | refl => exact .refl _
  | step hstep _ ih => exact .step hstep.reverse ih

theorem reverse_iff {n : Nat} {xs ys : List α} :
    EditsIn n xs.reverse ys.reverse ↔ EditsIn n xs ys :=
  ⟨fun h => by simpa using h.reverse, reverse⟩

theorem symm_iff {n : Nat} (xs ys : List α) : EditsIn n xs ys ↔ EditsIn n ys xs :=
  ⟨symm, symm⟩

theorem length_le {n : Nat} {xs ys : List α} (h : EditsIn n xs ys) : xs.length ≤ ys.length + n := by
  induction h with
  | refl => simp
  | step hstep _ ih =>
    have := hstep.length_le
    omega

theorem zero_iff {xs ys : List α} : EditsIn 0 xs ys ↔ xs = ys := by
  constructor
  · intro h
    cases h
    rfl
  · rintro rfl
    exact .refl xs

theorem to_nil (xs : List α) : EditsIn xs.length xs [] := by
  induction xs with
  | nil => exact .refl []
  | cons x xs ih => exact .step (.delete [] xs x) ih

end EditsIn

/-! ## The recurrence -/

variable [DecidableEq α]

/-- The least number of edits, by cases on the first elements: the first element of one of the
sequences is added or dropped, or the two first elements are made equal. -/
def leastEdits : List α → List α → Nat
  | [], ys => ys.length
  | _ :: xs, [] => xs.length + 1
  | x :: xs, y :: ys =>
    min (min (leastEdits xs (y :: ys) + 1) (leastEdits (x :: xs) ys + 1))
      (leastEdits xs ys + if x = y then 0 else 1)
termination_by xs ys => xs.length + ys.length

@[simp] theorem leastEdits_nil_left (ys : List α) : leastEdits [] ys = ys.length := by
  rw [leastEdits]

@[simp] theorem leastEdits_nil_right (xs : List α) : leastEdits xs [] = xs.length := by
  cases xs <;> simp [leastEdits]

theorem leastEdits_cons_cons (x y : α) (xs ys : List α) :
    leastEdits (x :: xs) (y :: ys) =
      min (min (leastEdits xs (y :: ys) + 1) (leastEdits (x :: xs) ys + 1))
        (leastEdits xs ys + if x = y then 0 else 1) := by
  rw [leastEdits]

theorem leastEdits_cons_left_le (x : α) (xs ys : List α) :
    leastEdits (x :: xs) ys ≤ leastEdits xs ys + 1 := by
  cases ys with
  | nil => simp
  | cons y ys =>
    rw [leastEdits_cons_cons]
    omega

theorem leastEdits_cons_right_le (y : α) (xs ys : List α) :
    leastEdits xs (y :: ys) ≤ leastEdits xs ys + 1 := by
  cases xs with
  | nil => simp
  | cons x xs =>
    rw [leastEdits_cons_cons]
    omega

theorem leastEdits_self (xs : List α) : leastEdits xs xs = 0 := by
  induction xs with
  | nil => simp
  | cons x xs ih => simp [leastEdits_cons_cons, ih]

theorem leastEdits_le_max (xs ys : List α) : leastEdits xs ys ≤ max xs.length ys.length := by
  fun_induction leastEdits xs ys with
  | case1 ys => simp
  | case2 x xs => simp
  | case3 x xs y ys _ _ ih =>
    simp only [List.length_cons]
    split <;> omega

/-- Some edits reach the value of the recurrence. -/
theorem editsIn_leastEdits (xs ys : List α) : EditsIn (leastEdits xs ys) xs ys := by
  fun_induction leastEdits xs ys with
  | case1 ys => exact (EditsIn.to_nil ys).symm
  | case2 x xs => exact EditsIn.to_nil (x :: xs)
  | case3 x xs y ys hdelete hinsert hboth =>
    rcases min_choice (min (leastEdits xs (y :: ys) + 1) (leastEdits (x :: xs) ys + 1))
      (leastEdits xs ys + if x = y then 0 else 1) with h | h
    · rw [h]
      rcases min_choice (leastEdits xs (y :: ys) + 1) (leastEdits (x :: xs) ys + 1) with h | h
      · rw [h]
        exact .step (.delete [] xs x) hdelete
      · rw [h]
        exact hinsert.trans (.single (.insert [] ys y))
    · rw [h]
      split
      · next heq =>
        rw [heq]
        exact hboth.cons y
      · exact .step (.substitute [] xs x y) (hboth.cons y)

/-! ## One edit changes the value by at most one -/

theorem leastEdits_le_cons_left (x : α) (xs zs : List α) :
    leastEdits xs zs ≤ leastEdits (x :: xs) zs + 1 := by
  induction zs with
  | nil => simp; omega
  | cons z zs ih =>
    have := leastEdits_cons_right_le z xs zs
    rw [leastEdits_cons_cons]
    omega

theorem leastEdits_cons_le_cons (x y : α) (xs zs : List α) :
    leastEdits (x :: xs) zs ≤ leastEdits (y :: xs) zs + 1 := by
  induction zs with
  | nil => simp
  | cons z zs ih =>
    rw [leastEdits_cons_cons, leastEdits_cons_cons y]
    split <;> split <;> omega

/-- A common first element keeps the values of two sequences as close as they were. -/
theorem leastEdits_cons_congr {xs ys : List α} (x : α)
    (h : ∀ zs, leastEdits xs zs ≤ leastEdits ys zs + 1) (zs : List α) :
    leastEdits (x :: xs) zs ≤ leastEdits (x :: ys) zs + 1 := by
  induction zs with
  | nil => simpa using h []
  | cons z zs ih =>
    have hall := h (z :: zs)
    have hrest := h zs
    rw [leastEdits_cons_cons, leastEdits_cons_cons x z ys]
    omega

theorem leastEdits_append_congr {xs ys : List α} (left : List α)
    (h : ∀ zs, leastEdits xs zs ≤ leastEdits ys zs + 1) (zs : List α) :
    leastEdits (left ++ xs) zs ≤ leastEdits (left ++ ys) zs + 1 := by
  induction left generalizing zs with
  | nil => exact h zs
  | cons x left ih => exact leastEdits_cons_congr x ih zs

theorem SingleEdit.leastEdits_le {xs ys : List α} (h : SingleEdit xs ys) (zs : List α) :
    leastEdits xs zs ≤ leastEdits ys zs + 1 := by
  cases h with
  | insert left right x => exact leastEdits_append_congr left (leastEdits_le_cons_left x right) zs
  | delete left right x => exact leastEdits_append_congr left (leastEdits_cons_left_le x right) zs
  | substitute left right x y =>
    exact leastEdits_append_congr left (leastEdits_cons_le_cons x y right) zs

theorem EditsIn.leastEdits_le {n : Nat} {xs ys : List α} (h : EditsIn n xs ys) (zs : List α) :
    leastEdits xs zs ≤ leastEdits ys zs + n := by
  induction h with
  | refl => simp
  | step hstep _ ih =>
    have := hstep.leastEdits_le zs
    omega

/-- No number of edits below the value of the recurrence is enough. -/
theorem isLeast_leastEdits (xs ys : List α) : IsLeast {n | EditsIn n xs ys} (leastEdits xs ys) := by
  refine ⟨editsIn_leastEdits xs ys, fun n hn => ?_⟩
  have h := EditsIn.leastEdits_le hn ys
  rwa [leastEdits_self, Nat.zero_add] at h

theorem leastEdits_reverse (xs ys : List α) :
    leastEdits xs.reverse ys.reverse = leastEdits xs ys := by
  refine (isLeast_leastEdits xs.reverse ys.reverse).unique ?_
  simpa only [EditsIn.reverse_iff] using isLeast_leastEdits xs ys

theorem leastEdits_comm (xs ys : List α) : leastEdits xs ys = leastEdits ys xs := by
  refine (isLeast_leastEdits xs ys).unique ?_
  simpa only [EditsIn.symm_iff xs ys] using isLeast_leastEdits ys xs

theorem leastEdits_triangle (xs ys zs : List α) :
    leastEdits xs zs ≤ leastEdits xs ys + leastEdits ys zs :=
  (isLeast_leastEdits xs zs).2 ((editsIn_leastEdits xs ys).trans (editsIn_leastEdits ys zs))

theorem leastEdits_eq_zero_iff {xs ys : List α} : leastEdits xs ys = 0 ↔ xs = ys := by
  constructor
  · intro h
    exact EditsIn.zero_iff.mp (h ▸ editsIn_leastEdits xs ys)
  · rintro rfl
    exact leastEdits_self xs

end Reshape.Text
