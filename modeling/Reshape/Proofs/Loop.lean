import Mathlib

/-! # Loops that do not fail

A loop over a list carries a state along and may stop with an error.  If every step succeeds and
takes an invariant of what has been seen so far to the next one, the loop succeeds and ends in a
state with the invariant of the whole list. -/

namespace Reshape

variable {α β ε : Type}

@[simp] theorem ok_bind {γ : Type} (a : α) (f : α → Except ε γ) :
    (Except.ok a >>= f) = f a := rfl

theorem bind_eq_ok {γ : Type} {x : Except ε α} {f : α → Except ε γ} {c : γ} :
    (x >>= f) = .ok c ↔ ∃ a, x = .ok a ∧ f a = .ok c := by
  constructor
  · intro h
    cases x with
    | error failure => cases h
    | ok a => exact ⟨a, rfl, h⟩
  · rintro ⟨a, rfl, h⟩
    exact h

/-- What goes on with the same part of two results goes on in the same way. -/
theorem bind_eq_of_map_eq {γ δ : Type} {x : Except ε α} {y : Except ε β} {f : α → γ} {g : β → γ}
    (h : x.map f = y.map g) (k : γ → Except ε δ) :
    (x >>= fun a => k (f a)) = (y >>= fun b => k (g b)) := by
  cases x with
  | error failure =>
    cases y with
    | error failure' => exact congrArg Except.error (Except.error.inj h)
    | ok b => cases h
  | ok a =>
    cases y with
    | error failure' => cases h
    | ok b => exact congrArg k (Except.ok.inj h)

/-- **A loop with an invariant.**  A step may use which elements came before the present one and
which are still to come. -/
theorem foldlM_ok {f : β → α → Except ε β} {list : List α} {start : β}
    (inv : List α → β → Prop) (hstart : inv [] start)
    (step : ∀ seen x rest state, list = seen ++ x :: rest → inv seen state →
      ∃ next, f state x = .ok next ∧ inv (seen ++ [x]) next) :
    ∃ final, list.foldlM f start = .ok final ∧ inv list final := by
  suffices h : ∀ rest seen state, list = seen ++ rest → inv seen state →
      ∃ final, rest.foldlM f state = .ok final ∧ inv list final from h list [] start rfl hstart
  intro rest
  induction rest with
  | nil =>
    intro seen state hlist hinv
    rw [List.append_nil] at hlist
    exact ⟨state, rfl, hlist ▸ hinv⟩
  | cons x rest ih =>
    intro seen state hlist hinv
    obtain ⟨next, hnext, hinv'⟩ := step seen x rest state hlist hinv
    obtain ⟨final, hfinal, hdone⟩ := ih (seen ++ [x]) next (by rw [hlist]; simp) hinv'
    exact ⟨final, by rw [List.foldlM_cons, hnext, ok_bind, hfinal], hdone⟩

/-- What every step of a loop keeps holds in the end. -/
theorem foldlM_keeps {f : β → α → Except ε β} {list : List α} {start final : β} (inv : β → Prop)
    (hstart : inv start)
    (step : ∀ x ∈ list, ∀ state next, inv state → f state x = .ok next → inv next)
    (h : list.foldlM f start = .ok final) : inv final := by
  induction list generalizing start with
  | nil =>
    obtain rfl := Except.ok.inj h
    exact hstart
  | cons x rest ih =>
    rw [List.foldlM_cons] at h
    obtain ⟨next, hnext, h⟩ := bind_eq_ok.1 h
    exact ih (step x (List.mem_cons_self ..) start next hstart hnext)
      (fun y hy => step y (List.mem_cons_of_mem _ hy)) h

/-- A loop whose steps change nothing. -/
theorem foldlM_fixed {f : β → α → Except ε β} {list : List α} {state : β}
    (h : ∀ x ∈ list, f state x = .ok state) : list.foldlM f state = .ok state := by
  induction list with
  | nil => rfl
  | cons x rest ih =>
    rw [List.foldlM_cons, h x (List.mem_cons_self ..), ok_bind]
    exact ih fun y hy => h y (List.mem_cons_of_mem _ hy)

/-- A loop that collects results succeeds if every step does. -/
theorem exists_mapM {f : α → Except ε β} {list : List α} {good : α → β → Prop}
    (h : ∀ x ∈ list, ∃ y, f x = .ok y ∧ good x y) :
    ∃ results, list.mapM f = .ok results ∧ List.Forall₂ good list results := by
  induction list with
  | nil => exact ⟨[], rfl, .nil⟩
  | cons x rest ih =>
    obtain ⟨y, hy, hgood⟩ := h x (List.mem_cons_self ..)
    obtain ⟨results, hresults, hall⟩ := ih fun x' hx' => h x' (List.mem_cons_of_mem _ hx')
    refine ⟨y :: results, ?_, .cons hgood hall⟩
    rw [List.mapM_cons, hy, ok_bind, hresults]
    rfl

/-- What a loop collects can be changed at every step or in the end. -/
theorem mapM_map {γ : Type} (f : α → Except ε β) (g : β → γ) (list : List α) :
    (list.mapM fun x => (f x).map g) = (list.mapM f).map (List.map g) := by
  induction list with
  | nil => rfl
  | cons x rest ih =>
    rw [List.mapM_cons, List.mapM_cons, ih]
    cases f x with
    | error failure => rfl
    | ok y => cases rest.mapM f <;> rfl

/-- A loop that has collected results has made every step. -/
theorem forall₂_of_mapM {f : α → Except ε β} {list : List α} {results : List β}
    (h : list.mapM f = .ok results) : List.Forall₂ (fun x y => f x = .ok y) list results := by
  induction list generalizing results with
  | nil =>
    obtain rfl := Except.ok.inj h
    exact .nil
  | cons x rest ih =>
    rw [List.mapM_cons] at h
    obtain ⟨y, hy, h⟩ := bind_eq_ok.1 h
    obtain ⟨ys, hys, h⟩ := bind_eq_ok.1 h
    obtain rfl := Except.ok.inj h
    exact .cons hy (ih hys)

/-- A loop that collects lists succeeds if every step does. -/
theorem exists_flatten {f : α → Except ε (List β)} {list : List α} {good : β → Prop}
    (h : ∀ x ∈ list, ∃ ys, f x = .ok ys ∧ ∀ y ∈ ys, good y) :
    ∃ all, (list.mapM f >>= fun parts => pure parts.flatten) = .ok all ∧ ∀ y ∈ all, good y := by
  obtain ⟨parts, hparts, hall⟩ := exists_mapM h
  refine ⟨parts.flatten, by rw [hparts]; rfl, ?_⟩
  clear hparts h
  induction hall with
  | nil => exact fun _ hy => absurd hy List.not_mem_nil
  | cons hgood _ ih => exact List.forall_mem_append.2 ⟨hgood, ih⟩

/-- A place in the part of a list that a loop keeps is a place in the list. -/
theorem filter_split {list seen rest : List α} {keep : α → Bool} {x : α}
    (h : list.filter keep = seen ++ x :: rest) :
    ∃ seen' rest', list = seen' ++ x :: rest' ∧ seen = seen'.filter keep := by
  obtain ⟨before, after, rfl, hbefore, hafter⟩ := List.filter_eq_append_iff.1 h
  obtain ⟨skipped, after', rfl, hskipped, -, -⟩ := List.filter_eq_cons_iff.1 hafter
  refine ⟨before ++ skipped, after', by rw [List.append_assoc], ?_⟩
  rw [List.filter_append, hbefore, List.filter_eq_nil_iff.2 hskipped, List.append_nil]

end Reshape
