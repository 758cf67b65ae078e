import Mathlib
import Reshape.Text.Compact

/-! # The compact form is a normal form

A reader of code sees the characters that are not blank and, between two neighbouring code
characters, whether a blank keeps them apart.  Two fragments that agree in this read alike.  The
compact form is the one fragment among those that read alike whose only blanks are the spaces that
have to stay.

Both directions go through a list of what is to be written: the visible characters, each with
whether a space comes before it.  Reading a fragment gives such a list, spelling the list gives the
compact form, and reading what was spelled gives the list back. -/

namespace Reshape.Text

namespace Spacing

variable (spacing : Spacing)

/-! ### What a reader sees -/

/-- The visible characters of a text, in order. -/
def visible (text : List Char) : List Char :=
  text.filter fun c => !spacing.isBlank c

/-- A blank stands behind the first `n` visible characters of a text and before the next one. -/
def BlankAfter (text : List Char) (n : Nat) : Prop :=
  ∃ before c after, text = before ++ c :: after ∧ spacing.isBlank c = true ∧
    (spacing.visible before).length = n

/-- Two texts with the same visible characters, and with a blank between the same neighbours where
both neighbours are code characters. -/
structure ReadsAlike (s t : List Char) : Prop where
  visible_eq : spacing.visible s = spacing.visible t
  blank_iff : ∀ n a b, (spacing.visible s)[n]? = some a → (spacing.visible s)[n + 1]? = some b →
    spacing.isCode a = true → spacing.isCode b = true →
      (spacing.BlankAfter s (n + 1) ↔ spacing.BlankAfter t (n + 1))

/-- Every blank of a text is a single space between two code characters. -/
def Tidy (text : List Char) : Prop :=
  ∀ before c after, text = before ++ c :: after → spacing.isBlank c = true →
    c = ' ' ∧ (∃ a ∈ before.getLast?, spacing.isCode a = true ∧ spacing.isBlank a = false) ∧
      ∃ b ∈ after.head?, spacing.isCode b = true ∧ spacing.isBlank b = false

variable {spacing} {c : Char} {rest s t : List Char} {n : Nat} {last : Option Char} {blank : Bool}

theorem visible_cons_blank (hc : spacing.isBlank c = true) :
    spacing.visible (c :: rest) = spacing.visible rest := by
  simp [visible, hc]

theorem visible_cons_of_not (hc : spacing.isBlank c = false) :
    spacing.visible (c :: rest) = c :: spacing.visible rest := by
  simp [visible, hc]

theorem blankAfter_cons_blank (hc : spacing.isBlank c = true) :
    spacing.BlankAfter (c :: rest) n ↔ n = 0 ∨ spacing.BlankAfter rest n := by
  constructor
  · rintro ⟨before, d, after, htext, hd, hn⟩
    cases before with
    | nil => exact Or.inl hn.symm
    | cons e before =>
      obtain ⟨rfl, hrest⟩ := List.cons.inj htext
      exact Or.inr ⟨before, d, after, hrest, hd, by rw [← hn, visible_cons_blank hc]⟩
  · rintro (rfl | ⟨before, d, after, rfl, hd, hn⟩)
    · exact ⟨[], c, rest, rfl, hc, rfl⟩
    · exact ⟨c :: before, d, after, rfl, hd, by rw [visible_cons_blank hc, hn]⟩

theorem blankAfter_cons_of_not (hc : spacing.isBlank c = false) :
    spacing.BlankAfter (c :: rest) n ↔ ∃ m, n = m + 1 ∧ spacing.BlankAfter rest m := by
  constructor
  · rintro ⟨before, d, after, htext, hd, hn⟩
    cases before with
    | nil =>
      obtain ⟨rfl, -⟩ := List.cons.inj htext
      rw [hc] at hd
      cases hd
    | cons e before =>
      obtain ⟨rfl, hrest⟩ := List.cons.inj htext
      rw [visible_cons_of_not hc, List.length_cons] at hn
      exact ⟨_, hn.symm, before, d, after, hrest, hd, rfl⟩
  · rintro ⟨m, rfl, before, d, after, rfl, hd, hn⟩
    exact ⟨c :: before, d, after, rfl, hd, by rw [visible_cons_of_not hc, List.length_cons, hn]⟩

/-! ### What is written -/

/-- What is spacing.written of a text: its visible characters, each with whether a space comes
before it. -/
def written (last : Option Char) (blank : Bool) : List Char → List (Char × Bool)
  | [] => []
  | c :: rest =>
    if spacing.isBlank c then written last true rest
    else (c, blank && spacing.needsSpace last c) :: written (some c) false rest

/-- A character, behind a space if one comes before it. -/
def spell (item : Char × Bool) : List Char :=
  if item.2 then [' ', item.1] else [item.1]

theorem compactChars_eq (last : Option Char) (blank : Bool) (text : List Char) :
    spacing.compactChars last blank text = (spacing.written last blank text).flatMap spell := by
  induction text generalizing last blank with
  | nil => rfl
  | cons c rest ih =>
    rw [compactChars, written]
    split
    · exact ih last true
    · rw [List.flatMap_cons, ← ih, spell]
      split <;> rfl

variable (spacing) in
/-- A list of visible characters with spaces only where one has to stay. -/
def Sparing : Option Char → List (Char × Bool) → Prop
  | _, [] => True
  | last, (c, space) :: items =>
    spacing.isBlank c = false ∧ (space = true → spacing.needsSpace last c = true) ∧
      Sparing (some c) items

theorem sparing_written (last : Option Char) (blank : Bool) (text : List Char) :
    spacing.Sparing last (spacing.written last blank text) := by
  induction text generalizing last blank with
  | nil => trivial
  | cons c rest ih =>
    rw [written]
    split
    · exact ih last true
    · rename_i hc
      exact ⟨Bool.eq_false_iff.mpr hc, fun h => (Bool.and_eq_true _ _ ▸ h).2, ih (some c) false⟩

/-- Reading what was spelled gives back what was to be written. -/
theorem written_flatMap_spell {items : List (Char × Bool)} (h : spacing.Sparing last items) :
    spacing.written last false (items.flatMap spell) = items := by
  induction items generalizing last with
  | nil => rfl
  | cons item items ih =>
    obtain ⟨c, space⟩ := item
    obtain ⟨hc, hspace, hitems⟩ := h
    cases space with
    | false => simp [spell, written, hc, ih hitems]
    | true =>
      have hblank := spacing.isBlank_space
      simp [spell, written, hc, hblank, hspace rfl, ih hitems]

theorem needsSpace_iff {before : Option Char} {after : Char} :
    spacing.needsSpace before after = true ↔
      (∃ a ∈ before, spacing.isCode a = true) ∧ spacing.isCode after = true := by
  cases before <;> simp [needsSpace]

/-- The blanks of what was spelled are the spaces that have to stay. -/
theorem blank_of_flatMap_spell {items : List (Char × Bool)} (h : spacing.Sparing last items)
    {before after : List Char} (htext : items.flatMap spell = before ++ c :: after)
    (hc : spacing.isBlank c = true) :
    c = ' ' ∧ ∃ b ∈ after.head?, spacing.needsSpace (before.getLast?.or last) b = true := by
  induction items generalizing last before with
  | nil => simp at htext
  | cons item items ih =>
    obtain ⟨d, space⟩ := item
    obtain ⟨hd, hspace, hitems⟩ := h
    -- A blank that comes after the visible character `d` is one of the items that are left.
    have hbehind : ∀ before, d :: items.flatMap spell = before ++ c :: after →
        c = ' ' ∧
          ∃ a ∈ before.getLast?, ∃ b ∈ after.head?, spacing.needsSpace (some a) b = true := by
      intro before htext
      cases before with
      | nil =>
        obtain ⟨rfl, -⟩ := List.cons.inj htext
        rw [hd] at hc
        cases hc
      | cons e before =>
        obtain ⟨rfl, hrest⟩ := List.cons.inj htext
        obtain ⟨hsame, b, hb, hneeds⟩ := ih hitems hrest
        refine ⟨hsame, before.getLast?.getD d, List.getLast?_cons, b, hb, ?_⟩
        rwa [Option.or_some] at hneeds
    cases space with
    | false =>
      obtain ⟨hsame, a, ha, b, hb, hneeds⟩ := hbehind before (by simpa [spell] using htext)
      exact ⟨hsame, b, hb, by rwa [ha, Option.some_or]⟩
    | true =>
      have hcons : ' ' :: d :: items.flatMap spell = before ++ c :: after := by
        simpa [spell] using htext
      cases before with
      | nil =>
        obtain ⟨rfl, rfl⟩ := List.cons.inj hcons
        exact ⟨rfl, d, rfl, hspace rfl⟩
      | cons e before =>
        obtain ⟨hsame, a, ha, b, hb, hneeds⟩ := hbehind before (List.cons.inj hcons).2
        exact ⟨hsame, b, hb, by rwa [List.getLast?_cons, ha, Option.getD_some, Option.some_or]⟩

theorem tidy_compactChars (blank : Bool) (text : List Char) :
    spacing.Tidy (spacing.compactChars none blank text) := by
  intro before c after htext hc
  rw [compactChars_eq] at htext
  obtain ⟨hsame, b, hb, hneeds⟩ := blank_of_flatMap_spell (sparing_written none blank text) htext hc
  rw [Option.or_none, needsSpace_iff] at hneeds
  obtain ⟨⟨a, ha, hcode⟩, hcode'⟩ := hneeds
  exact ⟨hsame, ⟨a, ha, hcode, spacing.not_isBlank_of_isCode _ hcode⟩,
    b, hb, hcode', spacing.not_isBlank_of_isCode _ hcode'⟩

/-! ### What is spacing.written is what a reader sees -/

theorem map_fst_written (last : Option Char) (blank : Bool) (text : List Char) :
    (spacing.written last blank text).map Prod.fst = spacing.visible text := by
  induction text generalizing last blank with
  | nil => rfl
  | cons c rest ih =>
    rw [written]
    split
    · rename_i hc
      rw [ih, visible_cons_blank hc]
    · rename_i hc
      rw [List.map_cons, ih, visible_cons_of_not (Bool.eq_false_iff.mpr hc)]

/-- The character before the one at a place, if `last` comes before the first. -/
def neighbour (last : Option Char) (text : List Char) : Nat → Option Char
  | 0 => last
  | n + 1 => text[n]?

theorem neighbour_cons (last : Option Char) (c : Char) (text : List Char) (n : Nat) :
    neighbour last (c :: text) (n + 1) = neighbour (some c) text n := by
  cases n <;> rfl

/-- A space is spacing.written before a character where a blank was read and has to stay. -/
theorem space_iff_of_written (last : Option Char) (blank : Bool) (text : List Char)
    {item : Char × Bool} (h : (spacing.written last blank text)[n]? = some item) :
    item.2 = true ↔ (n = 0 ∧ blank = true ∨ spacing.BlankAfter text n) ∧
      spacing.needsSpace (neighbour last (spacing.visible text) n) item.1 = true := by
  induction text generalizing last blank n with
  | nil => simp [written] at h
  | cons c rest ih =>
    rw [written] at h
    split at h
    · rename_i hc
      rw [ih last true h, visible_cons_blank hc, blankAfter_cons_blank hc]
      grind
    · rename_i hc
      have hc : spacing.isBlank c = false := Bool.eq_false_iff.mpr hc
      rw [visible_cons_of_not hc, blankAfter_cons_of_not hc]
      cases n with
      | zero =>
        obtain rfl : (c, blank && spacing.needsSpace last c) = item := by simpa using h
        simp [neighbour]
      | succ n =>
        rw [ih (some c) false h, neighbour_cons]
        simp

theorem getElem?_written (last : Option Char) (blank : Bool) (text : List Char) (n : Nat) :
    (spacing.written last blank text)[n]?.map Prod.fst = (spacing.visible text)[n]? := by
  rw [← List.getElem?_map, map_fst_written]

theorem written_eq_iff :
    spacing.written none false s = spacing.written none false t ↔ spacing.ReadsAlike s t := by
  constructor
  · intro h
    refine ⟨by rw [← map_fst_written none false s, h, map_fst_written],
      fun n a b ha hb hcode hcode' => ?_⟩
    obtain ⟨item, hitem, rfl⟩ :=
      Option.map_eq_some_iff.mp ((getElem?_written none false s (n + 1)).trans hb)
    have hneeds : spacing.needsSpace (spacing.visible s)[n]? item.1 = true :=
      needsSpace_iff.mpr ⟨⟨a, ha, hcode⟩, hcode'⟩
    have hs := space_iff_of_written none false s hitem
    have ht := space_iff_of_written none false t (h ▸ hitem)
    rw [← map_fst_written none false t, ← h, map_fst_written] at ht
    simpa [neighbour, hneeds] using hs.symm.trans ht
  · intro h
    refine List.ext_getElem? fun n => ?_
    have hchars : (spacing.written none false s)[n]?.map Prod.fst =
        (spacing.written none false t)[n]?.map Prod.fst := by
      rw [getElem?_written, getElem?_written, h.visible_eq]
    cases hs : (spacing.written none false s)[n]? with
    | none =>
      rw [hs, Option.map_none, eq_comm, Option.map_eq_none_iff] at hchars
      exact hchars.symm
    | some item =>
      rw [hs, Option.map_some, eq_comm, Option.map_eq_some_iff] at hchars
      obtain ⟨other, ht, hchar⟩ := hchars
      have hvisible : (spacing.visible s)[n]? = some item.1 := by
        rw [← getElem?_written none false, hs]; rfl
      have hspace : item.2 = true ↔ other.2 = true := by
        rw [space_iff_of_written _ _ _ hs, space_iff_of_written _ _ _ ht, ← h.visible_eq, hchar]
        refine and_congr_left fun hneeds => ?_
        obtain ⟨⟨a, ha, hcode⟩, hcode'⟩ := needsSpace_iff.mp hneeds
        -- Before the first character there is none, so nothing has to be kept apart.
        cases n with
        | zero => cases ha
        | succ n => simpa using h.blank_iff n a item.1 ha hvisible hcode hcode'
      rw [ht, Prod.ext hchar.symm (Bool.eq_iff_iff.mpr hspace)]

theorem compactChars_eq_iff :
    spacing.compactChars none false s = spacing.compactChars none false t ↔
      spacing.ReadsAlike s t := by
  rw [← written_eq_iff, compactChars_eq, compactChars_eq]
  refine ⟨fun h => ?_, fun h => by rw [h]⟩
  rw [← written_flatMap_spell (sparing_written none false s), h,
    written_flatMap_spell (sparing_written none false t)]

theorem compactChars_compactChars (text : List Char) :
    spacing.compactChars none false (spacing.compactChars none false text) =
      spacing.compactChars none false text := by
  simp only [compactChars_eq, written_flatMap_spell (sparing_written none false text)]

/-- A form of fragments that is the same for two of them exactly if they read alike, that has itself
as its form, and whose only blanks are single spaces between two code characters. -/
structure IsNormalForm (spacing : Spacing) (form : String → String) : Prop where
  eq_iff : ∀ s t, form s = form t ↔ spacing.ReadsAlike s.toList t.toList
  idempotent : ∀ s, form (form s) = form s
  tidy : ∀ s, spacing.Tidy (form s).toList

theorem toList_compact (text : String) :
    (spacing.compact text).toList = spacing.compactChars none false text.toList :=
  String.toList_ofList

theorem isNormalForm_compact (spacing : Spacing) : IsNormalForm spacing spacing.compact where
  eq_iff s t := by
    rw [← String.toList_inj, toList_compact, toList_compact, compactChars_eq_iff]
  idempotent s := by
    rw [← String.toList_inj, toList_compact, toList_compact, compactChars_compactChars]
  tidy s := by
    rw [toList_compact]
    exact tidy_compactChars false s.toList

end Spacing

/-- **The compact form is a normal form.**  It is one for the blanks and code characters of Unicode,
and the compact form under any other such classes is one for them. -/
theorem compact_normal_form :
    Spacing.IsNormalForm .unicode compact ∧
      ∀ spacing : Spacing, spacing.IsNormalForm spacing.compact :=
  ⟨Spacing.isNormalForm_compact .unicode, Spacing.isNormalForm_compact⟩

end Reshape.Text
