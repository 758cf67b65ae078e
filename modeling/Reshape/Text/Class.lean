import Reshape.Text.Ranges

/-! # Classes of characters

Three classes matter to the comparison of code: blanks, the characters of a word in a code fragment
(`isCodeChar`), and the characters that decide where a word starts and ends in a search
(`isWordChar`). The last two differ: `$` and fractions are code characters only, most combining
marks and joiners are word characters only. No code character is a blank. -/

namespace Reshape.Text

/-- The ranges of the Unicode property `White_Space`, ascending. -/
def blankRanges : List (Nat × Nat) :=
  [(0x9, 0xd), (0x20, 0x20), (0x85, 0x85), (0xa0, 0xa0), (0x1680, 0x1680), (0x2000, 0x200a),
   (0x2028, 0x2029), (0x202f, 0x202f), (0x205f, 0x205f), (0x3000, 0x3000)]

/-- The ranges of the general category `Connector_Punctuation`, ascending. -/
def connectorRanges : List (Nat × Nat) :=
  [(0x5f, 0x5f), (0x203f, 0x2040), (0x2054, 0x2054), (0xfe33, 0xfe34), (0xfe4d, 0xfe4f),
   (0xff3f, 0xff3f)]

/-- Whether a character is white space. -/
def isBlank (c : Char) : Bool :=
  inRanges blankRanges c.toNat

/-- Whether a character is a letter or a number of some script. -/
def isAlphanumeric (c : Char) : Bool :=
  isAlphabetic c || isDecimal c || isOtherNumber c

/-- Whether a character belongs to a word of code: a letter, a number, `_` or `$`. -/
def isCodeChar (c : Char) : Bool :=
  isAlphanumeric c || c == '_' || c == '$'

/-- Whether a character joins its neighbours without being visible. -/
def isJoinControl (c : Char) : Bool :=
  c.toNat == 0x200c || c.toNat == 0x200d

/-- Whether a character belongs to a word when word boundaries are sought: letters, marks, decimal
digits, connecting punctuation and join controls. -/
def isWordChar (c : Char) : Bool :=
  isAlphabetic c || isMark c || isDecimal c || inRanges connectorRanges c.toNat || isJoinControl c

/-! ### No code character is a blank -/

/-- The code points of a table. -/
def points (ranges : List (Nat × Nat)) : List Nat :=
  ranges.flatMap fun (first, last) => List.range' first (last + 1 - first)

theorem mem_points {ranges : List (Nat × Nat)} {n : Nat} (h : inRanges ranges n = true) :
    n ∈ points ranges := by
  induction ranges with
  | nil => cases h
  | cons range ranges ih =>
    obtain ⟨first, last⟩ := range
    rw [points, List.flatMap_cons, List.mem_append]
    rw [inRanges] at h
    split at h
    · cases h
    · rcases (Bool.or_eq_true _ _).mp h with hlast | hrest
      · left
        have hle : n ≤ last := of_decide_eq_true hlast
        rw [List.mem_range'_1]
        omega
      · exact Or.inr (ih hrest)

/-- The tables have no code point in common: blanks are neither letters nor numbers. -/
theorem points_blankRanges :
    ∀ n ∈ points blankRanges, inRanges alphabeticRanges n = false ∧
      inRanges decimalRanges n = false ∧ inRanges otherNumberRanges n = false ∧
      n ≠ '_'.toNat ∧ n ≠ '$'.toNat := by
  decide +kernel

theorem not_isCodeChar_of_isBlank {c : Char} (h : isBlank c = true) : isCodeChar c = false := by
  obtain ⟨halpha, hdecimal, hother, hline, hdollar⟩ := points_blankRanges c.toNat (mem_points h)
  have hne : c ≠ '_' ∧ c ≠ '$' :=
    ⟨fun heq => hline (congrArg Char.toNat heq), fun heq => hdollar (congrArg Char.toNat heq)⟩
  simp [isCodeChar, isAlphanumeric, isAlphabetic, isDecimal, isOtherNumber, halpha, hdecimal,
    hother, hne]

theorem not_isBlank_of_isCodeChar {c : Char} (h : isCodeChar c = true) : isBlank c = false := by
  cases hc : isBlank c with
  | false => rfl
  | true => rw [not_isCodeChar_of_isBlank hc] at h; cases h

end Reshape.Text
