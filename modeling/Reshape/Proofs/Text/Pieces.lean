import Mathlib
import Reshape.Text.Word

/-! # The words of a text

A text is cut into its words, the longest runs of word characters, and the single characters between
them.  Replacing a name that is itself a word replaces the pieces that equal it: a name stands as a
whole word exactly where it is a piece.  Replacements can be composed piece by piece, because a
piece that is not a word character keeps the words on its two sides apart, whatever is put for them.
Which characters make words is left open. -/

namespace Reshape.Text

variable {isWord : Char → Bool}

/-- The words of a text and the single characters between them. -/
def pieces (isWord : Char → Bool) (text : List Char) : List (List Char) :=
  text.splitBy fun c d => isWord c && isWord d

/-- Whether characters form a word. -/
def IsWord (isWord : Char → Bool) (word : List Char) : Prop :=
  word ≠ [] ∧ ∀ c ∈ word, isWord c = true

instance (word : List Char) : Decidable (IsWord isWord word) :=
  decidable_of_iff (word ≠ [] ∧ word.all isWord = true) (and_congr_right fun _ => List.all_eq_true)

/-- Whether a text does not go on with a word character. -/
def StopsWord (isWord : Char → Bool) (rest : List Char) : Prop :=
  ∀ c ∈ rest.head?, isWord c = false

/-! ### Cutting a text -/

theorem pieces_append (text : List Char) {rest : List Char} (hrest : StopsWord isWord rest) :
    pieces isWord (text ++ rest) = pieces isWord text ++ pieces isWord rest := by
  refine List.splitBy_append fun c _ d hd => ?_
  rw [hrest d hd, Bool.and_false]

theorem pieces_word {word : List Char} (h : IsWord isWord word) : pieces isWord word = [word] := by
  refine List.splitBy_of_isChain h.1 (List.Pairwise.isChain ?_)
  exact List.pairwise_of_forall_mem_list fun c hc d hd => by simp [h.2 c hc, h.2 d hd]

theorem pieces_word_append {word rest : List Char} (h : IsWord isWord word)
    (hrest : StopsWord isWord rest) :
    pieces isWord (word ++ rest) = word :: pieces isWord rest := by
  rw [pieces_append word hrest, pieces_word h, List.singleton_append]

theorem pieces_mark_cons {c : Char} (hc : isWord c = false) (rest : List Char) :
    pieces isWord (c :: rest) = [c] :: pieces isWord rest := by
  have hcut : pieces isWord ([c] ++ rest) = pieces isWord [c] ++ pieces isWord rest := by
    refine List.splitBy_append fun d hd _ _ => ?_
    obtain rfl : c = d := by simpa using hd
    rw [hc, Bool.false_and]
  exact hcut

theorem flatten_pieces (text : List Char) : (pieces isWord text).flatten = text :=
  List.flatten_splitBy _ text

theorem pieces_of_mem {text piece : List Char} (h : piece ∈ pieces isWord text) :
    pieces isWord piece = [piece] :=
  List.splitBy_of_isChain (List.ne_nil_of_mem_splitBy h) (List.isChain_of_mem_splitBy h)

/-- A text is empty, or starts with a character that is in no word, or with a word. -/
theorem pieces_induction (isWord : Char → Bool) {motive : List Char → Prop} (nil : motive [])
    (mark : ∀ c rest, isWord c = false → motive rest → motive (c :: rest))
    (word : ∀ word rest, IsWord isWord word → StopsWord isWord rest → motive rest →
      motive (word ++ rest))
    (text : List Char) : motive text := by
  induction hlength : text.length using Nat.strong_induction_on generalizing text with
  | _ n ih =>
    match text with
    | [] => exact nil
    | c :: rest =>
      cases hc : isWord c with
      | false => exact mark c rest hc (ih rest.length (by simp [← hlength]) rest rfl)
      | true =>
        have hfirst : (c :: rest).takeWhile isWord = c :: rest.takeWhile isWord := by
          rw [List.takeWhile_cons_of_pos hc]
        have hword : IsWord isWord ((c :: rest).takeWhile isWord) :=
          ⟨by simp [hfirst], fun d hd => List.mem_takeWhile_imp hd⟩
        have hstops : StopsWord isWord ((c :: rest).dropWhile isWord) := by
          intro d hd
          simpa [Option.mem_def.1 hd] using List.head?_dropWhile_not isWord (c :: rest)
        have hshorter : ((c :: rest).dropWhile isWord).length < n := by
          rw [List.dropWhile_cons_of_pos hc, ← hlength, List.length_cons]
          exact Nat.lt_succ_of_le (List.length_dropWhile_le _ _)
        rw [← List.takeWhile_append_dropWhile (p := isWord) (l := c :: rest)]
        exact word _ _ hword hstops (ih _ hshorter _ rfl)

/-! ### Replacing pieces -/

/-- A text with something put for each of its pieces. -/
def onPieces (isWord : Char → Bool) (f : List Char → List Char) (text : List Char) : List Char :=
  (pieces isWord text).flatMap f

/-- Whether single characters that are in no word are left alone. -/
def KeepsMarks (isWord : Char → Bool) (f : List Char → List Char) : Prop :=
  ∀ c, isWord c = false → f [c] = [c]

section OnPieces

variable {f g : List Char → List Char}

theorem onPieces_append (text : List Char) {rest : List Char} (hrest : StopsWord isWord rest) :
    onPieces isWord f (text ++ rest) = onPieces isWord f text ++ onPieces isWord f rest := by
  rw [onPieces, pieces_append text hrest, List.flatMap_append]
  rfl

theorem onPieces_mark_cons {c : Char} (hc : isWord c = false) (rest : List Char) :
    onPieces isWord f (c :: rest) = f [c] ++ onPieces isWord f rest := by
  rw [onPieces, pieces_mark_cons hc, List.flatMap_cons]
  rfl

theorem onPieces_word_append {word rest : List Char} (h : IsWord isWord word)
    (hrest : StopsWord isWord rest) :
    onPieces isWord f (word ++ rest) = f word ++ onPieces isWord f rest := by
  rw [onPieces, pieces_word_append h hrest, List.flatMap_cons]
  rfl

theorem onPieces_of_mem {text piece : List Char} (h : piece ∈ pieces isWord text) :
    onPieces isWord f piece = f piece := by
  rw [onPieces, pieces_of_mem h, List.flatMap_singleton]

theorem onPieces_congr {text : List Char} (h : ∀ piece ∈ pieces isWord text, f piece = g piece) :
    onPieces isWord f text = onPieces isWord g text :=
  List.flatMap_congr h

theorem onPieces_eq_self {text : List Char} (h : ∀ piece ∈ pieces isWord text, f piece = piece) :
    onPieces isWord f text = text := by
  rw [onPieces_congr h, onPieces, List.flatMap_id', flatten_pieces]

theorem StopsWord.onPieces {rest : List Char} (hrest : StopsWord isWord rest)
    (hf : KeepsMarks isWord f) :
    StopsWord isWord (onPieces isWord f rest) := by
  cases rest with
  | nil => exact hrest
  | cons c rest =>
    have hc : isWord c = false := hrest c rfl
    rw [onPieces_mark_cons hc, hf c hc]
    intro d hd
    obtain rfl : c = d := by simpa using hd
    exact hc

/-- A text replaced twice is a text with replaced pieces. -/
theorem onPieces_onPieces (hf : KeepsMarks isWord f) (text : List Char) :
    onPieces isWord g (onPieces isWord f text) =
      onPieces isWord (fun piece => onPieces isWord g (f piece)) text := by
  induction text using pieces_induction isWord with
  | nil => rfl
  | mark c rest hc ih =>
    have hcut : onPieces isWord g (f [c] ++ onPieces isWord f rest) =
        onPieces isWord g (f [c]) ++ onPieces isWord g (onPieces isWord f rest) := by
      rw [hf c hc, List.singleton_append, onPieces_mark_cons hc, onPieces_mark_cons hc]
      exact congrArg (· ++ onPieces isWord g (onPieces isWord f rest)) (List.append_nil _).symm
    rw [onPieces_mark_cons hc, hcut, ih, onPieces_mark_cons hc]
  | word word rest hword hrest ih =>
    rw [onPieces_word_append hword hrest, onPieces_append _ (hrest.onPieces hf), ih,
      onPieces_word_append hword hrest]

theorem countP_marks_word {word : List Char} (h : IsWord isWord word) :
    word.countP (fun c => !isWord c) = 0 :=
  List.countP_eq_zero.2 fun c hc => by simp [h.2 c hc]

/-- Replacing never loses a character that is in no word. -/
theorem countP_marks_le (hf : KeepsMarks isWord f) (text : List Char) :
    text.countP (fun c => !isWord c) ≤ (onPieces isWord f text).countP (fun c => !isWord c) := by
  induction text using pieces_induction isWord with
  | nil => rfl
  | mark c rest hc ih =>
    rw [onPieces_mark_cons hc, hf c hc, List.singleton_append, List.countP_cons, List.countP_cons]
    omega
  | word word rest hword hrest ih =>
    rw [onPieces_word_append hword hrest, List.countP_append, List.countP_append,
      countP_marks_word hword]
    omega

theorem takeWhile_word_append {word rest : List Char} (hword : ∀ c ∈ word, isWord c = true)
    (hrest : StopsWord isWord rest) : (word ++ rest).takeWhile isWord = word := by
  rw [List.takeWhile_append_of_pos hword]
  cases rest with
  | nil => simp
  | cons c rest => rw [List.takeWhile_cons_of_neg (by simp [hrest c rfl]), List.append_nil]

/-- A text that replacing leaves as it is has no piece that is replaced by something else. -/
theorem eq_of_onPieces_eq_self (hf : KeepsMarks isWord f) {text : List Char}
    (h : onPieces isWord f text = text) {piece : List Char} (hpiece : piece ∈ pieces isWord text) :
    f piece = piece := by
  induction text using pieces_induction isWord with
  | nil => cases hpiece
  | mark c rest hc ih =>
    rw [onPieces_mark_cons hc, hf c hc, List.singleton_append, List.cons.injEq] at h
    rw [pieces_mark_cons hc] at hpiece
    rcases List.mem_cons.1 hpiece with rfl | hrest
    · exact hf c hc
    · exact ih h.2 hrest
  | word word rest hword hrest ih =>
    rw [onPieces_word_append hword hrest] at h
    -- Nothing but word characters can be put for the word, or there were too many others in the
    -- end.
    have hmarks : (f word).countP (fun c => !isWord c) = 0 := by
      have hcount := congrArg (List.countP fun c => !isWord c) h
      have hle := countP_marks_le hf rest
      rw [List.countP_append, List.countP_append, countP_marks_word hword] at hcount
      omega
    have hplain : ∀ c ∈ f word, isWord c = true := fun c hc => by
      simpa using List.countP_eq_zero.1 hmarks c hc
    have hsame : f word = word := by
      rw [← takeWhile_word_append hplain (hrest.onPieces hf), h,
        takeWhile_word_append hword.2 hrest]
    rw [hsame, List.append_cancel_left_eq] at h
    rw [pieces_word_append hword hrest] at hpiece
    rcases List.mem_cons.1 hpiece with rfl | hmem
    · exact hsame
    · exact ih h hmem

end OnPieces

end Reshape.Text
