import Mathlib
import Reshape.Proofs.Text.Pieces

/-! # Substitution, one binding after the other and all at once

Putting the value of one binding for its name replaces the words of the text that equal the name.
To put the values of several bindings at once is to replace each word by the value of the binding of
that name.  Going through the bindings one after the other does the same for every text exactly if
no value contains, as a word, a name that a later binding changes. -/

namespace Reshape.Text

variable {isWord : Char → Bool}

/-! ### Whole words are pieces -/

section ReplaceWord

variable {name value : List Char} {before : Option Char}

theorem isBoundary_of_word_of_stops {c : Char} {rest : List Char} (hc : isWord c = true)
    (hrest : StopsWord isWord rest) : isBoundary isWord (some c) rest.head? = true := by
  cases hhead : rest.head? with
  | none => simp [isBoundary, hc]
  | some d => simp [isBoundary, hc, hrest d hhead]

/-- Where a word of the text starts, a name stands as a whole word exactly if it is that word. -/
theorem startsWord_iff (hname : IsWord isWord name) (hbefore : ∀ c ∈ before, isWord c = false)
    {word rest : List Char} (hword : IsWord isWord word) (hrest : StopsWord isWord rest) :
    startsWord isWord name before (word ++ rest) = true ↔ word = name := by
  have hlast : name.getLast?.or before = some (name.getLast hname.1) := by
    rw [List.getLast?_eq_some_getLast hname.1, Option.some_or]
  have hlastWord : isWord (name.getLast hname.1) = true := hname.2 _ (List.getLast_mem hname.1)
  simp only [startsWord, Bool.and_eq_true, List.isPrefixOf_iff_prefix, hlast]
  constructor
  · rintro ⟨⟨⟨tail, htail⟩, -⟩, hend⟩
    rw [← htail, List.drop_left] at hend
    rcases List.append_eq_append_iff.1 htail with ⟨more, rfl, rfl⟩ | ⟨more, rfl, rfl⟩
    · -- The word goes on after the name, which is no boundary.
      cases more with
      | nil => simp
      | cons c more =>
        have hc : isWord c = true := hword.2 c (by simp)
        simp [isBoundary, hlastWord, hc] at hend
    · -- The name goes on after the word.
      cases more with
      | nil => simp
      | cons c more =>
        have hc : isWord c = true := hname.2 c (by simp)
        simp [hrest c rfl] at hc
  · rintro rfl
    refine ⟨⟨List.prefix_append _ _, ?_⟩, ?_⟩
    · obtain ⟨c, more, rfl⟩ := List.exists_cons_of_ne_nil hword.1
      have hc : isWord c = true := hword.2 c (by simp)
      cases before with
      | none => simp [isBoundary, hc]
      | some d => simp [isBoundary, hc, hbefore d rfl]
    · rw [List.drop_left]
      exact isBoundary_of_word_of_stops hlastWord hrest

theorem getLast?_cons_or (c : Char) (word : List Char) (before : Option Char) :
    (c :: word).getLast?.or before = word.getLast?.or (some c) := by
  rw [List.getLast?_cons]
  cases word.getLast? <;> rfl

theorem replaceWord_skip (name value skipped rest : List Char) (before : Option Char) :
    replaceWord isWord name value before skipped.length (skipped ++ rest) =
      replaceWord isWord name value (skipped.getLast?.or before) 0 rest := by
  induction skipped generalizing before with
  | nil => rfl
  | cons c skipped ih =>
    rw [List.cons_append, List.length_cons, replaceWord, ih, getLast?_cons_or]

/-- Within a word no name starts. -/
theorem replaceWord_within (name value : List Char) {c : Char} (hc : isWord c = true)
    {word : List Char} (hword : ∀ d ∈ word, isWord d = true) (rest : List Char) :
    replaceWord isWord name value (some c) 0 (word ++ rest) =
      word ++ replaceWord isWord name value (word.getLast?.or (some c)) 0 rest := by
  induction word generalizing c with
  | nil => rfl
  | cons d word ih =>
    have hd : isWord d = true := hword d List.mem_cons_self
    have hnot : startsWord isWord name (some c) (d :: (word ++ rest)) = false := by
      simp [startsWord, isBoundary, hc, hd]
    rw [List.cons_append, replaceWord, hnot, if_neg (by simp),
      ih hd fun e he => hword e (List.mem_cons_of_mem d he), getLast?_cons_or, List.cons_append]

theorem replaceWord_word_append (hname : IsWord isWord name)
    (hbefore : ∀ c ∈ before, isWord c = false) {word rest : List Char} (hword : IsWord isWord word)
    (hrest : StopsWord isWord rest) :
    replaceWord isWord name value before 0 (word ++ rest) =
      (if word = name then value else word) ++
        replaceWord isWord name value word.getLast? 0 rest := by
  have hstarts := startsWord_iff hname hbefore hword hrest
  obtain ⟨c, more, rfl⟩ := List.exists_cons_of_ne_nil hword.1
  have hlast : more.getLast?.or (some c) = (c :: more).getLast? := by
    rw [← getLast?_cons_or c more none, Option.or_none]
  rw [List.cons_append] at hstarts ⊢
  rw [replaceWord]
  by_cases hsame : c :: more = name
  · rw [if_pos (hstarts.2 hsame), if_pos hsame, ← hsame, List.length_cons, Nat.add_sub_cancel,
      replaceWord_skip, hlast]
  · rw [if_neg (fun h => hsame (hstarts.1 h)), if_neg hsame,
      replaceWord_within name value (hword.2 c List.mem_cons_self)
        (fun d hd => hword.2 d (List.mem_cons_of_mem c hd)), hlast, List.cons_append]

/-- Replacing a name replaces the pieces isWord that equal it. -/
theorem replaceWord_eq_onPieces (hname : IsWord isWord name) (text : List Char)
    (before : Option Char) (hbefore : (∀ c ∈ before, isWord c = false) ∨ StopsWord isWord text) :
    replaceWord isWord name value before 0 text =
      onPieces isWord (fun piece => if piece = name then value else piece) text := by
  induction text using pieces_induction isWord generalizing before with
  | nil => rfl
  | mark c rest hc ih =>
    obtain ⟨d, more, hcons⟩ := List.exists_cons_of_ne_nil hname.1
    have hd : isWord d = true := hname.2 d (by simp [hcons])
    have hdc : d ≠ c := by
      rintro rfl
      rw [hc] at hd
      cases hd
    have hnot : startsWord isWord name before (c :: rest) = false := by
      simp [startsWord, hcons, hdc]
    have hother : [c] ≠ name := by
      rw [hcons]
      exact fun heq => hdc (List.cons.inj heq).1.symm
    rw [replaceWord, hnot, if_neg (by simp), onPieces_mark_cons hc, if_neg hother,
      ih (some c) (Or.inl fun e he => by simpa [← Option.mem_some.1 he] using hc)]
    rfl
  | word word rest hword hrest ih =>
    have hplain : ∀ c ∈ before, isWord c = false := by
      rcases hbefore with hplain | hstops
      · exact hplain
      · obtain ⟨c, more, rfl⟩ := List.exists_cons_of_ne_nil hword.1
        have hc : isWord c = true := hword.2 c List.mem_cons_self
        rw [hstops c rfl] at hc
        cases hc
    rw [replaceWord_word_append hname hplain hword hrest, onPieces_word_append hword hrest,
      ih _ (Or.inr hrest)]

end ReplaceWord

/-! ### Bindings -/

/-- Whether a binding has a word for its name. -/
def Binding.IsProper (isWord : Char → Bool) (binding : Binding) : Prop :=
  IsWord isWord binding.name.toList

instance (binding : Binding) : Decidable (binding.IsProper isWord) :=
  inferInstanceAs (Decidable (IsWord isWord binding.name.toList))

/-- What one binding puts for a piece. -/
def Binding.put (binding : Binding) (piece : List Char) : List Char :=
  if piece = binding.name.toList then binding.value.toList else piece

/-- What the first binding of that name puts for a piece. -/
def valueOf (bindings : List Binding) (piece : List Char) : List Char :=
  ((bindings.find? (·.name.toList == piece)).map (·.value.toList)).getD piece

/-- Put the values of all bindings for the words that are their names, all at once. -/
def simultaneous (isWord : Char → Bool) (text : String) (bindings : List Binding) : String :=
  String.ofList (onPieces isWord (valueOf bindings) text.toList)

theorem Binding.toList_apply {binding : Binding} (h : binding.IsProper isWord) (text : String) :
    (binding.apply isWord text).toList = onPieces isWord binding.put text.toList := by
  have hname : binding.name.isEmpty = false := by
    simpa [String.isEmpty_iff] using fun hempty => h.1 (by rw [hempty]; rfl)
  rw [Binding.apply]
  by_cases hsame : binding.name = binding.value
  · have hput : ∀ piece ∈ pieces isWord text.toList, binding.put piece = piece := by
      intro piece _
      rw [Binding.put, ← hsame]
      split <;> simp_all
    rw [if_pos (by simp [hsame]), onPieces_eq_self hput]
  · rw [if_neg (by simp [hsame, hname]), String.toList_ofList]
    exact replaceWord_eq_onPieces h _ none (Or.inl (by simp))

theorem valueOf_cons (binding : Binding) (bindings : List Binding) (piece : List Char) :
    valueOf (binding :: bindings) piece =
      if piece = binding.name.toList then binding.value.toList else valueOf bindings piece := by
  by_cases h : piece = binding.name.toList
  · simp [valueOf, h]
  · simp [valueOf, h, Ne.symm h]

theorem valueOf_of_forall_ne {bindings : List Binding} {piece : List Char}
    (h : ∀ binding ∈ bindings, binding.name.toList ≠ piece) : valueOf bindings piece = piece := by
  have hnone : bindings.find? (·.name.toList == piece) = none :=
    List.find?_eq_none.2 fun binding hmem => by simpa using h binding hmem
  rw [valueOf, hnone]
  rfl

theorem valueOf_of_mem {bindings : List Binding} (hnames : (bindings.map Binding.name).Nodup)
    {binding : Binding} (h : binding ∈ bindings) :
    valueOf bindings binding.name.toList = binding.value.toList := by
  induction bindings with
  | nil => cases h
  | cons first rest ih =>
    obtain ⟨hfirst, hrest⟩ := List.nodup_cons.1 hnames
    rw [valueOf_cons]
    rcases List.mem_cons.1 h with rfl | hmem
    · rw [if_pos rfl]
    · have hne : binding.name.toList ≠ first.name.toList := fun heq =>
        hfirst (List.mem_map.2 ⟨binding, hmem, String.toList_injective heq⟩)
      rw [if_neg hne, ih hrest hmem]

/-- A name that is a word is no single character of another kind. -/
theorem Binding.IsProper.ne_mark {binding : Binding} (h : binding.IsProper isWord) {c : Char}
    (hc : isWord c = false) : binding.name.toList ≠ [c] := by
  intro heq
  have hword : isWord c = true := h.2 c (by simp [heq])
  rw [hc] at hword
  cases hword

theorem Binding.IsProper.keepsMarks {binding : Binding} (h : binding.IsProper isWord) :
    KeepsMarks isWord binding.put := fun _ hc => if_neg (h.ne_mark hc).symm

theorem keepsMarks_valueOf {bindings : List Binding}
    (h : ∀ binding ∈ bindings, binding.IsProper isWord) :
    KeepsMarks isWord (valueOf bindings) := fun _ hc =>
  valueOf_of_forall_ne fun binding hmem => (h binding hmem).ne_mark hc

/-! ### One after the other and all at once -/

/-- Whether the value of a binding is left alone by a later one. -/
def Binding.LeftAloneBy (isWord : Char → Bool) (binding later : Binding) : Prop :=
  later.value = later.name ∨ later.name.toList ∉ pieces isWord binding.value.toList

/-- Values that are left alone by the later bindings are left alone by all of them at once. -/
theorem onPieces_value_eq_self {binding : Binding} {later : List Binding}
    (h : ∀ b ∈ later, binding.LeftAloneBy isWord b) :
    onPieces isWord (valueOf later) binding.value.toList = binding.value.toList := by
  refine onPieces_eq_self fun piece hpiece => ?_
  induction later with
  | nil => rfl
  | cons first rest ih =>
    have hrest := ih fun b hb => h b (List.mem_cons_of_mem first hb)
    rw [valueOf_cons]
    split
    · rename_i hname
      rcases h first List.mem_cons_self with hsame | hnot
      · rw [hname, hsame]
      · exact absurd (hname ▸ hpiece) hnot
    · exact hrest

/-- One binding, and then the others all at once. -/
theorem onPieces_valueOf_put {binding : Binding} (hproper : binding.IsProper isWord)
    (later : List Binding) (text : List Char) :
    onPieces isWord (valueOf later) (onPieces isWord binding.put text) =
      onPieces isWord (fun piece => if piece = binding.name.toList then
        onPieces isWord (valueOf later) binding.value.toList else valueOf later piece) text := by
  rw [onPieces_onPieces hproper.keepsMarks]
  refine onPieces_congr fun piece hpiece => ?_
  rw [Binding.put]
  split
  · rfl
  · exact onPieces_of_mem hpiece

theorem substitute_cons (text : String) (binding : Binding) (later : List Binding) :
    substituteBy isWord text (binding :: later) =
      substituteBy isWord (binding.apply isWord text) later := rfl

theorem substitute_eq_simultaneous {bindings : List Binding}
    (hproper : ∀ binding ∈ bindings, binding.IsProper isWord)
    (h : bindings.Pairwise (Binding.LeftAloneBy isWord)) (text : String) :
    substituteBy isWord text bindings = simultaneous isWord text bindings := by
  induction bindings generalizing text with
  | nil =>
    have hsame : onPieces isWord (valueOf []) text.toList = text.toList :=
      onPieces_eq_self fun _ _ => rfl
    rw [simultaneous, hsame, String.ofList_toList]
    rfl
  | cons binding later ih =>
    obtain ⟨halone, hlater⟩ := List.pairwise_cons.1 h
    have hfirst : binding.IsProper isWord := hproper binding List.mem_cons_self
    rw [substitute_cons, ih (fun b hb => hproper b (List.mem_cons_of_mem binding hb)) hlater,
      simultaneous, simultaneous, binding.toList_apply hfirst, onPieces_valueOf_put hfirst,
      onPieces_value_eq_self halone]
    refine congrArg String.ofList (onPieces_congr fun piece _ => ?_)
    rw [valueOf_cons]

/-- A binding does not touch another name. -/
theorem Binding.apply_name {binding other : Binding} (hproper : binding.IsProper isWord)
    (hother : other.IsProper isWord) (hne : other.name ≠ binding.name) :
    binding.apply isWord other.name = other.name := by
  refine String.toList_injective ?_
  rw [binding.toList_apply hproper, onPieces, pieces_word hother, List.flatMap_singleton,
    Binding.put, if_neg fun heq => hne (String.toList_injective heq)]

theorem simultaneous_name {bindings : List Binding} (hnames : (bindings.map Binding.name).Nodup)
    {binding : Binding} (hproper : binding.IsProper isWord) (h : binding ∈ bindings) :
    simultaneous isWord binding.name bindings = binding.value := by
  rw [simultaneous, onPieces, pieces_word hproper, List.flatMap_singleton, valueOf_of_mem hnames h,
    String.ofList_toList]

/-- It is enough to look at what becomes of the names themselves: the last binding whose value is
touched by a later one shows it. -/
theorem pairwise_of_names {bindings : List Binding} (hnames : (bindings.map Binding.name).Nodup)
    (hproper : ∀ binding ∈ bindings, binding.IsProper isWord)
    (h : ∀ binding ∈ bindings, substituteBy isWord binding.name bindings = binding.value) :
    bindings.Pairwise (Binding.LeftAloneBy isWord) := by
  induction bindings with
  | nil => exact .nil
  | cons binding later ih =>
    obtain ⟨hfirst, hlaterNames⟩ := List.nodup_cons.1 hnames
    have hbinding : binding.IsProper isWord := hproper binding List.mem_cons_self
    have hlaterProper : ∀ b ∈ later, b.IsProper isWord := fun b hb =>
      hproper b (List.mem_cons_of_mem binding hb)
    have hlater : later.Pairwise (Binding.LeftAloneBy isWord) := by
      refine ih hlaterNames hlaterProper fun b hb => ?_
      have hne : b.name ≠ binding.name := fun heq => hfirst (List.mem_map.2 ⟨b, hb, heq⟩)
      have hsame := h b (List.mem_cons_of_mem binding hb)
      rwa [substitute_cons, Binding.apply_name hbinding (hlaterProper b hb) hne] at hsame
    refine List.pairwise_cons.2 ⟨fun b hb => ?_, hlater⟩
    -- The later bindings work all at once, and they leave the value of the first one as it is.
    have hvalue : onPieces isWord (valueOf later) binding.value.toList = binding.value.toList := by
      have hsame := h binding List.mem_cons_self
      have happly : (binding.apply isWord binding.name).toList = binding.value.toList := by
        rw [binding.toList_apply hbinding, onPieces, pieces_word hbinding, List.flatMap_singleton,
          Binding.put, if_pos rfl]
      rw [substitute_cons, substitute_eq_simultaneous hlaterProper hlater, simultaneous,
        happly] at hsame
      rw [← String.toList_ofList (l := onPieces isWord _ _), hsame]
    by_cases hpiece : b.name.toList ∈ pieces isWord binding.value.toList
    · have hkept := eq_of_onPieces_eq_self (keepsMarks_valueOf hlaterProper) hvalue hpiece
      rw [valueOf_of_mem hlaterNames hb] at hkept
      exact Or.inl (String.toList_injective hkept)
    · exact Or.inr hpiece

/-- **Substitution one after the other and all at once.**  Let words be made of any class of
characters, and let the names of the bindings be different words.  Then putting their values one
after the other gives, for every text, what putting them all at once gives, exactly if no value
contains a name that a later binding changes. -/
theorem substitute_eq_simultaneous_iff (isWord : Char → Bool) {bindings : List Binding}
    (hnames : (bindings.map Binding.name).Nodup)
    (hproper : ∀ binding ∈ bindings, binding.IsProper isWord) :
    (∀ text, substituteBy isWord text bindings = simultaneous isWord text bindings) ↔
      bindings.Pairwise (Binding.LeftAloneBy isWord) := by
  refine ⟨fun h => pairwise_of_names hnames hproper fun binding hmem => ?_, fun h text => ?_⟩
  · rw [h, simultaneous_name hnames (hproper binding hmem) hmem]
  · exact substitute_eq_simultaneous hproper h text

/-- A value may contain the name of an earlier binding. -/
theorem substitute_eq_simultaneous_iff_earlier :
    let bindings : List Binding := [⟨"a", "x"⟩, ⟨"b", "a+1"⟩]
    (∀ text, substitute text bindings = simultaneous isWordChar text bindings) ∧
      simultaneous isWordChar "a*b" bindings = "x*a+1" := by
  intro bindings
  refine ⟨(substitute_eq_simultaneous_iff isWordChar (by decide) (by decide +kernel)).2 ?_,
    by decide +kernel⟩
  exact List.pairwise_pair.2 (Or.inr (by decide +kernel))

/-- **Values are substituted again.**  Two parameters are bound to each other's names, as in a call
that passes its own `b` for `a` and its own `a` for `b`.  One after the other, both become `a`. -/
theorem substitute_ne_simultaneous_swap :
    let bindings : List Binding := [⟨"a", "b"⟩, ⟨"b", "a"⟩]
    (bindings.map Binding.name).Nodup ∧ (∀ binding ∈ bindings, binding.IsProper isWordChar) ∧
      simultaneous isWordChar "use(a,b)" bindings = "use(b,a)" ∧
      substitute "use(a,b)" bindings = "use(a,a)" := by
  intro bindings
  exact ⟨by decide, by decide +kernel, by decide +kernel, by decide +kernel⟩

end Reshape.Text
