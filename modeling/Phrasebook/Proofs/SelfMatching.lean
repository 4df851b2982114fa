import Phrasebook.Proofs.LiteralMatching
import Phrasebook.Proofs.PlainText

/-! A phrase as an input.

A phrase is compiled and an input is normalized by different rules. Compiling
lowers each character on its own and drops the punctuation of templates;
normalizing lowers the whole text and keeps its punctuation. Where the rules
agree, the input fits the pattern run by run, and nowhere else.
-/

set_option autoImplicit false

namespace Phrasebook

open Text Part

namespace Orthography

/-- The word boundary that is due in a gap, once a word has begun. -/
def due (o : Orthography) (started pending : Bool) : List Char :=
  if started && pending then o.wordBoundary else []

variable {o : Orthography} {language : Language}

theorem isSeparator_of_mem_due {started pending : Bool} {c : Char}
    (member : c ∈ (ofLanguage language).due started pending) :
    (ofLanguage language).isSeparator c = true := by
  unfold due at member
  split at member
  · exact isSeparator_of_mem_wordBoundary member
  · simp at member

theorem eq_space_of_mem_due {started pending : Bool} {c : Char}
    (member : c ∈ (ofLanguage language).due started pending) : (c == ' ') = true := by
  unfold due at member
  split at member
  · simp [(eq_space_of_mem_wordBoundary member).1]
  · simp at member

theorem writeAll_dueSpace (language : Language) (started pending : Bool) :
    writeAll (Template.dueSpace (ofLanguage language) started pending) =
      (ofLanguage language).due started pending := by
  rw [Template.dueSpace, due, wordBoundary_ofLanguage]
  cases started <;> cases pending <;> cases (ofLanguage language).hasWordSpacing <;> rfl

theorem writeAll_map_ofChar (characters : List Char) :
    writeAll (characters.map ofChar) = characters := by
  induction characters with
  | nil => rfl
  | cons c rest ih => rw [List.map_cons, writeAll, write_ofChar, ih]; rfl

/-- The characters of the pattern of a text. -/
def wanted (o : Orthography) (started pending : Bool) (text : List Char) : List Spaced :=
  spaced (· == ' ') (writeAll (Template.literal o started pending text))

/-- The characters of a text as an input, each lowered on its own. -/
def found (o : Orthography) (started pending : Bool) (text : List Char) : List Spaced :=
  spaced o.isSeparator
    (spaceOut o.isSpace o.wordBoundary started pending (text.flatMap lowerChar))

section

variable {started pending : Bool} {c : Char} {rest : List Char}

theorem wanted_of_isSpace (space : o.isSpace c = true) :
    o.wanted started pending (c :: rest) = o.wanted started true rest := by
  rw [wanted, Template.literal, if_pos space, wanted]

theorem wanted_of_sign (solid : (ofLanguage language).isSpace c = false)
    (sign : (ofLanguage language).isPatternPunctuation c = true) :
    (ofLanguage language).wanted started pending (c :: rest) =
      ((ofLanguage language).wanted started false rest).modifyHead
        (.after ((ofLanguage language).due started pending)) := by
  rw [wanted, Template.literal, if_neg (by simp [solid]), if_pos sign, writeAll_append,
    writeAll_dueSpace, spaced_append_of_gap fun d member => eq_space_of_mem_due member, wanted]

theorem wanted_of_letter (solid : (ofLanguage language).isSpace c = false)
    (kept : (ofLanguage language).isPatternPunctuation c = false) :
    (ofLanguage language).wanted started pending (c :: rest) =
      ((lowerChar c).map (Spaced.mk []) ++
        (ofLanguage language).wanted true false rest).modifyHead
        (.after ((ofLanguage language).due started pending)) := by
  have letters : ∀ d ∈ lowerChar c, (d == ' ') = false := fun _ =>
    not_space_of_mem_lowerChar solid
  rw [wanted, Template.literal, if_neg (by simp [solid]), if_neg (by simp [kept]),
    writeAll_append, writeAll_append, writeAll_dueSpace, writeAll_map_ofChar,
    spaced_append_of_gap fun d member => eq_space_of_mem_due member,
    spaced_append_of_solid letters, wanted]

theorem found_of_isSpace (space : (ofLanguage language).isSpace c = true) :
    (ofLanguage language).found started pending (c :: rest) =
      (ofLanguage language).found started true rest := by
  rw [found, List.flatMap_cons, lowerChar_of_isCaseless (isCaseless_of_isSpace language space),
    List.singleton_append, spaceOut, if_pos space, found]

theorem found_of_sign (solid : (ofLanguage language).isSpace c = false)
    (separator : (ofLanguage language).isSeparator c = true) :
    (ofLanguage language).found started pending (c :: rest) =
      ((ofLanguage language).found true false rest).modifyHead
        (.after ((ofLanguage language).due started pending ++ [c])) := by
  rw [found, List.flatMap_cons,
    lowerChar_of_isCaseless (isCaseless_of_isSeparator language separator),
    List.singleton_append, spaceOut, if_neg (by simp [solid]), ← due,
    spaced_append_of_gap fun d member => isSeparator_of_mem_due member,
    spaced_cons_of_gap separator, modifyHead_after, found]

theorem found_of_letter (solid : (ofLanguage language).isSpace c = false)
    (kept : (ofLanguage language).isSeparator c = false) :
    (ofLanguage language).found started pending (c :: rest) =
      ((lowerChar c).map (Spaced.mk []) ++
        (ofLanguage language).found true false rest).modifyHead
        (.after ((ofLanguage language).due started pending)) := by
  have letters : ∀ d ∈ lowerChar c, (ofLanguage language).isSpace d = false ∧
      (ofLanguage language).isSeparator d = false := by
    intro d member
    constructor
    · apply not_of_mem_lowerChar _ solid member
      exact fun _ => isCaseless_of_isSpace language
    · apply not_of_mem_lowerChar _ kept member
      exact fun _ => isCaseless_of_isSeparator language
  obtain ⟨first, others, lowered⟩ := List.exists_cons_of_ne_nil (lowerChar_ne_nil c)
  rw [lowered] at letters
  have within := fun d (member : d ∈ others) => letters d (List.mem_cons_of_mem _ member)
  rw [found, List.flatMap_cons, lowered, List.cons_append, spaceOut,
    if_neg (by simp [letters first (List.mem_cons_self ..)]), ← due,
    spaceOut_append_of_solid fun d member => (within d member).1,
    spaced_append_of_gap fun d member => isSeparator_of_mem_due member, ← List.cons_append,
    spaced_append_of_solid fun d member => (letters d member).2, found]

end

/-- What holds of the runs before the rest of a phrase, `wide` in its pattern and
`run` in the input: they fit, and go on fitting. -/
structure Runs (o : Orthography) (anchored : Bool) (wide run : List Char)
    (begun wordDue started pending : Bool) (rest : List Char) : Prop where
  fits : o.FitsAt anchored wide run
  /-- Letters start words in both, punctuation only in the input. -/
  opened : begun = true → started = true
  bare : run = [] → started = true → begun = true
  follows : pending = true → wordDue = true
  /-- Only a French no-break space can be due in the pattern alone. -/
  ahead : wordDue = true → pending = true ∨ rest.head?.any o.isInputPunctuation = true

namespace Runs

variable {anchored begun wordDue started pending : Bool} {wide run rest : List Char}

theorem append_fits {more : List Char} (present : run ≠ []) (fits : o.FitsAt anchored wide run) :
    o.FitsAt anchored wide (run ++ more) := by
  rcases fits with fits | anchor
  · left
    unfold Fits at fits ⊢
    split
    · next empty =>
      rw [if_pos empty] at fits
      obtain ⟨c, others, rfl⟩ := List.exists_cons_of_ne_nil present
      simpa using fits
    · simp [present]
  · exact .inr anchor

theorem due_eq_nil (runs : o.Runs anchored wide run begun wordDue started pending rest)
    (empty : run = []) (narrow : o.due begun wordDue = []) : o.due started pending = [] := by
  unfold due at narrow ⊢
  split
  · next both =>
    rw [Bool.and_eq_true] at both
    rw [runs.bare empty both.1, runs.follows both.2] at narrow
    exact narrow
  · rfl

/-- The run before a letter. -/
theorem fits_letter (runs : o.Runs anchored wide run begun wordDue started pending rest)
    (letter : rest.head?.any o.isInputPunctuation = false) :
    o.FitsAt anchored (wide ++ o.due begun wordDue) (run ++ o.due started pending) := by
  by_cases narrow : o.due begun wordDue = []
  · rw [narrow, List.append_nil]
    by_cases empty : run = []
    · rw [runs.due_eq_nil empty narrow, List.append_nil]
      exact runs.fits
    · exact append_fits empty runs.fits
  · -- No sign is ahead, so what is due in the pattern is due in the input.
    have both : begun = true ∧ wordDue = true := by
      unfold due at narrow
      split at narrow
      · next both => simpa using both
      · exact absurd rfl narrow
    have spaced : o.due started pending = o.due begun wordDue := by
      have behind : pending = true := (runs.ahead both.2).resolve_right (by simp [letter])
      rw [behind, runs.opened both.1, both.1, both.2]
    apply fitsAt_of_ne_nil
    · simp [narrow]
    · simp [spaced, narrow]

/-- The run that ends in a sign. -/
theorem fits_sign (runs : o.Runs anchored wide run begun wordDue started pending rest) {c : Char}
    (sign : o.isInputPunctuation c = true) :
    o.FitsAt anchored (wide ++ o.due begun wordDue) (run ++ (o.due started pending ++ [c])) := by
  by_cases narrow : o.due begun wordDue = []
  · rw [narrow, List.append_nil]
    by_cases empty : run = []
    · rw [runs.due_eq_nil empty narrow, empty]
      apply fitsAt_of_punctuation
      simpa using sign
    · exact append_fits empty runs.fits
  · apply fitsAt_of_ne_nil
    · simp [narrow]
    · simp

theorem start (o : Orthography) (anchored : Bool) (text : List Char) :
    o.Runs anchored [] [] false false false false text :=
  ⟨fitsAt_nil_nil, id, fun _ => id, id, by simp⟩

theorem after_space {c : Char}
    (runs : o.Runs anchored wide run begun wordDue started pending (c :: rest)) :
    o.Runs anchored wide run begun true started true rest :=
  ⟨runs.fits, runs.opened, runs.bare, fun _ => rfl, fun _ => .inl rfl⟩

/-- After a no-break space that the input has lost. -/
theorem after_dropped {c : Char}
    (runs : o.Runs anchored wide run begun wordDue started pending (c :: rest))
    (ahead : rest.head?.any o.isInputPunctuation = true) :
    o.Runs anchored wide run begun true started pending rest :=
  ⟨runs.fits, runs.opened, runs.bare, fun _ => rfl, fun _ => .inr ahead⟩

theorem after_sign {c : Char}
    (runs : o.Runs anchored wide run begun wordDue started pending (c :: rest))
    (sign : o.isInputPunctuation c = true) :
    o.Runs anchored (wide ++ o.due begun wordDue) (run ++ (o.due started pending ++ [c]))
      begun false true false rest where
  fits := runs.fits_sign sign
  opened _ := rfl
  bare empty := by simp at empty
  follows due := by simp at due
  ahead due := by simp at due

theorem after_letter (o : Orthography) (rest : List Char) :
    o.Runs false [] [] true false true false rest where
  fits := fitsAt_nil_nil
  opened _ := rfl
  bare _ _ := rfl
  follows due := by simp at due
  ahead due := by simp at due

end Runs

section

variable {options : MatchOptions}

theorem plain_cons (o : Orthography) (options : MatchOptions) (c : Char) (rest : List Char) :
    o.plain options (c :: rest) =
      if o.respaces options = true ∧ c ∈ FrenchSpacing.noBreakSpaces ∧
          rest.head?.any FrenchSpacing.spacedPunctuation.contains = true then
        o.plain options rest
      else c :: o.plain options rest := by
  unfold plain
  by_cases french : o.respaces options = true
  · simp [french, FrenchSpacing.remove]
  · simp [french]

theorem isSpace_of_mem_noBreakSpaces (o : Orthography) {c : Char}
    (member : c ∈ FrenchSpacing.noBreakSpaces) : o.isSpace c = true := by
  have blank : FrenchSpacing.noBreakSpaces.all isBlank = true := by decide
  exact (o.isSpace_iff c).2 (.inr (List.all_eq_true.1 blank c member))

/-- In French the signs that lose the no-break space before them are punctuation. -/
theorem isInputPunctuation_of_respaces
    (french : (ofLanguage language).respaces options = true) {text : List Char}
    (spaced : text.head?.any FrenchSpacing.spacedPunctuation.contains = true) :
    text.head?.any (ofLanguage language).isInputPunctuation = true := by
  have signs : FrenchSpacing.spacedPunctuation.all (ofLanguage .french).isInputPunctuation =
      true := by
    decide +kernel
  have spoken : language = .french := by
    have spoken := (Bool.and_eq_true_iff.1 french).1
    simpa using spoken
  obtain ⟨d, head, listed⟩ := (Option.any_eq_true _ _).1 spaced
  rw [head, spoken]
  exact List.all_eq_true.1 signs d (List.contains_iff_mem.1 listed)

/-- Where all signs of a phrase are separators of input, its pattern and the input
agree, character by character and run by run. -/
theorem aligned_wanted_found (options : MatchOptions) {text : List Char}
    (signs : ∀ c ∈ text, (ofLanguage language).isPatternPunctuation c = true →
      (ofLanguage language).isSeparator c = true)
    {anchored begun wordDue started pending : Bool} {wide run : List Char}
    (runs : (ofLanguage language).Runs anchored wide run begun wordDue started pending text) :
    (ofLanguage language).Aligned anchored
      (((ofLanguage language).wanted begun wordDue text).modifyHead (.after wide))
      (((ofLanguage language).found started pending
        ((ofLanguage language).plain options text)).modifyHead (.after run)) := by
  -- Both texts are read side by side; `Runs` is what one character hands to the next.
  induction text generalizing anchored begun wordDue started pending wide run with
  | nil =>
    have empty : (ofLanguage language).plain options [] = [] := by
      unfold plain
      split <;> rfl
    rw [empty]
    trivial
  | cons c rest ih =>
    have within : ∀ d ∈ rest, (ofLanguage language).isPatternPunctuation d = true →
        (ofLanguage language).isSeparator d = true := fun d member =>
      signs d (List.mem_cons_of_mem _ member)
    rw [plain_cons]
    by_cases space : (ofLanguage language).isSpace c = true
    · rw [wanted_of_isSpace space]
      split
      · next dropped =>
        -- The space is due in the pattern alone, right before the sign.
        have ahead := isInputPunctuation_of_respaces dropped.1 dropped.2.2
        exact ih within (runs.after_dropped ahead)
      · rw [found_of_isSpace space]
        exact ih within runs.after_space
    · have solid : (ofLanguage language).isSpace c = false := by simpa using space
      rw [if_neg fun dropped => space (isSpace_of_mem_noBreakSpaces _ dropped.2.1)]
      by_cases sign : (ofLanguage language).isPatternPunctuation c = true
      · -- The sign joins the run of the input; the pattern has at most a space there.
        have separator := signs c (List.mem_cons_self ..) sign
        rw [wanted_of_sign solid sign, found_of_sign solid separator, modifyHead_after,
          modifyHead_after]
        exact ih within (runs.after_sign (isInputPunctuation_of_isSeparator separator solid))
      · have kept := not_isSeparator_of_letter language solid (by simpa using sign)
        have letter : (c :: rest).head?.any (ofLanguage language).isInputPunctuation = false := by
          rw [← Bool.not_eq_true]
          intro punctuation
          rw [isSeparator_of_isInputPunctuation punctuation] at kept
          simp at kept
        -- A letter ends both runs, so the rest starts with none.
        have rejoined : (ofLanguage language).Aligned false
            ((ofLanguage language).wanted true false rest)
            ((ofLanguage language).found true false
              ((ofLanguage language).plain options rest)) := by
          simpa [Spaced.after_nil] using ih within (.after_letter _ rest)
        obtain ⟨first, others, lowered⟩ := List.exists_cons_of_ne_nil (lowerChar_ne_nil c)
        rw [wanted_of_letter solid (by simpa using sign), found_of_letter solid kept,
          modifyHead_after, modifyHead_after, lowered]
        have fits := runs.fits_letter letter
        exact aligned_cons_iff.2 ⟨rfl, by simpa [Spaced.after] using fits,
          aligned_append others rejoined⟩

end

end Orthography

end Phrasebook
