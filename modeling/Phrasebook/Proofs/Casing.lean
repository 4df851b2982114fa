import Phrasebook.Orthography

/-! Characters that lowering never touches.

A caseless character is neither changed by lowering nor the lowercase form of
another character. Blanks are caseless, and so are the separators and signs of
every language: lowering a text moves none of them. ASCII letters between them
are lowered one by one. A lowercase form is lowered to itself.
-/

set_option autoImplicit false

namespace Phrasebook

namespace Text

/-- Blocks of controls, signs and blanks, without any letter that has case. -/
def caselessRanges : List (Nat × Nat) :=
  [(0x01, 0x40), (0x5B, 0x60), (0x7B, 0xBF), (0x1680, 0x1680), (0x2000, 0x206F),
    (0x3000, 0x303F), (0x30FB, 0x30FB), (0xFF01, 0xFF20)]

def isCaseless (c : Char) : Bool := inRanges caselessRanges c

/-- No run of capitals and no run of lowercase forms meets a caseless block. -/
theorem caselessRanges_apart :
    ∀ range ∈ caselessRanges, ∀ run ∈ lowercaseRuns,
      (range.2 < run.first ∨ run.last < range.1) ∧
        (range.2 < run.target ∨ run.target + (run.last - run.first) < range.1) := by
  decide +kernel

theorem toNat_ofNat_or (point : Nat) :
    (Char.ofNat point).toNat = point ∨ Char.ofNat point = '\u0000' := by
  by_cases valid : point.isValidChar
  · left
    rw [Char.ofNat, dif_pos valid]
    rfl
  · right
    rw [Char.ofNat, dif_neg valid]
    rfl

theorem lowerChar_of_apart {c : Char} (dotless : c ≠ 'İ')
    (apart : ∀ run ∈ lowercaseRuns, c.toNat < run.first ∨ run.last < c.toNat) :
    lowerChar c = [c] := by
  have uncovered : lowercaseRuns.find? (fun run => run.covers c.toNat) = none := by
    rw [List.find?_eq_none]
    intro run member covered
    have outside := apart run member
    simp only [CaseRun.covers, Bool.and_eq_true, decide_eq_true_eq] at covered
    omega
  rw [lowerChar, if_neg dotless, uncovered]

theorem lowerChar_of_isCaseless {c : Char} (caseless : isCaseless c = true) :
    lowerChar c = [c] := by
  obtain ⟨range, listed, low, high⟩ := inRanges_iff.1 caseless
  refine lowerChar_of_apart ?_ fun run member => ?_
  · rintro rfl
    exact absurd caseless (by decide)
  · have apart := (caselessRanges_apart range listed run member).1
    omega

/-- A caseless character is the lowercase form of itself only. -/
theorem eq_of_mem_lowerChar {c d : Char} (member : d ∈ lowerChar c)
    (caseless : isCaseless d = true) : d = c := by
  obtain ⟨range, listed, low, high⟩ := inRanges_iff.1 caseless
  unfold lowerChar at member
  split at member
  · rcases List.mem_cons.1 member with rfl | member
    · exact absurd caseless (by decide)
    · rw [List.mem_singleton.1 member] at caseless
      exact absurd caseless (by decide)
  · split at member
    · next run found =>
      have covered := List.find?_some found
      have apart := (caselessRanges_apart range listed run (List.mem_of_find?_eq_some found)).2
      rw [List.mem_singleton] at member
      subst member
      -- A code point that is no character would be replaced by zero, which is in no block.
      rcases toNat_ofNat_or (run.apply c.toNat) with same | zero
      · simp only [CaseRun.covers, Bool.and_eq_true, decide_eq_true_eq] at covered
        rw [same, CaseRun.apply] at low high
        omega
      · rw [zero] at caseless
        exact absurd caseless (by decide)
    · exact List.mem_singleton.1 member

/-- Lowering leads into no class of caseless characters. -/
theorem not_of_mem_lowerChar {chosen : Char → Bool}
    (caseless : ∀ d, chosen d = true → isCaseless d = true) {c d : Char}
    (other : chosen c = false) (member : d ∈ lowerChar c) : chosen d = false := by
  rw [← Bool.not_eq_true]
  intro inside
  rw [eq_of_mem_lowerChar member (caseless d inside), other] at inside
  simp at inside

theorem lowerChar_ne_nil (c : Char) : lowerChar c ≠ [] := by
  unfold lowerChar
  split
  · simp
  · split <;> simp

theorem isCaseless_of_isBlank {c : Char} (blank : isBlank c = true) : isCaseless c = true := by
  have within : ∀ range ∈ blankRanges, ∃ block ∈ caselessRanges,
      block.1 ≤ range.1 ∧ range.2 ≤ block.2 := by
    decide
  obtain ⟨range, listed, low, high⟩ := inRanges_iff.1 blank
  obtain ⟨block, member, first, last⟩ := within range listed
  exact inRanges_iff.2 ⟨block, member, Nat.le_trans first low, Nat.le_trans high last⟩

/-- The lowercase form of a character of a text that follows `before`, which is
given nearest character first. -/
def lowerIn (before : List Char) (c : Char) (after : List Char) : List Char :=
  if c = 'Σ' then if nearestIsCased before && !nearestIsCased after then ['ς'] else ['σ']
  else lowerChar c

theorem lowerAfter_cons (before : List Char) (c : Char) (rest : List Char) :
    lowerAfter before (c :: rest) = lowerIn before c rest ++ lowerAfter (c :: before) rest := rfl

theorem lowerChar_sigma : lowerChar 'Σ' = ['σ'] := by decide

theorem length_lowerIn (before : List Char) (c : Char) (after : List Char) :
    (lowerIn before c after).length = (lowerChar c).length := by
  unfold lowerIn
  split
  · next sigma =>
    subst sigma
    rw [lowerChar_sigma]
    split <;> rfl
  · rfl

theorem eq_of_mem_lowerIn {before after : List Char} {c d : Char}
    (member : d ∈ lowerIn before c after) (caseless : isCaseless d = true) : d = c := by
  unfold lowerIn at member
  split at member
  · split at member
    · rw [List.mem_singleton.1 member] at caseless
      exact absurd caseless (by decide)
    · rw [List.mem_singleton.1 member] at caseless
      exact absurd caseless (by decide)
  · exact eq_of_mem_lowerChar member caseless

theorem lowerIn_of_isCaseless {before after : List Char} {c : Char}
    (caseless : isCaseless c = true) : lowerIn before c after = [c] := by
  have other : ¬ c = 'Σ' := by
    rintro rfl
    exact absurd caseless (by decide)
  rw [lowerIn, if_neg other, lowerChar_of_isCaseless caseless]

theorem toLower_of_not_capital {c : Char} (other : ¬(0x41 ≤ c.toNat ∧ c.toNat ≤ 0x5A)) :
    c.toLower = c :=
  dif_neg fun ⟨least, most⟩ => other ⟨least, most⟩

theorem bounds_of_isLower {c : Char} (letter : c.isLower = true) :
    0x61 ≤ c.toNat ∧ c.toNat ≤ 0x7A := by
  obtain ⟨least, most⟩ := Bool.and_eq_true_iff.1 letter
  exact ⟨of_decide_eq_true least, of_decide_eq_true most⟩

theorem toLower_of_isCaseless {c : Char} (caseless : isCaseless c = true) : c.toLower = c := by
  have apart : ∀ range ∈ caselessRanges, range.2 < 0x41 ∨ 0x5A < range.1 := by decide
  obtain ⟨range, listed, low, high⟩ := inRanges_iff.1 caseless
  have outside := apart range listed
  apply toLower_of_not_capital
  omega

/-- ASCII characters have their ASCII lowercase forms. -/
theorem lowerChar_of_ascii {c : Char} (ascii : c.toNat < 128) : lowerChar c = [c.toLower] := by
  have capitals : lowercaseRuns = ⟨0x41, 0x5A, 1, 0x61⟩ :: lowercaseRuns.tail := rfl
  have beyond : ∀ run ∈ lowercaseRuns.tail, 128 ≤ run.first := by decide +kernel
  have uncovered : lowercaseRuns.tail.find? (fun run => run.covers c.toNat) = none := by
    rw [List.find?_eq_none]
    intro run listed
    have first := beyond run listed
    simp only [CaseRun.covers, Bool.and_eq_true, decide_eq_true_eq]
    omega
  have dotless : ¬c = 'İ' := by
    rintro rfl
    exact absurd ascii (by decide)
  rw [lowerChar, if_neg dotless, capitals, List.find?_cons]
  by_cases capital : 0x41 ≤ c.toNat ∧ c.toNat ≤ 0x5A
  · have covered : CaseRun.covers ⟨0x41, 0x5A, 1, 0x61⟩ c.toNat = true := by
      simp [CaseRun.covers, capital, Nat.mod_one]
    have lowered : ∀ point < 128, 0x41 ≤ point → point ≤ 0x5A →
        Char.ofNat (0x61 + (point - 0x41)) = (Char.ofNat point).toLower := by
      decide
    have same := lowered c.toNat ascii capital.1 capital.2
    rw [Char.ofNat_toNat] at same
    simp only [covered, CaseRun.apply, same]
  · have outside : CaseRun.covers ⟨0x41, 0x5A, 1, 0x61⟩ c.toNat = false := by
      simp only [CaseRun.covers, Bool.and_eq_false_iff, decide_eq_false_iff_not]
      omega
    simp only [outside, uncovered, toLower_of_not_capital capital]

theorem ascii_of_isLower_toLower {c : Char} (letter : c.toLower.isLower = true) :
    c.toNat < 128 := by
  by_cases capital : 0x41 ≤ c.toNat ∧ c.toNat ≤ 0x5A
  · omega
  · rw [toLower_of_not_capital capital] at letter
    have last := (bounds_of_isLower letter).2
    omega

theorem lowerChar_of_isLower_toLower {c : Char} (letter : c.toLower.isLower = true) :
    c ≠ 'Σ' ∧ lowerChar c = [c.toLower] := by
  have ascii := ascii_of_isLower_toLower letter
  refine ⟨?_, lowerChar_of_ascii ascii⟩
  rintro rfl
  exact absurd ascii (by decide)

theorem lowerChar_of_isCaseless_toLower {c : Char} (caseless : isCaseless c = true) :
    c ≠ 'Σ' ∧ lowerChar c = [c.toLower] := by
  refine ⟨?_, by rw [lowerChar_of_isCaseless caseless, toLower_of_isCaseless caseless]⟩
  rintro rfl
  exact absurd caseless (by decide)

/-- Where each character has one lowercase form wherever it stands, it is lowered by itself. -/
theorem lower_eq_map_toLower {text : List Char}
    (simple : ∀ c ∈ text, c ≠ 'Σ' ∧ lowerChar c = [c.toLower]) :
    lower text = text.map Char.toLower := by
  have general : ∀ before, lowerAfter before text = text.map Char.toLower := by
    induction text with
    | nil => exact fun _ => rfl
    | cons c rest ih =>
      intro before
      obtain ⟨other, lowered⟩ := simple c (List.mem_cons_self ..)
      have others := ih fun d member => simple d (List.mem_cons_of_mem _ member)
      rw [lowerAfter_cons, others, lowerIn, if_neg other, lowered]
      rfl
  exact general []

/-- Without a capital sigma, whose form depends on its place, each character is lowered by
itself. -/
theorem lower_eq_flatMap {text : List Char} (plain : 'Σ' ∉ text) :
    lower text = text.flatMap lowerChar := by
  have general : ∀ before, lowerAfter before text = text.flatMap lowerChar := by
    induction text with
    | nil => exact fun _ => rfl
    | cons c rest ih =>
      intro before
      rw [List.mem_cons, not_or] at plain
      rw [lowerAfter_cons, ih plain.2, lowerIn, if_neg (Ne.symm plain.1), List.flatMap_cons]
  exact general []

/-- The lowercase forms of one run are no capitals of the other: the two lie apart or take turns. -/
def clears (run other : CaseRun) : Bool :=
  (run.target + (run.last - run.first)).blt other.first || other.last.blt run.target ||
    (run.first.beq run.last || run.step.beq 2) && other.step.beq 2 &&
      ((run.target + other.first) % 2).beq 1

theorem clears_lowercaseRuns :
    (lowercaseRuns.all fun run => lowercaseRuns.all (clears run)) = true := by
  decide +kernel

/-- No run leads to a capital. -/
theorem not_covers_apply {run other : CaseRun} (listed : run ∈ lowercaseRuns)
    (present : other ∈ lowercaseRuns) {point : Nat} (covered : run.covers point = true) :
    other.covers (run.apply point) = false := by
  have apart := List.all_eq_true.1 (List.all_eq_true.1 clears_lowercaseRuns run listed) other present
  simp only [clears, Bool.or_eq_true, Bool.and_eq_true, Nat.blt_eq, Nat.beq_eq] at apart
  simp only [CaseRun.covers, Bool.and_eq_true, decide_eq_true_eq, beq_iff_eq] at covered
  obtain ⟨⟨first, last⟩, step⟩ := covered
  have image : run.apply point = run.target + (point - run.first) := rfl
  rw [← Bool.not_eq_true]
  intro again
  simp only [CaseRun.covers, Bool.and_eq_true, decide_eq_true_eq, beq_iff_eq] at again
  obtain ⟨⟨least, most⟩, steps⟩ := again
  rcases apart with apart | ⟨⟨single | two, paired⟩, parity⟩
  · omega
  · rw [paired] at steps
    omega
  · rw [paired] at steps
    rw [two] at step
    omega

theorem lowerChar_of_mem_lowerChar {c d : Char} (member : d ∈ lowerChar c) :
    lowerChar d = [d] := by
  have dotted : ∀ run ∈ lowercaseRuns, 'İ'.toNat < run.target ∨
      run.target + (run.last - run.first) < 'İ'.toNat := by
    decide +kernel
  unfold lowerChar at member
  split at member
  · have forms : (['i', '\u0307'].all fun d => lowerChar d == [d]) = true := by decide
    exact eq_of_beq (List.all_eq_true.1 forms d member)
  · next dotless =>
    split at member
    · next run found =>
      have covered := List.find?_some found
      have listed := List.mem_of_find?_eq_some found
      rw [List.mem_singleton] at member
      subst member
      -- A code point that is no character is replaced by zero, which has no other form.
      rcases toNat_ofNat_or (run.apply c.toNat) with same | zero
      · have uncovered : lowercaseRuns.find? (fun other =>
            other.covers (Char.ofNat (run.apply c.toNat)).toNat) = none := by
          rw [List.find?_eq_none, same]
          intro other present
          simp [not_covers_apply listed present covered]
        have plain : ¬Char.ofNat (run.apply c.toNat) = 'İ' := by
          intro dot
          rw [dot, CaseRun.apply] at same
          simp only [CaseRun.covers, Bool.and_eq_true, decide_eq_true_eq] at covered
          have := dotted run listed
          omega
        rw [lowerChar, if_neg plain, uncovered]
      · rw [zero]
        decide
    · next uncovered =>
      rw [List.mem_singleton.1 member, lowerChar, if_neg dotless, uncovered]

theorem lowerChar_of_mem_lowerAfter {before text : List Char} {d : Char}
    (member : d ∈ lowerAfter before text) : lowerChar d = [d] := by
  induction text generalizing before with
  | nil => simp [lowerAfter] at member
  | cons c rest ih =>
    rw [lowerAfter_cons, List.mem_append] at member
    rcases member with here | later
    · unfold lowerIn at here
      have sigmas : lowerChar 'ς' = ['ς'] ∧ lowerChar 'σ' = ['σ'] := by decide
      split at here
      · split at here
        · rw [List.mem_singleton.1 here]
          exact sigmas.1
        · rw [List.mem_singleton.1 here]
          exact sigmas.2
      · exact lowerChar_of_mem_lowerChar here
    · exact ih later

theorem flatMap_lowerChar_of_lowered {text : List Char} (lowered : ∀ c ∈ text, lowerChar c = [c]) :
    text.flatMap lowerChar = text := by
  induction text with
  | nil => rfl
  | cons c rest ih =>
    obtain ⟨first, others⟩ := List.forall_mem_cons.1 lowered
    rw [List.flatMap_cons, first, ih others]
    rfl

/-- A text of lowercase forms is its own lowercase form. -/
theorem lower_of_lowered {text : List Char} (lowered : ∀ c ∈ text, lowerChar c = [c]) :
    lower text = text := by
  have plain : 'Σ' ∉ text := by
    intro member
    have same := lowered 'Σ' member
    rw [lowerChar_sigma] at same
    exact absurd same (by decide)
  rw [lower_eq_flatMap plain, flatMap_lowerChar_of_lowered lowered]

end Text

open Text

namespace Orthography

/-- Templates drop every sign that input keeps, no sign is blank, and nothing in the
tables has case. -/
structure TablesAgree (o : Orthography) : Prop where
  dropped : ∀ c ∈ o.inputPunctuation ++ o.sentenceEnds, c ∈ o.patternPunctuation
  caseless : ∀ c ∈ o.whitespace ++ o.patternPunctuation, isCaseless c = true
  solid : ∀ c ∈ o.patternPunctuation, isBlank c = false

theorem tablesAgree (language : Language) : (ofLanguage language).TablesAgree := by
  -- The tables are read once for all that is checked of them.
  have checked : [latin .english, spanish, japanese, chinese].all (fun o =>
      (o.inputPunctuation.isPrefixOf o.patternPunctuation &&
        o.sentenceEnds.all o.patternPunctuation.contains) &&
      ((o.whitespace ++ o.patternPunctuation).all isCaseless &&
        o.patternPunctuation.all fun c => !isBlank c)) = true := by
    decide +kernel
  have agree : ∀ o ∈ [latin .english, spanish, japanese, chinese], o.TablesAgree := by
    intro o listed
    have holds := List.all_eq_true.1 checked o listed
    simp only [Bool.and_eq_true] at holds
    obtain ⟨⟨kept, ends⟩, caseless, solid⟩ := holds
    refine ⟨fun c member => ?_, List.all_eq_true.1 caseless, fun c sign => ?_⟩
    · rcases List.mem_append.1 member with sign | stop
      · exact (List.isPrefixOf_iff_prefix.1 kept).subset sign
      · exact List.contains_iff_mem.1 (List.all_eq_true.1 ends c stop)
    · simpa using List.all_eq_true.1 solid c sign
  cases language with
  | spanish => exact agree spanish (by simp)
  | japanese => exact agree japanese (by simp)
  | chinese => exact agree chinese (by simp)
  | english | german | french | italian | portuguese =>
    have latinTables := agree (latin .english) (by simp)
    exact ⟨latinTables.dropped, latinTables.caseless, latinTables.solid⟩

theorem isSpace_iff (o : Orthography) (c : Char) :
    o.isSpace c = true ↔ c ∈ o.whitespace ∨ isBlank c = true := by
  simp [isSpace, isWhitespace]

/-- The whitespace of every language is blank. -/
theorem isSpace_eq_isBlank (language : Language) (c : Char) :
    (ofLanguage language).isSpace c = isBlank c := by
  have blank : (ofLanguage language).whitespace.all isBlank = true := by
    cases language <;> decide
  rw [Bool.eq_iff_iff, isSpace_iff, or_iff_right_of_imp (List.all_eq_true.1 blank c)]

theorem isSpace_space (o : Orthography) : o.isSpace ' ' = true :=
  (o.isSpace_iff ' ').2 (.inr (by decide))

/-- Lowering makes no space. -/
theorem not_space_of_mem_lowerChar {o : Orthography} {c d : Char} (solid : o.isSpace c = false)
    (member : d ∈ lowerChar c) : (d == ' ') = false := by
  have other : (c == ' ') = false := by
    rw [beq_eq_false_iff_ne]
    rintro rfl
    simp [isSpace_space] at solid
  have caseless : ∀ e : Char, (e == ' ') = true → isCaseless e = true := by
    intro e space
    rw [beq_iff_eq.1 space]
    decide
  exact not_of_mem_lowerChar caseless other member

theorem isCaseless_of_isSpace (language : Language) {c : Char}
    (space : (ofLanguage language).isSpace c = true) : isCaseless c = true := by
  rcases ((ofLanguage language).isSpace_iff c).1 space with listed | blank
  · exact (tablesAgree language).caseless c (List.mem_append_left _ listed)
  · exact isCaseless_of_isBlank blank

theorem isCaseless_of_isPatternPunctuation (language : Language) {c : Char}
    (sign : (ofLanguage language).isPatternPunctuation c = true) : isCaseless c = true := by
  refine (tablesAgree language).caseless c (List.mem_append_right _ ?_)
  rcases (((ofLanguage language).isPatternPunctuation_iff c).1 sign).1 with listed | listed
  · exact listed
  · exact (tablesAgree language).dropped c (List.mem_append_right _ listed)

theorem not_isSpace_of_isPatternPunctuation (language : Language) {c : Char}
    (sign : (ofLanguage language).isPatternPunctuation c = true) :
    (ofLanguage language).isSpace c = false := by
  have listed : c ∈ (ofLanguage language).patternPunctuation := by
    rcases (((ofLanguage language).isPatternPunctuation_iff c).1 sign).1 with listed | stop
    · exact listed
    · exact (tablesAgree language).dropped c (List.mem_append_right _ stop)
  rw [← Bool.not_eq_true, isSpace_iff, not_or]
  exact ⟨(((ofLanguage language).isPatternPunctuation_iff c).1 sign).2,
    by simp [(tablesAgree language).solid c listed]⟩

/-- A separator of input is whitespace or dropped from templates. -/
theorem isSpace_or_isPatternPunctuation (language : Language) {c : Char}
    (separator : (ofLanguage language).isSeparator c = true) :
    (ofLanguage language).isSpace c = true ∨
      (ofLanguage language).isPatternPunctuation c = true := by
  by_cases space : c ∈ (ofLanguage language).whitespace
  · exact .inl ((isSpace_iff _ c).2 (.inl space))
  · right
    refine (isPatternPunctuation_iff _ c).2 ⟨.inl ?_, space⟩
    rcases (isSeparator_iff _ c).1 separator with listed | listed | listed
    · exact absurd listed space
    · exact (tablesAgree language).dropped c (List.mem_append_left _ listed)
    · exact (tablesAgree language).dropped c (List.mem_append_right _ listed)

/-- A letter of a template is no separator of input. -/
theorem not_isSeparator_of_letter (language : Language) {c : Char}
    (solid : (ofLanguage language).isSpace c = false)
    (letter : (ofLanguage language).isPatternPunctuation c = false) :
    (ofLanguage language).isSeparator c = false := by
  rw [← Bool.not_eq_true]
  intro separator
  rcases isSpace_or_isPatternPunctuation language separator with space | sign
  · simp [solid] at space
  · simp [letter] at sign

theorem isCaseless_of_isSeparator (language : Language) {c : Char}
    (separator : (ofLanguage language).isSeparator c = true) : isCaseless c = true := by
  rcases isSpace_or_isPatternPunctuation language separator with space | sign
  · exact isCaseless_of_isSpace language space
  · exact isCaseless_of_isPatternPunctuation language sign

end Orthography

end Phrasebook
