import Phrasebook.Proofs.SelfMatching

/-! When a model finds its own phrase.

A phrase reads alike as a template and as an input if every sign that it loses in
the template is a separator of input, if lowering it as a whole is lowering each
of its characters, and if it has no mark of a word boundary. A phrase without
template signs is found by its own model exactly then.
-/

set_option autoImplicit false

namespace Phrasebook

open Text Part

namespace Orthography

structure ReadsAlike (o : Orthography) (options : MatchOptions) (phrase : List Char) : Prop where
  unmarked : boundaryMark ∉ phrase
  signs : ∀ c ∈ phrase, o.isPatternPunctuation c = true → o.isSeparator c = true
  lowered : lower (o.plain options phrase) = (o.plain options phrase).flatMap lowerChar

/-- A character of an input that is neither whitespace nor any other separator. -/
def isSolid (o : Orthography) (c : Char) : Bool := !o.isSpace c && !o.isSeparator c

/-- What a character of a phrase puts into the pattern, boundaries apart. -/
def kept (o : Orthography) (c : Char) : List Char :=
  if o.isSpace c || o.isPatternPunctuation c then [] else (lowerChar c).filter (· != boundaryMark)

variable {language : Language} {before after : List Char} {c : Char}

theorem isSolid_boundaryMark (language : Language) :
    (ofLanguage language).isSolid boundaryMark = true := by
  cases language <;> decide +kernel

theorem isPatternPunctuation_boundaryMark (language : Language) :
    (ofLanguage language).isPatternPunctuation boundaryMark = false := by
  cases language <;> decide +kernel

theorem isSolid_of_letter (solid : (ofLanguage language).isSpace c = false)
    (letter : (ofLanguage language).isPatternPunctuation c = false) :
    (ofLanguage language).isSolid c = true := by
  simp [isSolid, solid, not_isSeparator_of_letter language solid letter]

theorem isSolid_of_mem_lowerIn (solid : (ofLanguage language).isSolid c = true) {d : Char}
    (member : d ∈ lowerIn before c after) : (ofLanguage language).isSolid d = true := by
  have caseless : ∀ e, (!(ofLanguage language).isSolid e) = true → isCaseless e = true := by
    intro e gap
    simp only [isSolid, Bool.not_and, Bool.not_not, Bool.or_eq_true] at gap
    exact gap.elim (isCaseless_of_isSpace language) (isCaseless_of_isSeparator language)
  rw [← Bool.not_eq_false]
  intro gap
  have same := eq_of_mem_lowerIn member (caseless d (by simp [gap]))
  rw [same, solid] at gap
  simp at gap

theorem filter_lowerIn (solid : (ofLanguage language).isSolid c = true) :
    (lowerIn before c after).filter (ofLanguage language).isSolid = lowerIn before c after :=
  List.filter_eq_self.2 fun _ member => isSolid_of_mem_lowerIn solid member

theorem length_kept_le (language : Language) (before : List Char) (c : Char) (after : List Char) :
    ((ofLanguage language).kept c).length ≤
      ((lowerIn before c after).filter (ofLanguage language).isSolid).length := by
  unfold kept
  split
  · simp
  · next letter =>
    simp only [Bool.or_eq_true, not_or, Bool.not_eq_true] at letter
    rw [filter_lowerIn (isSolid_of_letter letter.1 letter.2), length_lowerIn]
    exact List.length_filter_le ..

/-- A character that puts into the pattern what the input keeps of it reads alike. -/
theorem readsAlike_of_kept_eq
    (same : (ofLanguage language).kept c =
      (lowerIn before c after).filter (ofLanguage language).isSolid) :
    c ≠ boundaryMark ∧
      ((ofLanguage language).isPatternPunctuation c = true →
        (ofLanguage language).isSeparator c = true) ∧
      lowerIn before c after = lowerChar c := by
  by_cases space : (ofLanguage language).isSpace c = true
  · have caseless := isCaseless_of_isSpace language space
    refine ⟨?_, fun sign => ?_, ?_⟩
    · rintro rfl
      have solid := isSolid_boundaryMark language
      simp [isSolid, space] at solid
    · simp [not_isSpace_of_isPatternPunctuation language sign] at space
    · rw [lowerIn_of_isCaseless caseless, lowerChar_of_isCaseless caseless]
  have solid : (ofLanguage language).isSpace c = false := by simpa using space
  by_cases sign : (ofLanguage language).isPatternPunctuation c = true
  · have caseless := isCaseless_of_isPatternPunctuation language sign
    rw [kept, sign, Bool.or_true, if_pos rfl, lowerIn_of_isCaseless caseless] at same
    refine ⟨?_, fun _ => ?_, ?_⟩
    · rintro rfl
      simp [isPatternPunctuation_boundaryMark] at sign
    · simpa [isSolid, solid] using same.symm
    · rw [lowerIn_of_isCaseless caseless, lowerChar_of_isCaseless caseless]
  · -- A letter: no character is lost from its lowercase form, so none is a mark.
    have letter : (ofLanguage language).isPatternPunctuation c = false := by simpa using sign
    rw [filter_lowerIn (isSolid_of_letter solid letter), kept, solid, letter, Bool.or_false,
      if_neg Bool.false_ne_true] at same
    have unmarked : ∀ d ∈ lowerChar c, (d != boundaryMark) = true := by
      rw [← List.length_filter_eq_length_iff, same, length_lowerIn]
    refine ⟨?_, fun mark => absurd mark sign, ?_⟩
    · rintro rfl
      rw [lowerChar_of_isCaseless (by decide)] at unmarked
      simpa using unmarked boundaryMark (List.mem_singleton_self _)
    · rw [← same, List.filter_eq_self.2 unmarked]

theorem length_flatMap_kept_le (language : Language) (before text : List Char) :
    (text.flatMap (ofLanguage language).kept).length ≤
      ((lowerAfter before text).filter (ofLanguage language).isSolid).length := by
  induction text generalizing before with
  | nil => simp
  | cons c rest ih =>
    have head := length_kept_le language before c rest
    have tail := ih (c :: before)
    rw [List.flatMap_cons, lowerAfter_cons, List.filter_append, List.length_append,
      List.length_append]
    omega

/-- No character puts more into the pattern than the input keeps of it. So if a text
puts in as much as is kept of it, each of its characters does. -/
theorem readsAlike_of_flatMap_kept_eq {text : List Char}
    (same : text.flatMap (ofLanguage language).kept =
      (lowerAfter before text).filter (ofLanguage language).isSolid) :
    (∀ c ∈ text, c ≠ boundaryMark ∧
      ((ofLanguage language).isPatternPunctuation c = true →
        (ofLanguage language).isSeparator c = true)) ∧
      lowerAfter before text = text.flatMap lowerChar := by
  induction text generalizing before with
  | nil => simp [lowerAfter]
  | cons c rest ih =>
    rw [List.flatMap_cons, lowerAfter_cons, List.filter_append] at same
    have lengths := congrArg List.length same
    rw [List.length_append, List.length_append] at lengths
    have head := length_kept_le language before c rest
    have tail := length_flatMap_kept_le language (c :: before) rest
    -- Neither part can make up for a shorter one, so the lists agree piece by piece.
    obtain ⟨first, others⟩ := List.append_inj same (by omega)
    obtain ⟨unmarked, signs, lowered⟩ := readsAlike_of_kept_eq first
    obtain ⟨within, rejoined⟩ := ih others
    refine ⟨fun d member => ?_, ?_⟩
    · rcases List.mem_cons.1 member with rfl | inside
      · exact ⟨unmarked, signs⟩
      · exact within d inside
    · rw [lowerAfter_cons, lowered, rejoined, List.flatMap_cons]

variable {options : MatchOptions}

/-- The no-break spaces of French put nothing into a pattern. -/
theorem flatMap_kept_plain (o : Orthography) (options : MatchOptions) (text : List Char) :
    (o.plain options text).flatMap o.kept = text.flatMap o.kept := by
  induction text with
  | nil =>
    unfold plain
    split <;> rfl
  | cons c rest ih =>
    rw [plain_cons]
    split
    · next dropped =>
      have space := isSpace_of_mem_noBreakSpaces o dropped.2.1
      rw [ih, List.flatMap_cons, kept, space, Bool.true_or, if_pos rfl]
      rfl
    · rw [List.flatMap_cons, List.flatMap_cons, ih]

theorem mem_plain_or_isSpace {o : Orthography} {text : List Char} {c : Char} (member : c ∈ text) :
    c ∈ o.plain options text ∨ o.isSpace c = true := by
  induction text with
  | nil => simp at member
  | cons d rest ih =>
    rw [plain_cons]
    split
    · next dropped =>
      rcases List.mem_cons.1 member with rfl | inside
      · exact .inr (isSpace_of_mem_noBreakSpaces o dropped.2.1)
      · exact ih inside
    · rcases List.mem_cons.1 member with rfl | inside
      · exact .inl (List.mem_cons_self ..)
      · exact (ih inside).imp_left (List.mem_cons_of_mem _)

/-- The characters of a normalized input are the solid ones of its lowercase form. -/
theorem filter_normalizeInput (language : Language) (options : MatchOptions) (text : List Char) :
    ((ofLanguage language).normalizeInput options text).filter
        (fun c => !(ofLanguage language).isSeparator c) =
      (lower ((ofLanguage language).plain options text)).filter
        (ofLanguage language).isSolid := by
  obtain ⟨dropped, whole, gap⟩ := exists_normalizeInput_append_separators language options text
  have lost : dropped.filter (fun c => !(ofLanguage language).isSeparator c) = [] := by
    rw [List.filter_eq_nil_iff]
    intro c member
    simp [gap c member]
  have within : ∀ c ∈ (ofLanguage language).wordBoundary,
      (!(ofLanguage language).isSeparator c) = false := by
    intro c member
    rw [isSeparator_of_mem_wordBoundary member]
    rfl
  calc ((ofLanguage language).normalizeInput options text).filter
        (fun c => !(ofLanguage language).isSeparator c)
      = ((ofLanguage language).normalizePhrase ((ofLanguage language).plain options text)).filter
          (fun c => !(ofLanguage language).isSeparator c) := by
        rw [← whole, List.filter_append, lost, List.append_nil]
    _ = (lower ((ofLanguage language).plain options text)).filter
          (ofLanguage language).isSolid := by
        rw [normalizePhrase_eq_spaceOut, filter_spaceOut within]
        rfl

theorem spaced_normalizeInput {text : List Char}
    (lowered : lower ((ofLanguage language).plain options text) =
      ((ofLanguage language).plain options text).flatMap lowerChar) :
    spaced (ofLanguage language).isSeparator ((ofLanguage language).normalizeInput options text) =
      (ofLanguage language).found false false ((ofLanguage language).plain options text) := by
  obtain ⟨dropped, whole, gap⟩ := exists_normalizeInput_append_separators language options text
  rw [← spaced_append_of_gap_right _ gap, whole, normalizePhrase_eq_spaceOut, lowered, found]

end Orthography

namespace Part

theorem isLiteral_ofChar (c : Char) : (ofChar c).isLiteral = (c != boundaryMark) := by
  unfold ofChar
  split
  · next mark => simp [isLiteral, mark]
  · next letter => simp [isLiteral, letter]

theorem writeAll_filter_map_ofChar (characters : List Char) :
    writeAll ((characters.map ofChar).filter isLiteral) =
      characters.filter (· != boundaryMark) := by
  induction characters with
  | nil => rfl
  | cons c rest ih =>
    rw [List.map_cons, List.filter_cons, List.filter_cons, isLiteral_ofChar]
    split
    · rw [writeAll, write_ofChar, ih]
      rfl
    · exact ih

end Part

namespace Template

open Orthography

variable {language : Language} {started pending : Bool} {text : List Char}

/-- Boundaries are the only parts of a text without template signs that are not literal. -/
theorem isLiteral_or_boundary {o : Orthography} {part : Part}
    (member : part ∈ literal o started pending text) :
    part.isLiteral = true ∨ part = boundary := by
  rcases mem_literal member with rfl | ⟨_, _, d, _, rfl⟩
  · exact .inl rfl
  · unfold ofChar
    split
    · exact .inr rfl
    · exact .inl rfl

theorem isLiteral_of_unmarked {o : Orthography} (unmarked : boundaryMark ∉ text) {part : Part}
    (member : part ∈ literal o started pending text) : part.isLiteral = true := by
  rcases mem_literal member with rfl | ⟨c, listed, d, lowered, rfl⟩
  · rfl
  · rw [isLiteral_ofChar, bne_iff_ne]
    rintro rfl
    rw [eq_of_mem_lowerChar lowered (by decide)] at unmarked
    exact unmarked listed

/-- What a text puts into its pattern, spaces and boundaries apart. -/
theorem filter_writeAll_literal (language : Language) (started pending : Bool) (text : List Char) :
    (writeAll ((literal (ofLanguage language) started pending text).filter isLiteral)).filter
        (fun c => !(c == ' ')) =
      text.flatMap (ofLanguage language).kept := by
  induction text generalizing started pending with
  | nil => rfl
  | cons c rest ih =>
    have space : (writeAll ((dueSpace (ofLanguage language) started pending).filter
        isLiteral)).filter (fun c => !(c == ' ')) = [] := by
      unfold dueSpace
      split <;> rfl
    rw [literal, List.flatMap_cons, kept]
    split
    · next blank => rw [ih, blank, Bool.true_or, if_pos rfl, List.nil_append]
    · next solid =>
      rw [List.filter_append, writeAll_append, List.filter_append, space, List.nil_append]
      split
      · next sign => rw [ih, sign, Bool.or_true, if_pos rfl, List.nil_append]
      · next letter =>
        have narrow : ∀ d ∈ (lowerChar c).filter (· != boundaryMark), (!(d == ' ')) = true := by
          intro d member
          have lowered := (List.mem_filter.1 member).1
          rw [not_space_of_mem_lowerChar (by simpa using solid) lowered]
          rfl
        rw [List.filter_append, writeAll_append, List.filter_append, ih,
          writeAll_filter_map_ofChar, List.filter_eq_self.2 narrow]
        simp [solid, letter]

end Template

namespace Matcher

open Orthography

variable {m : Matcher} {language : Language} {phrase : String} {pattern : Pattern}
  {options : MatchOptions}

/-- A phrase without template signs matches itself exactly if it reads alike. -/
theorem isSome_matchText_phrase_iff (spelled : m.orthography = .ofLanguage language)
    (plain : ∀ c ∈ phrase.toList, c ∉ Template.signs)
    (compiled : Template.compile m.orthography phrase = .ok pattern) :
    (m.matchText pattern.parts (m.orthography.normalizeInput options phrase.toList)).isSome =
        true ↔
      m.orthography.ReadsAlike options phrase.toList := by
  obtain ⟨o, entity?, respaces⟩ := m
  simp only at spelled compiled ⊢
  subst spelled
  have parts := Template.parts_of_compile plain compiled
  have bare : ∀ part ∈ pattern.parts, part.isLiteral = true ∨ part = boundary := by
    rw [parts]
    exact fun _ => Template.isLiteral_or_boundary
  have kinds : ∀ part ∈ pattern.parts, part.IsCompiled (ofLanguage language) := by
    have flat : leavesOfAll pattern.parts = pattern.parts := by
      apply leavesOfAll_of_plain
      intro part member
      rcases bare part member with literal | rfl
      · exact isPlain_of_isLiteral literal
      · rfl
    rw [← flat]
    exact Template.forall_leaves_of_compile compiled
  have normal := (ofLanguage language).isNormal_normalizeInput options phrase.toList
  have spaces := fun c member => normal.isSeparator_of_isSpace (c := c) member
  constructor
  · -- Both sides have the same characters, so no character of the phrase counts on one only.
    intro matched
    have fewer := isSome_matchParts_filter bare matched
    rw [isSome_matchParts_iff (fun part member => kinds part (List.mem_filter.1 member).1)
      (fun part member => (List.mem_filter.1 member).2) rfl spaces] at fewer
    have characters := ((aligned_true_iff normal).1 fewer).1
    rw [map_char_spaced, map_char_spaced, parts, Template.filter_writeAll_literal,
      filter_normalizeInput, ← flatMap_kept_plain _ options] at characters
    obtain ⟨alike, lowered⟩ := readsAlike_of_flatMap_kept_eq characters
    refine ⟨fun marked => ?_, fun c member sign => ?_, lowered⟩
    · rcases mem_plain_or_isSpace marked with inside | space
      · exact (alike boundaryMark inside).1 rfl
      · have solid := isSolid_boundaryMark language
        simp [isSolid, space] at solid
    · rcases mem_plain_or_isSpace member with inside | space
      · exact (alike c inside).2 sign
      · simp [not_isSpace_of_isPatternPunctuation language sign] at space
  · -- Conversely the runs fit all along the phrase.
    intro alike
    have literal : ∀ part ∈ pattern.parts, part.isLiteral = true := by
      rw [parts]
      exact fun _ => Template.isLiteral_of_unmarked alike.unmarked
    have aligned := aligned_wanted_found options alike.signs (.start _ true _)
    simp only [Spaced.after_nil, List.modifyHead_id, id] at aligned
    refine (isSome_matchParts_iff kinds literal rfl spaces).2 ?_
    rw [parts]
    unfold AlignedAt
    simp only [Cursor.atStart]
    rw [spaced_normalizeInput alike.lowered]
    exact aligned

end Matcher

namespace Model

open Numeral

/-- A model with one phrase of one intent. -/
theorem exists_of_addIntent_new {tag id phrase : String} {numbers : Registry} {model : Model}
    (added : (new tag numbers).addIntent id [phrase] = .ok model) :
    ∃ pattern, Template.compile model.orthography phrase = .ok pattern ∧
      model.options = {} ∧ model.intents.values = [⟨id, 0, [pattern]⟩] := by
  obtain ⟨-, patterns, compiled, eq⟩ := exists_of_addIntent added
  obtain ⟨pattern, rfl, first⟩ := exists_of_compileAll_singleton compiled
  have spelled : model.orthography = (new tag numbers).orthography := by rw [eq]
  rw [← spelled] at first
  refine ⟨pattern, first, ?_, ?_⟩
  · rw [eq]
    simp only [new]
  · rw [eq]
    simp only [new, Dictionary.values_alter_empty]
    rfl

/-- The result for a phrase as an input, or none. -/
theorem findMatches_phrase {tag id phrase : String} {numbers : Registry} {model : Model}
    (added : (new tag numbers).addIntent id [phrase] = .ok model)
    (plain : ∀ c ∈ phrase.toList, c ∉ Template.signs) :
    (model.orthography.ReadsAlike {} phrase.toList →
        model.findMatches phrase =
          [{ intentId := id
             pattern := phrase
             entities := []
             priority := 0
             bytesMatched := model.orthography.solidBytes (model.normalize phrase) }]) ∧
      (¬ model.orthography.ReadsAlike {} phrase.toList → model.findMatches phrase = []) := by
  obtain ⟨language, spelled⟩ := (Reachable.addIntent (.new tag numbers) added).exists_language
  obtain ⟨pattern, compiled, options, intents⟩ := exists_of_addIntent_new added
  have normalized : model.normalize phrase =
      model.orthography.normalizeInput {} phrase.toList := by
    rw [normalize, options]
  have results : model.findMatches phrase =
      matchesOf model.matcher ⟨id, 0, [pattern]⟩ (model.normalize phrase) := by
    rw [findMatches, intents, List.flatMap_singleton]
  have exactly : (model.matcher.matchText pattern.parts (model.normalize phrase)).isSome = true ↔
      model.orthography.ReadsAlike {} phrase.toList := by
    rw [normalized]
    exact Matcher.isSome_matchText_phrase_iff (m := model.matcher) spelled plain compiled
  rw [results, matchesOf]
  cases matched : model.matcher.matchText pattern.parts (model.normalize phrase) with
  | none =>
    rw [matched] at exactly
    refine ⟨fun alike => absurd (exactly.2 alike) (by simp), fun _ => ?_⟩
    simp [matched]
  | some found =>
    rw [matched] at exactly
    refine ⟨fun alike => ?_, fun apart => absurd (exactly.1 rfl) apart⟩
    have literal : ∀ part ∈ pattern.parts, part.isLiteral = true := by
      rw [Template.parts_of_compile plain compiled]
      exact fun _ => Template.isLiteral_of_unmarked alike.unmarked
    have captures := Matcher.captures_of_matchParts literal matched
    have bytes : found.bytes = model.orthography.solidBytes (model.normalize phrase) := by
      rw [normalized] at matched ⊢
      exact Matcher.bytes_of_compile (m := model.matcher) spelled compiled
        (model.orthography.isNormal_normalizeInput {} phrase.toList) matched
    simp [matched, captures, bytes, phrase_of_compile compiled]

/-- A phrase without template signs is found by its own model exactly if every sign
that templates drop from it is a separator of input. The mark of a word boundary is
left out, and so are capital sigmas in their final form. -/
theorem findMatches_own_phrase {tag id phrase : String} {numbers : Registry} {model : Model}
    (added : (new tag numbers).addIntent id [phrase] = .ok model)
    (plain : ∀ c ∈ phrase.toList, c ∉ Template.signs)
    (unmarked : boundaryMark ∉ phrase.toList)
    (lowered : lower (model.orthography.plain {} phrase.toList) =
      (model.orthography.plain {} phrase.toList).flatMap lowerChar) :
    ((∀ c ∈ phrase.toList, model.orthography.isPatternPunctuation c = true →
        model.orthography.isSeparator c = true) →
      model.findMatches phrase =
        [{ intentId := id
           pattern := phrase
           entities := []
           priority := 0
           bytesMatched := byteLength ((model.normalize phrase).filter fun c =>
             c ∉ model.orthography.whitespace ∧ c ∉ model.orthography.inputPunctuation ∧
               c ∉ model.orthography.sentenceEnds) }]) ∧
      ((∃ c ∈ phrase.toList, model.orthography.isPatternPunctuation c = true ∧
          model.orthography.isSeparator c = false) →
        model.findMatches phrase = []) := by
  obtain ⟨alike, apart⟩ := findMatches_phrase added plain
  rw [← Orthography.solidBytes_eq]
  refine ⟨fun signs => alike ⟨unmarked, signs, lowered⟩, fun dropped => apart fun readsAlike => ?_⟩
  obtain ⟨c, member, sign, solid⟩ := dropped
  rw [readsAlike.signs c member sign] at solid
  simp at solid

/-- A French question with a no-break space before its mark. -/
theorem exists_findMatches_own_phrase :
    ∃ model, (new "fr-FR" .empty).addIntent "time" ["Quelle heure est-il\u00A0?"] = .ok model ∧
      (∀ c ∈ "Quelle heure est-il\u00A0?".toList, c ∉ Template.signs) ∧
      boundaryMark ∉ "Quelle heure est-il\u00A0?".toList ∧
      lower (model.orthography.plain {} "Quelle heure est-il\u00A0?".toList) =
        (model.orthography.plain {} "Quelle heure est-il\u00A0?".toList).flatMap lowerChar ∧
      model.findMatches "Quelle heure est-il\u00A0?" =
        [⟨"time", "Quelle heure est-il\u00A0?", [], 0, 16⟩] := by
  have checked : "Quelle heure est-il\u00A0?".toList.all
      (fun c => !Template.signs.contains c && c != boundaryMark) = true := by
    decide +kernel
  have plain : ∀ c ∈ "Quelle heure est-il\u00A0?".toList, c ∉ Template.signs := by
    intro c member
    have both := List.all_eq_true.1 checked c member
    simp only [Bool.and_eq_true, Bool.not_eq_true', List.contains_eq_mem] at both
    simpa using both.1
  have unmarked : boundaryMark ∉ "Quelle heure est-il\u00A0?".toList := by
    intro member
    have both := List.all_eq_true.1 checked boundaryMark member
    simp at both
  have evaluated :
      ((new "fr-FR" .empty).addIntent "time" ["Quelle heure est-il\u00A0?"]).map (fun model =>
        (decide (lower (model.orthography.plain {} "Quelle heure est-il\u00A0?".toList) =
          (model.orthography.plain {} "Quelle heure est-il\u00A0?".toList).flatMap lowerChar),
        "Quelle heure est-il\u00A0?".toList.all fun c =>
          !model.orthography.isPatternPunctuation c || model.orthography.isSeparator c,
        model.orthography.solidBytes (model.normalize "Quelle heure est-il\u00A0?"))) =
        .ok (true, true, 16) := by
    decide +kernel
  obtain ⟨model, added, results⟩ := exists_of_map_eq_ok evaluated
  simp only [Prod.mk.injEq, decide_eq_true_eq] at results
  obtain ⟨lowered, kept, bytes⟩ := results
  have signs : ∀ c ∈ "Quelle heure est-il\u00A0?".toList,
      model.orthography.isPatternPunctuation c = true →
        model.orthography.isSeparator c = true := by
    intro c member sign
    simpa [sign] using List.all_eq_true.1 kept c member
  refine ⟨model, added, plain, unmarked, lowered, ?_⟩
  rw [(findMatches_own_phrase added plain unmarked lowered).1 signs,
    ← Orthography.solidBytes_eq, bytes]

/-- A number sign is dropped from the template only. -/
theorem exists_findMatches_eq_nil :
    ∃ model, (new "en-US" .empty).addIntent "call" ["call #5"] = .ok model ∧
      (∀ c ∈ "call #5".toList, c ∉ Template.signs) ∧ model.findMatches "call #5" = [] := by
  have plain : "call #5".toList.all (fun c => !Template.signs.contains c) = true := by
    decide +kernel
  have evaluated : ((new "en-US" .empty).addIntent "call" ["call #5"]).map
      (fun model => model.findMatches "call #5") = .ok [] := by
    decide +kernel
  obtain ⟨model, added, none⟩ := exists_of_map_eq_ok evaluated
  refine ⟨model, added, fun c member => ?_, none⟩
  simpa using List.all_eq_true.1 plain c member

end Model

end Phrasebook
