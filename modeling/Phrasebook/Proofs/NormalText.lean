import Mathlib.Data.List.TakeWhile
import Phrasebook.Normalization
import Phrasebook.Proofs.Casing

/-! Normalized texts.

The words of a text, joined again, can be read off character by character. It
follows that a normalized text has no whitespace other than the word boundary of
its language, and none at its start.
-/

set_option autoImplicit false

namespace Phrasebook

namespace Text

/-- The words of a text with `between` in the gaps between them: `started` once a
word has begun, `pending` in a gap. -/
def spaceOut (gap : Char → Bool) (between : List Char) (started pending : Bool) :
    List Char → List Char
  | [] => []
  | c :: rest =>
    if gap c then spaceOut gap between started true rest
    else (if started && pending then between else []) ++ c :: spaceOut gap between true false rest

section

variable {gap : Char → Bool} {between : List Char}

theorem words_cons_of_gap {c : Char} (blank : gap c = true) (rest : List Char) :
    words gap (c :: rest) = words gap rest := by
  simp [words, pieces, blank]

/-- Up to a gap a word grows. -/
theorem pieces_append_of_solid {word : List Char} (solid : ∀ c ∈ word, gap c = false)
    (rest : List Char) :
    pieces gap (word ++ rest) = (pieces gap rest).modifyHead (word ++ ·) := by
  obtain ⟨piece, others, eq⟩ := List.exists_cons_of_ne_nil (pieces_ne_nil gap rest)
  induction word with
  | nil => simp [eq]
  | cons c word ih =>
    have first := solid c (List.mem_cons_self ..)
    rw [List.cons_append, pieces, ih fun d member => solid d (List.mem_cons_of_mem _ member), eq]
    simp [first]

theorem words_of_solid {word : List Char} (nonempty : word ≠ [])
    (solid : ∀ c ∈ word, gap c = false) : words gap word = [word] := by
  have whole := pieces_append_of_solid solid []
  rw [List.append_nil] at whole
  simp [words, whole, pieces, nonempty]

/-- A word ends where a gap comes after it. -/
theorem words_append {word gaps : List Char} (nonempty : word ≠ [])
    (solid : ∀ c ∈ word, gap c = false) (apart : gaps ≠ []) (all : ∀ c ∈ gaps, gap c = true)
    (rest : List Char) : words gap (word ++ gaps ++ rest) = word :: words gap rest := by
  have skipped : ∀ more : List Char, (∀ c ∈ more, gap c = true) →
      words gap (more ++ rest) = words gap rest := by
    intro more blank
    induction more with
    | nil => rfl
    | cons c more ih =>
      rw [List.cons_append, words_cons_of_gap (blank c (List.mem_cons_self ..)),
        ih fun d member => blank d (List.mem_cons_of_mem _ member)]
  obtain ⟨c, more, rfl⟩ := List.exists_cons_of_ne_nil apart
  have ends := all c (List.mem_cons_self ..)
  have further := skipped more fun d member => all d (List.mem_cons_of_mem _ member)
  simp only [words] at further ⊢
  rw [List.append_assoc, List.cons_append, pieces_append_of_solid solid, pieces, if_pos ends]
  simp [nonempty, further]

/-- Up to a gap or the end of the text a word is whole. -/
theorem words_append_of_apart {word rest : List Char} (nonempty : word ≠ [])
    (solid : ∀ c ∈ word, gap c = false) (apart : ∀ c ∈ rest.head?, gap c = true) :
    words gap (word ++ rest) = word :: words gap rest := by
  cases rest with
  | nil => rw [List.append_nil, words_of_solid nonempty solid, words_nil]
  | cons c rest =>
    have split := words_append nonempty solid (List.cons_ne_nil c [])
      (List.forall_mem_singleton.2 (apart c rfl)) rest
    rwa [List.append_assoc, List.singleton_append, ← words_cons_of_gap (apart c rfl) rest] at split

theorem intercalate_cons (word : List Char) (others : List (List Char)) :
    between.intercalate (word :: others) = word ++ others.flatMap (between ++ ·) := by
  induction others generalizing word with
  | nil => simp
  | cons next others ih => rw [List.intercalate_cons_cons, ih]; simp

/-- Words that gaps are put between are the words of the text that they make. -/
theorem words_intercalate {parts : List (List Char)} (apart : between ≠ [])
    (gaps : ∀ c ∈ between, gap c = true)
    (solid : ∀ part ∈ parts, part ≠ [] ∧ ∀ c ∈ part, gap c = false) :
    words gap (between.intercalate parts) = parts := by
  induction parts with
  | nil => rfl
  | cons part parts ih =>
    obtain ⟨⟨nonempty, first⟩, others⟩ := List.forall_mem_cons.1 solid
    cases parts with
    | nil => simpa using words_of_solid nonempty first
    | cons next parts =>
      rw [List.intercalate_cons_cons, words_append nonempty first apart gaps, ih others]

/-- Once a word has begun, it goes on with the first piece of the text, unless a
gap has followed it. -/
theorem spaceOut_started (gap : Char → Bool) (between text : List Char) :
    ∃ piece others, pieces gap text = piece :: others ∧
      spaceOut gap between true false text =
        piece ++ (others.filter fun other => !other.isEmpty).flatMap (between ++ ·) ∧
      spaceOut gap between true true text =
        ((piece :: others).filter fun other => !other.isEmpty).flatMap (between ++ ·) := by
  induction text with
  | nil => exact ⟨[], [], rfl, rfl, rfl⟩
  | cons c rest ih =>
    -- A gap closes the open piece; any other character makes it longer.
    obtain ⟨piece, others, eq, inside, apart⟩ := ih
    by_cases blank : gap c = true
    · refine ⟨[], piece :: others, by simp [pieces, blank, eq], ?_, ?_⟩
      · simp [spaceOut, blank, apart]
      · simp [spaceOut, blank, apart]
    · refine ⟨c :: piece, others, by simp [pieces, blank, eq], ?_, ?_⟩
      · simp [spaceOut, blank, inside]
      · simp [spaceOut, blank, inside]

theorem intercalate_words (pending : Bool) (text : List Char) :
    between.intercalate (words gap text) = spaceOut gap between false pending text := by
  induction text generalizing pending with
  | nil => simp [words_nil, spaceOut]
  | cons c rest ih =>
    by_cases blank : gap c = true
    · rw [words_cons_of_gap blank, ih true, spaceOut, if_pos blank]
    · obtain ⟨piece, others, eq, inside, _⟩ := spaceOut_started gap between rest
      have first : words gap (c :: rest) =
          (c :: piece) :: others.filter fun other => !other.isEmpty := by
        simp [words, pieces, blank, eq]
      rw [first, intercalate_cons, spaceOut, if_neg blank, inside]
      rfl

theorem mem_spaceOut {started pending : Bool} {text : List Char} {c : Char}
    (member : c ∈ spaceOut gap between started pending text) :
    c ∈ between ∨ c ∈ text ∧ gap c = false := by
  induction text generalizing started pending with
  | nil => simp [spaceOut] at member
  | cons d rest ih =>
    unfold spaceOut at member
    split at member
    · exact (ih member).imp_right fun inside => ⟨List.mem_cons_of_mem _ inside.1, inside.2⟩
    · next solid =>
      rcases List.mem_append.1 member with boundary | member
      · split at boundary
        · exact .inl boundary
        · simp at boundary
      · rcases List.mem_cons.1 member with rfl | member
        · exact .inr ⟨List.mem_cons_self .., by simpa using solid⟩
        · exact (ih member).imp_right fun inside => ⟨List.mem_cons_of_mem _ inside.1, inside.2⟩

/-- Inside a word nothing is put in. -/
theorem spaceOut_append_of_solid {word : List Char} (solid : ∀ c ∈ word, gap c = false)
    (rest : List Char) :
    spaceOut gap between true false (word ++ rest) =
      word ++ spaceOut gap between true false rest := by
  induction word with
  | nil => rfl
  | cons c others ih =>
    have head : ¬ gap c = true := by simp [solid c (List.mem_cons_self ..)]
    rw [List.cons_append, spaceOut, if_neg head,
      ih fun d member => solid d (List.mem_cons_of_mem _ member)]
    rfl

theorem spaceOut_append_of_gap {gaps : List Char} (nonempty : gaps ≠ [])
    (all : ∀ c ∈ gaps, gap c = true) (started pending : Bool) (rest : List Char) :
    spaceOut gap between started pending (gaps ++ rest) =
      spaceOut gap between started true rest := by
  induction gaps generalizing pending with
  | nil => exact absurd rfl nonempty
  | cons c others ih =>
    rw [List.cons_append, spaceOut, if_pos (all c (List.mem_cons_self ..))]
    cases others with
    | nil => rfl
    | cons d more => exact ih (by simp) (fun e member => all e (List.mem_cons_of_mem _ member)) true

/-- What is put in and what is left out are the gaps. -/
theorem filter_spaceOut {kept : Char → Bool} (within : ∀ c ∈ between, kept c = false)
    (started pending : Bool) (text : List Char) :
    (spaceOut gap between started pending text).filter kept =
      text.filter fun c => !gap c && kept c := by
  have boundary : between.filter kept = [] := by
    rw [List.filter_eq_nil_iff]
    intro c member
    simp [within c member]
  induction text generalizing started pending with
  | nil => rfl
  | cons c rest ih =>
    rw [spaceOut]
    split
    · next blank => rw [ih]; simp [blank]
    · next solid =>
      rw [List.filter_append, List.filter_cons, ih]
      split <;> simp [boundary, solid, List.filter_cons]

theorem head?_spaceOut {pending : Bool} {text : List Char} {c : Char}
    (head : (spaceOut gap between false pending text).head? = some c) : gap c = false := by
  induction text generalizing pending with
  | nil => simp [spaceOut] at head
  | cons d rest ih =>
    unfold spaceOut at head
    split at head
    · exact ih head
    · next solid =>
      have same : d = c := by simpa using head
      simpa [same] using solid

end

end Text

open Text

namespace Orthography

/-- Only the word boundary of the language is left of whitespace, and none of it
stands at the start. -/
structure IsNormal (o : Orthography) (text : List Char) : Prop where
  boundary : ∀ c ∈ text, o.isSpace c = true → c ∈ o.wordBoundary
  head : ∀ c, text.head? = some c → o.isSpace c = false

theorem normalizePhrase_eq_spaceOut (o : Orthography) (text : List Char) :
    o.normalizePhrase text = spaceOut o.isSpace o.wordBoundary false false (lower text) :=
  intercalate_words false (lower text)

theorem isNormal_normalizePhrase (o : Orthography) (text : List Char) :
    o.IsNormal (o.normalizePhrase text) := by
  rw [normalizePhrase_eq_spaceOut]
  refine ⟨fun c member space => ?_, fun c head => head?_spaceOut head⟩
  rcases mem_spaceOut member with boundary | ⟨_, solid⟩
  · exact boundary
  · simp [solid] at space

theorem IsNormal.of_start {o : Orthography} {text start : List Char} (normal : o.IsNormal text)
    (included : start <+: text) : o.IsNormal start := by
  obtain ⟨rest, rfl⟩ := included
  refine ⟨fun c member => normal.boundary c (List.mem_append_left _ member), fun c head => ?_⟩
  apply normal.head c
  rw [List.head?_append, head]
  rfl

/-- An input without its French no-break spaces. -/
def plain (o : Orthography) (options : MatchOptions) (text : List Char) : List Char :=
  if o.respaces options then FrenchSpacing.remove text else text

/-- Dropping sentence ends takes sentence ends and blanks off the end. -/
theorem exists_normalizeInput_append (o : Orthography) (options : MatchOptions)
    (text : List Char) :
    ∃ dropped, o.normalizeInput options text ++ dropped = o.normalizePhrase (o.plain options text) ∧
      ∀ c ∈ dropped, o.isSentenceEnd c = true ∨ isBlank c = true := by
  by_cases strip : options.stripSentenceEnd = true
  · refine ⟨((o.normalizePhrase (o.plain options text)).reverse.takeWhile fun c =>
      o.isSentenceEnd c || isBlank c).reverse, ?_, fun c member => ?_⟩
    · simp only [normalizeInput, strip, if_true]
      exact append_dropped _ _
    · simpa using List.mem_takeWhile_imp (List.mem_reverse.1 member)
  · refine ⟨[], ?_, by simp⟩
    simp only [normalizeInput, strip, Bool.false_eq_true, if_false, List.append_nil]
    rfl

theorem isNormal_normalizeInput (o : Orthography) (options : MatchOptions) (text : List Char) :
    o.IsNormal (o.normalizeInput options text) := by
  obtain ⟨dropped, whole, _⟩ := o.exists_normalizeInput_append options text
  exact (o.isNormal_normalizePhrase _).of_start ⟨dropped, whole⟩

theorem wordBoundary_ofLanguage (language : Language) :
    (ofLanguage language).wordBoundary =
      if (ofLanguage language).hasWordSpacing then [' '] else [] := by
  cases language <;> rfl

theorem eq_space_of_mem_wordBoundary {language : Language} {c : Char}
    (member : c ∈ (ofLanguage language).wordBoundary) :
    c = ' ' ∧ (ofLanguage language).hasWordSpacing = true := by
  rw [wordBoundary_ofLanguage] at member
  split at member
  · next spacing => exact ⟨List.mem_singleton.1 member, spacing⟩
  · simp at member

theorem isSeparator_space (language : Language) :
    (ofLanguage language).isSeparator ' ' = true := by
  cases language <;> decide

theorem isSeparator_of_mem_wordBoundary {language : Language} {c : Char}
    (member : c ∈ (ofLanguage language).wordBoundary) :
    (ofLanguage language).isSeparator c = true := by
  rw [(eq_space_of_mem_wordBoundary member).1]
  exact isSeparator_space language

theorem lowerChar_of_mem_normalizePhrase {language : Language} {text : List Char} {c : Char}
    (member : c ∈ (ofLanguage language).normalizePhrase text) : lowerChar c = [c] := by
  rw [normalizePhrase_eq_spaceOut] at member
  rcases mem_spaceOut member with boundary | ⟨lowered, -⟩
  · rw [(eq_space_of_mem_wordBoundary boundary).1]
    exact lowerChar_of_isCaseless (by decide)
  · exact lowerChar_of_mem_lowerAfter lowered

/-- Lowering leaves a normalized text as it is. -/
theorem lower_normalizePhrase (language : Language) (text : List Char) :
    lower ((ofLanguage language).normalizePhrase text) =
      (ofLanguage language).normalizePhrase text :=
  lower_of_lowered fun _ => lowerChar_of_mem_normalizePhrase

/-- A normal form is its own normal form. -/
theorem normalizePhrase_normalizePhrase (language : Language) (text : List Char) :
    (ofLanguage language).normalizePhrase ((ofLanguage language).normalizePhrase text) =
      (ofLanguage language).normalizePhrase text := by
  have joined : (ofLanguage language).wordBoundary.intercalate
      (words (ofLanguage language).isSpace ((ofLanguage language).normalizePhrase text)) =
        (ofLanguage language).normalizePhrase text := by
    by_cases spacing : (ofLanguage language).hasWordSpacing = true
    · have boundary := wordBoundary_ofLanguage language
      rw [if_pos spacing] at boundary
      refine congrArg _ (words_intercalate (by simp [boundary]) ?_ fun word member =>
        ⟨ne_nil_of_mem_words member, not_gap_of_mem_words member⟩)
      rw [boundary]
      exact List.forall_mem_singleton.2 (isSpace_space _)
    · -- Without spaces between words, a normal form is one word at most.
      have boundary := wordBoundary_ofLanguage language
      rw [if_neg spacing] at boundary
      have solid : ∀ c ∈ (ofLanguage language).normalizePhrase text,
          (ofLanguage language).isSpace c = false := by
        intro c member
        rw [normalizePhrase_eq_spaceOut, boundary] at member
        rcases mem_spaceOut member with none | ⟨-, solid⟩
        · simp at none
        · exact solid
      by_cases empty : (ofLanguage language).normalizePhrase text = []
      · rw [empty]
        rfl
      · rw [words_of_solid empty solid]
        exact List.intercalate_singleton
  show (ofLanguage language).wordBoundary.intercalate (words (ofLanguage language).isSpace
    (lower ((ofLanguage language).normalizePhrase text))) = _
  rw [lower_normalizePhrase, joined]

/-- In a normalized text all whitespace is a separator. -/
theorem IsNormal.isSeparator_of_isSpace {language : Language} {text : List Char}
    (normal : (ofLanguage language).IsNormal text) {c : Char} (member : c ∈ text)
    (space : (ofLanguage language).isSpace c = true) :
    (ofLanguage language).isSeparator c = true :=
  isSeparator_of_mem_wordBoundary (normal.boundary c member space)

theorem IsNormal.forall_isSeparator {o : Orthography} {language : Language} {text : List Char}
    (normal : o.IsNormal text) (spelled : o = .ofLanguage language) :
    ∀ c ∈ text, o.isSpace c = true → o.isSeparator c = true := by
  subst spelled
  exact fun c => normal.isSeparator_of_isSpace

/-- Normalizing an input drops only separators from the end of its words. -/
theorem exists_normalizeInput_append_separators (language : Language) (options : MatchOptions)
    (text : List Char) :
    ∃ dropped, (ofLanguage language).normalizeInput options text ++ dropped =
        (ofLanguage language).normalizePhrase ((ofLanguage language).plain options text) ∧
      ∀ c ∈ dropped, (ofLanguage language).isSeparator c = true := by
  obtain ⟨dropped, whole, ends⟩ := (ofLanguage language).exists_normalizeInput_append options text
  refine ⟨dropped, whole, fun c member => ?_⟩
  rcases ends c member with stop | blank
  · exact (isSeparator_iff _ _).2 (.inr (.inr (List.contains_iff_mem.1 stop)))
  · have normal := (ofLanguage language).isNormal_normalizePhrase
      ((ofLanguage language).plain options text)
    rw [← whole] at normal
    exact normal.isSeparator_of_isSpace (List.mem_append_right _ member)
      ((isSpace_iff _ _).2 (.inr blank))

end Orthography

end Phrasebook
