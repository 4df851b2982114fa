import Phrasebook.Proofs.NoBreakSpaces
import Phrasebook.Proofs.Reachable
import Phrasebook.Proofs.WordSpans

/-! The normal form of an input.

Normalizing an input makes a canonical text, and a canonical text is left as it is. So an
input and its normal form have the same matches.
-/

set_option autoImplicit false

namespace Phrasebook

open Text

namespace Text

/-- The last word is not followed by a gap. -/
theorem getLast?_spaceOut {gap : Char → Bool} {between text : List Char} {started pending : Bool}
    {c : Char} (last : (spaceOut gap between started pending text).getLast? = some c) :
    gap c = false := by
  induction text generalizing started pending with
  | nil => simp [spaceOut] at last
  | cons d rest ih =>
    rw [spaceOut] at last
    split at last
    · exact ih last
    · next solid =>
      rw [List.getLast?_append_cons, List.getLast?_cons] at last
      cases further : (spaceOut gap between true false rest).getLast? with
      | none =>
        rw [further] at last
        cases last
        simpa using solid
      | some e =>
        rw [further] at last
        cases last
        exact ih further

end Text

namespace Orthography

/-- A text of lowercase words with single spaces between them, none in a language that
writes its words together. -/
structure IsCanonical (o : Orthography) (options : MatchOptions) (text : List Char) : Prop where
  lowered : ∀ c ∈ text, lowerChar c = [c]
  spaces : ∀ c ∈ text, o.isSpace c = true → c = ' ' ∧ o.hasWordSpacing = true
  apart : text.IsChain fun first second => o.isSpace first = true → o.isSpace second = false
  head : ∀ c, text.head? = some c → o.isSpace c = false
  last : ∀ c, text.getLast? = some c → o.isSpace c = false
  /-- With sentence ends dropped, the text ends in none. -/
  unended : options.stripSentenceEnd = true → ∀ c, text.getLast? = some c →
    o.isSentenceEnd c = false

variable {language : Language} {options : MatchOptions} {text : List Char}

theorem getLast?_normalizePhrase {o : Orthography} {c : Char}
    (last : (o.normalizePhrase text).getLast? = some c) : o.isSpace c = false := by
  rw [normalizePhrase_eq_spaceOut] at last
  exact getLast?_spaceOut last

theorem getLast?_dropSentenceEnd {o : Orthography} {c : Char}
    (last : (o.dropSentenceEnd text).getLast? = some c) :
    o.isSentenceEnd c = false ∧ isBlank c = false := by
  have stopped := List.head?_dropWhile_not (fun c => o.isSentenceEnd c || isBlank c) text.reverse
  rw [dropSentenceEnd, List.getLast?_reverse] at last
  rw [last] at stopped
  simpa using stopped

theorem isChain_normalizePhrase (language : Language) (text : List Char) :
    ((ofLanguage language).normalizePhrase text).IsChain fun first second =>
      (ofLanguage language).isSpace first = true → (ofLanguage language).isSpace second = false := by
  have single : (ofLanguage language).wordBoundary.length ≤ 1 := by
    rw [wordBoundary_ofLanguage]
    split <;> simp
  rw [normalizePhrase_eq_spaceOut]
  exact isChain_spaceOut single false false

theorem isCanonical_normalizeInput (language : Language) (options : MatchOptions)
    (text : List Char) :
    (ofLanguage language).IsCanonical options
      ((ofLanguage language).normalizeInput options text) := by
  obtain ⟨dropped, whole, -⟩ := (ofLanguage language).exists_normalizeInput_append options text
  have normal := (ofLanguage language).isNormal_normalizeInput options text
  have spaces : ∀ c ∈ (ofLanguage language).normalizeInput options text,
      (ofLanguage language).isSpace c = true → c = ' ' ∧ (ofLanguage language).hasWordSpacing = true :=
    fun c member space => eq_space_of_mem_wordBoundary (normal.boundary c member space)
  refine ⟨fun c member => ?_, spaces, ?_, normal.head, fun c last => ?_, fun strip c last => ?_⟩
  · exact lowerChar_of_mem_normalizePhrase (whole ▸ List.mem_append_left _ member)
  · exact (whole ▸ isChain_normalizePhrase language
      ((ofLanguage language).plain options text)).left_of_append
  · by_cases strip : options.stripSentenceEnd = true
    · -- What is left at the end is no blank, and every other space is one.
      have member := List.mem_of_getLast? last
      rw [normalizeInput, if_pos strip] at last
      rw [← Bool.not_eq_true]
      intro space
      have solid := (getLast?_dropSentenceEnd last).2
      rw [(spaces c member space).1] at solid
      exact absurd solid (by decide)
    · rw [normalizeInput, if_neg strip] at last
      exact getLast?_normalizePhrase last
  · rw [normalizeInput, if_pos strip] at last
    exact (getLast?_dropSentenceEnd last).1

namespace IsCanonical

theorem plain_eq (canonical : (ofLanguage language).IsCanonical options text) :
    (ofLanguage language).plain options text = text := by
  have none : ∀ c ∈ text, c ∉ FrenchSpacing.noBreakSpaces := by
    intro c member listed
    have blank : FrenchSpacing.noBreakSpaces.all isBlank = true := by decide
    have space : (ofLanguage language).isSpace c = true :=
      (isSpace_iff _ c).2 (.inr (List.all_eq_true.1 blank c listed))
    rw [(canonical.spaces c member space).1] at listed
    exact absurd listed (by decide)
  rw [plain, FrenchSpacing.remove_eq_self none, ite_self]

theorem normalizePhrase_eq (canonical : (ofLanguage language).IsCanonical options text) :
    (ofLanguage language).normalizePhrase text = text := by
  rw [normalizePhrase, lower_of_lowered canonical.lowered, wordBoundary_ofLanguage]
  split
  · exact intercalate_words_of_isChain (fun c member space => (canonical.spaces c member space).1)
      canonical.apart canonical.head canonical.last
  · next together =>
    -- Without spaces the text is one word at most.
    have solid : ∀ c ∈ text, (ofLanguage language).isSpace c = false := by
      intro c member
      rw [← Bool.not_eq_true]
      exact fun space => together (canonical.spaces c member space).2
    by_cases empty : text = []
    · rw [empty]
      rfl
    · rw [words_of_solid empty solid]
      exact List.intercalate_singleton

theorem dropSentenceEnd_eq (canonical : (ofLanguage language).IsCanonical options text)
    (strip : options.stripSentenceEnd = true) :
    (ofLanguage language).dropSentenceEnd text = text := by
  refine List.rdropWhile_eq_self_iff.2 fun nonempty => ?_
  have last := List.getLast?_eq_some_getLast nonempty
  have solid := canonical.last _ last
  rw [← Bool.not_eq_true, isSpace_iff, not_or] at solid
  simp [canonical.unended strip _ last, solid.2]

theorem normalizeInput_eq (canonical : (ofLanguage language).IsCanonical options text) :
    (ofLanguage language).normalizeInput options text = text := by
  show (if options.stripSentenceEnd then (ofLanguage language).dropSentenceEnd
    ((ofLanguage language).normalizePhrase ((ofLanguage language).plain options text)) else
      (ofLanguage language).normalizePhrase ((ofLanguage language).plain options text)) = text
  rw [canonical.plain_eq, canonical.normalizePhrase_eq]
  split
  · next strip => exact canonical.dropSentenceEnd_eq strip
  · rfl

end IsCanonical

/-- The canonical texts are those that normalizing leaves as they are. -/
theorem normalizeInput_eq_self_iff :
    (ofLanguage language).normalizeInput options text = text ↔
      (ofLanguage language).IsCanonical options text :=
  ⟨fun same => same ▸ isCanonical_normalizeInput language options text,
    IsCanonical.normalizeInput_eq⟩

end Orthography

namespace Model

open Orthography

theorem findMatches_of_normalize {model : Model} {first second : String}
    (same : model.normalize first = model.normalize second) :
    model.findMatches first = model.findMatches second := by
  rw [findMatches, findMatches, same]

/-- An input is normalized once and for all, and has the matches of its normal form. -/
theorem findMatches_normalizeInput (language : Language) (options : MatchOptions)
    (text : List Char) :
    (ofLanguage language).normalizeInput options
        ((ofLanguage language).normalizeInput options text) =
      (ofLanguage language).normalizeInput options text ∧
    (ofLanguage language).IsCanonical options
      ((ofLanguage language).normalizeInput options text) ∧
    ∀ model : Model, model.orthography = ofLanguage language → model.options = options →
      model.findMatches (String.ofList ((ofLanguage language).normalizeInput options text)) =
        model.findMatches (String.ofList text) := by
  have canonical := isCanonical_normalizeInput language options text
  refine ⟨canonical.normalizeInput_eq, canonical, ?_⟩
  rintro model written rfl
  apply findMatches_of_normalize
  rw [normalize, normalize, String.toList_ofList, String.toList_ofList, written,
    canonical.normalizeInput_eq]

/-- French with the no-break space before the exclamation mark, and blanks around. -/
theorem findMatches_normalizeInput_bonjour :
    ∃ model,
      (new "fr-FR" .standard).addIntent "greet" ["bonjour {name}"] = .ok model ∧
      model.orthography = ofLanguage .french ∧ model.options = {} ∧
      model.findMatches "bonjour marie" = model.findMatches " Bonjour\tMarie\u00A0! " ∧
      model.findMatches "bonjour marie" ≠ [] := by
  have found : ((new "fr-FR" .standard).addIntent "greet" ["bonjour {name}"]).map (fun model =>
      (model.orthography, model.options, (model.findMatches "bonjour marie").isEmpty)) =
        .ok (ofLanguage .french, {}, false) := by
    decide +kernel
  obtain ⟨model, added, seen⟩ := exists_of_map_eq_ok found
  obtain ⟨written, same, matched⟩ : model.orthography = ofLanguage .french ∧ model.options = {} ∧
      (model.findMatches "bonjour marie").isEmpty = false := by
    simpa only [Prod.mk.injEq] using seen
  have normal : String.ofList ((ofLanguage .french).normalizeInput {}
      " Bonjour\tMarie\u00A0! ".toList) = "bonjour marie" := by
    decide +kernel
  have agree := (findMatches_normalizeInput .french {} " Bonjour\tMarie\u00A0! ".toList).2.2
    model written same
  rw [normal, String.ofList_toList] at agree
  exact ⟨model, added, written, same, agree, by simpa using matched⟩

end Model

end Phrasebook
