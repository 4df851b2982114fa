import Phrasebook.Proofs.WordRuns

/-! The words that are grabbed from a text.

Words are grabbed one after the other, each from the end of the last one. In a normalized text
this comes to an end: all that is left between the words and after them are separators. In a
language with spaces there are as many words as pieces between spaces that are more than
punctuation; without spaces each character other than a separator is one.
-/

set_option autoImplicit false

namespace Phrasebook

open Text

namespace Text

variable {first second before after : List Char}

/-- Of two ways to cut a text, the one with fewer bytes in front cuts the other's front. -/
theorem exists_append_of_byteLength_le (same : before ++ after = first ++ second)
    (le : byteLength first ≤ byteLength before) :
    ∃ more, before = first ++ more ∧ second = more ++ after := by
  rcases List.append_eq_append_iff.1 same with ⟨more, rfl, rfl⟩ | ⟨more, rfl, rfl⟩
  · rw [byteLength_append] at le
    cases more with
    | nil => exact ⟨[], by simp, rfl⟩
    | cons c more =>
      have := c.utf8Size_pos
      rw [byteLength_cons] at le
      omega
  · exact ⟨more, rfl, rfl⟩

theorem mem_of_byteLength_lt {c : Char} (same : before ++ c :: after = first ++ second)
    (less : byteLength before < byteLength first) : c ∈ first := by
  obtain ⟨more, rfl, rest⟩ := exists_append_of_byteLength_le same.symm (Nat.le_of_lt less)
  cases more with
  | nil =>
    rw [List.append_nil] at less
    exact absurd less (Nat.lt_irrefl _)
  | cons d more =>
    rw [List.cons_append, List.cons.injEq] at rest
    rw [rest.1]
    simp

theorem byteLength_pos {text : List Char} (nonempty : text ≠ []) : 0 < byteLength text := by
  obtain ⟨c, rest, rfl⟩ := List.exists_cons_of_ne_nil nonempty
  have := c.utf8Size_pos
  rw [byteLength_cons]
  omega

end Text

/-- What stands in front of a later place goes on from an earlier one. -/
theorem Cursor.exists_append_of_offset_le (cursor : Cursor) {before after : List Char}
    (whole : cursor.text = before ++ after) (ahead : cursor.offset ≤ byteLength before) :
    ∃ more, before = cursor.before.reverse ++ more ∧ cursor.rest = more ++ after :=
  exists_append_of_byteLength_le whole.symm (by rwa [byteLength_reverse])

/-- The byte spans of words that come one after the other, from an offset on. -/
def NextWord.spansFrom (start : Nat) : List NextWord → List (Nat × Nat)
  | [] => []
  | next :: others =>
    let first := start + byteLength next.gap
    (first, first + byteLength next.word) ::
      spansFrom (first + byteLength next.word) others

theorem NextWord.length_spansFrom (start : Nat) (words : List NextWord) :
    (spansFrom start words).length = words.length := by
  induction words generalizing start with
  | nil => rfl
  | cons next others ih => rw [spansFrom, List.length_cons, ih, List.length_cons]

namespace Orthography

variable {o : Orthography} {cursor : Cursor} {text : List Char} {next : NextWord}

/-- The spans of all words from an offset on. -/
structure IsWordSpans (o : Orthography) (text : List Char) (start : Nat)
    (spans : List (Nat × Nat)) : Prop where
  /-- They are grabbed one after the other, and after the last one there is none. -/
  grabbed : ∀ count, (o.wordEnd? text count start).bind (o.grabNextWord text) = spans[count]?
  advancing : ∀ span ∈ spans, start ≤ span.1 ∧ span.1 < span.2
  apart : spans.Pairwise fun first second => first.2 ≤ second.1
  /-- Each starts and ends between characters. -/
  places : ∀ span ∈ spans, ∃ before word after, text = before ++ word ++ after ∧
    span = (byteLength before, byteLength (before ++ word))
  outside : ∀ before c after, text = before ++ c :: after → start ≤ byteLength before →
    (∀ span ∈ spans, byteLength before < span.1 ∨ span.2 ≤ byteLength before) →
    o.isSeparator c = true

theorem isWordSpans_nil (none : ∀ c ∈ cursor.rest, o.isSeparator c = true) :
    o.IsWordSpans cursor.text cursor.offset [] where
  grabbed := by
    intro count
    have missing : o.grabNextWord cursor.text cursor.offset = Option.none := by
      rw [grabNextWord_cursor, nextWord?_eq_none_iff.2 none]
      rfl
    cases count with
    | zero => exact missing
    | succ count => rw [wordEnd?, missing]; rfl
  advancing := List.forall_mem_nil _
  apart := .nil
  places := List.forall_mem_nil _
  outside := by
    intro before c after whole ahead _
    obtain ⟨more, -, rest⟩ := cursor.exists_append_of_offset_le whole ahead
    exact none c (by rw [rest]; simp)

/-- One more word in front. -/
theorem IsWordSpans.cons {spans : List (Nat × Nat)} (found : o.nextWord? cursor.rest = some next)
    (isWord : next.IsWord o)
    (onward : o.IsWordSpans cursor.text
      (cursor.offset + byteLength next.gap + byteLength next.word) spans) :
    o.IsWordSpans cursor.text cursor.offset
      ((cursor.offset + byteLength next.gap,
        cursor.offset + byteLength next.gap + byteLength next.word) :: spans) where
  grabbed := by
    intro count
    have first := o.grabNextWord_cursor cursor
    rw [found, Option.map_some] at first
    cases count with
    | zero => exact first
    | succ count =>
      rw [wordEnd?, first, Option.bind_some, onward.grabbed count, List.getElem?_cons_succ]
  advancing := by
    obtain ⟨c, others, word, -⟩ := isWord.head
    have positive : 0 < byteLength next.word := byteLength_pos (by simp [word])
    refine List.forall_mem_cons.2 ⟨⟨by dsimp only; omega, by dsimp only; omega⟩,
      fun span member => ?_⟩
    have further := onward.advancing span member
    exact ⟨by omega, further.2⟩
  apart := List.pairwise_cons.2
    ⟨fun span member => (onward.advancing span member).1, onward.apart⟩
  places := by
    refine List.forall_mem_cons.2
      ⟨⟨cursor.before.reverse ++ next.gap, next.word, next.rest, ?_, ?_⟩, onward.places⟩
    · rw [Cursor.text, ← append_of_nextWord? found]
      simp only [List.append_assoc]
    · simp only [byteLength_append, byteLength_reverse, Cursor.offset]
  outside := by
    intro before c after whole ahead free
    obtain ⟨first, others⟩ := List.forall_mem_cons.1 free
    rcases first with inGap | beyond
    · -- The character stands before the word, so in the gap.
      obtain ⟨more, rfl, onwards⟩ := cursor.exists_append_of_offset_le whole ahead
      rw [← append_of_nextWord? found, List.append_assoc] at onwards
      rw [byteLength_append, byteLength_reverse, ← Cursor.offset] at inGap
      exact isWord.gap c (mem_of_byteLength_lt onwards.symm (by dsimp only at inGap; omega))
    · exact onward.outside before c after whole beyond others

theorem isWordSpans_wordsOf (cursor : Cursor)
    (spaces : ∀ c ∈ cursor.rest, o.isSpace c = true → o.isSeparator c = true) :
    o.IsWordSpans cursor.text cursor.offset
      (NextWord.spansFrom cursor.offset (o.wordsOf cursor.rest)) := by
  cases found : o.nextWord? cursor.rest with
  | none =>
    rw [wordsOf, found]
    exact isWordSpans_nil (nextWord?_eq_none_iff.1 found)
  | some next =>
    have shorter := length_rest_lt_of_nextWord? spaces found
    have split := append_of_nextWord? found
    obtain ⟨after, text, rest, offset⟩ := exists_cursor_after cursor found
    have onward := isWordSpans_wordsOf after fun c member =>
      spaces c (by rw [← split]; exact List.mem_append_right _ (rest ▸ member))
    rw [text, offset, rest] at onward
    rw [wordsOf_of_nextWord? spaces found]
    exact .cons found (isWord_of_nextWord? spaces found) onward
termination_by cursor.rest.length
decreasing_by rwa [rest]

/-- How many words a text has is told by any measure that is zero on separators and grows by one
with each word. -/
theorem countWords_eq (measure : List Char → Nat)
    (zero : ∀ text, (∀ c ∈ text, o.isSeparator c = true) → measure text = 0)
    (more : ∀ next : NextWord, next.IsWord o →
      measure (next.gap ++ next.word ++ next.rest) = measure next.rest + 1)
    (text : List Char) (spaces : ∀ c ∈ text, o.isSpace c = true → o.isSeparator c = true) :
    o.countWords text = measure text := by
  cases found : o.nextWord? text with
  | none =>
    have none := nextWord?_eq_none_iff.1 found
    rw [(countWords_eq_zero_iff spaces).2 none, zero text none]
  | some next =>
    have shorter := length_rest_lt_of_nextWord? spaces found
    have split := append_of_nextWord? found
    have onward := countWords_eq measure zero more next.rest fun c member =>
      spaces c (by rw [← split]; exact List.mem_append_right _ member)
    rw [countWords_eq_succ spaces found, onward, ← more next (isWord_of_nextWord? spaces found),
      split]
termination_by text.length

/-- A piece of a text that is more than punctuation. -/
def hasWord (o : Orthography) (piece : List Char) : Bool := piece.any fun c => !o.isSeparator c

/-- Separators in front of a text only add to its first piece. -/
theorem countP_words_append {gap : List Char} (all : ∀ c ∈ gap, o.isSeparator c = true)
    (text : List Char) :
    (words o.isSpace (gap ++ text)).countP o.hasWord = (words o.isSpace text).countP o.hasWord := by
  induction gap with
  | nil => rfl
  | cons c gap ih =>
    obtain ⟨separator, others⟩ := List.forall_mem_cons.1 all
    rw [← ih others, List.cons_append]
    by_cases space : o.isSpace c = true
    · rw [words_cons_of_gap space]
    · obtain ⟨piece, further, pieced⟩ :=
        List.exists_cons_of_ne_nil (pieces_ne_nil o.isSpace (gap ++ text))
      have longer : pieces o.isSpace (c :: (gap ++ text)) = (c :: piece) :: further := by
        rw [pieces, if_neg space, pieced]
      simp only [words, pieced, longer, List.countP_filter, List.countP_cons]
      cases piece <;> simp [hasWord, separator]

/-- In a language with spaces each word is in a piece of its own. -/
theorem countWords_of_spaced (spaced : o.hasWordSpacing = true) (text : List Char)
    (spaces : ∀ c ∈ text, o.isSpace c = true → o.isSeparator c = true) :
    o.countWords text = (words o.isSpace text).countP o.hasWord := by
  refine countWords_eq (fun text => (words o.isSpace text).countP o.hasWord)
    (fun text none => ?_) (fun next isWord => ?_) text spaces
  · have same := countP_words_append none []
    rwa [List.append_nil] at same
  · obtain ⟨c, others, word, solid⟩ := isWord.head
    have nonempty : next.word ≠ [] := by simp [word]
    have worded : o.hasWord next.word = true := by simp [hasWord, word, solid]
    rw [List.append_assoc, countP_words_append isWord.gap,
      words_append_of_apart nonempty (isWord.solid spaced) (isWord.stop spaced),
      List.countP_cons_of_pos worded]

/-- Without spaces each character other than a separator is a word. -/
theorem countWords_of_unspaced (unspaced : o.hasWordSpacing = false) (text : List Char)
    (spaces : ∀ c ∈ text, o.isSpace c = true → o.isSeparator c = true) :
    o.countWords text = text.countP fun c => !o.isSeparator c := by
  have none : ∀ {text : List Char}, (∀ c ∈ text, o.isSeparator c = true) →
      (text.countP fun c => !o.isSeparator c) = 0 :=
    fun all => List.countP_eq_zero.2 fun c member => by simp [all c member]
  refine countWords_eq (fun text => text.countP fun c => !o.isSeparator c) (fun text => none)
    (fun next isWord => ?_) text spaces
  obtain ⟨c, others, word, solid⟩ := isWord.head
  obtain ⟨d, single⟩ := isWord.single unspaced
  have only : next.word = [c] := by
    rw [single, List.cons.injEq] at word
    rw [single, word.1]
  rw [List.countP_append, List.countP_append, none isWord.gap, only]
  simp [solid, Nat.add_comm]

theorem hasWordSpacing_eq_false_iff (language : Language) :
    (ofLanguage language).hasWordSpacing = false ↔ language = .japanese ∨ language = .chinese := by
  cases language <;> decide

/-- Grabbing the words of a normalized text one after the other comes to an end. What it goes over
are words, and their number is known without grabbing. -/
theorem grabs_all_words {language : Language} {text source : List Char}
    (normal : text = (ofLanguage language).normalizePhrase source ∨
      ∃ options, text = (ofLanguage language).normalizeInput options source) :
    (∃ spans, (ofLanguage language).IsWordSpans text 0 spans ∧
        (ofLanguage language).countWords text = spans.length) ∧
      (ofLanguage language).countWords text =
        if language = .japanese ∨ language = .chinese then
          text.countP fun c => !(ofLanguage language).isSeparator c
        else (words isBlank text).countP (ofLanguage language).hasWord := by
  have isNormal : (ofLanguage language).IsNormal text := by
    rcases normal with rfl | ⟨options, rfl⟩
    · exact (ofLanguage language).isNormal_normalizePhrase source
    · exact (ofLanguage language).isNormal_normalizeInput options source
  have spaces := isNormal.forall_isSeparator rfl
  constructor
  · exact ⟨_, isWordSpans_wordsOf (.atStart text) spaces, (NextWord.length_spansFrom ..).symm⟩
  · have blank : (ofLanguage language).isSpace = isBlank := funext (isSpace_eq_isBlank language)
    rw [← blank]
    split
    · next unspaced =>
      exact countWords_of_unspaced ((hasWordSpacing_eq_false_iff language).2 unspaced) text spaces
    · next spaced =>
      rw [← hasWordSpacing_eq_false_iff, Bool.not_eq_false] at spaced
      exact countWords_of_spaced spaced text spaces

/-- Signs that stand alone are no word, and words keep the punctuation at their ends. -/
theorem grabs_all_words_quoted :
    "«été», -- microsoft word".toList =
        (ofLanguage .english).normalizeInput {} "«Été», -- Microsoft  word!".toList ∧
      (ofLanguage .english).IsWordSpans "«été», -- microsoft word".toList 0
        [(2, 10), (14, 23), (24, 28)] ∧
      (ofLanguage .english).countWords "«été», -- microsoft word".toList = 3 := by
  have normal : "«été», -- microsoft word".toList =
      (ofLanguage .english).normalizeInput {} "«Été», -- Microsoft  word!".toList := by
    decide +kernel
  obtain ⟨⟨spans, isSpans, count⟩, measured⟩ := grabs_all_words (.inr ⟨{}, normal⟩)
  have three : (ofLanguage .english).countWords "«été», -- microsoft word".toList = 3 :=
    measured.trans (by decide +kernel)
  have same : spans = [(2, 10), (14, 23), (24, 28)] := by
    refine List.ext_getElem? fun index => ?_
    by_cases inside : index < 3
    · rw [← isSpans.grabbed]
      revert index
      decide +kernel
    · rw [List.getElem?_eq_none (by omega), List.getElem?_eq_none (by simpa using inside)]
  exact ⟨normal, same ▸ isSpans, three⟩

end Orthography

end Phrasebook
