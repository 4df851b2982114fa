import Mathlib.Data.List.Chain
import Mathlib.Data.List.DropRight
import Phrasebook.Proofs.CapturedSpans
import Phrasebook.Proofs.NormalText

/-! The words of a text that stands alone.

The core of a text is what is left of it without the separators at its ends. A slot with
limited greed can take a whole core that has few enough words, and in a normalized text the
core is its own collapsed form.
-/

set_option autoImplicit false

namespace Phrasebook

open Text

namespace Text

variable {gap : Char → Bool} {between text : List Char}

/-- No gap is put in beside another. -/
theorem isChain_spaceOut (single : between.length ≤ 1) (started pending : Bool) :
    (spaceOut gap between started pending text).IsChain
      fun first second => gap first = true → gap second = false := by
  induction text generalizing started pending with
  | nil => exact .nil
  | cons c rest ih =>
    rw [spaceOut]
    split
    · exact ih started true
    · next solid =>
      have word : (c :: spaceOut gap between true false rest).IsChain
          fun first second => gap first = true → gap second = false :=
        List.isChain_cons.2 ⟨fun _ _ blank => absurd blank solid, ih true false⟩
      split
      · cases between with
        | nil => exact word
        | cons space others =>
          have alone : others = [] := by simpa using single
          subst alone
          refine List.isChain_cons.2 ⟨fun next head _ => ?_, word⟩
          cases head
          simpa using solid
      · exact word

/-- Where single spaces stand between words already, spacing out changes nothing. -/
theorem spaceOut_of_isChain (spaces : ∀ c ∈ text, gap c = true → c = ' ')
    (apart : text.IsChain fun first second => gap first = true → gap second = false)
    (last : ∀ c, text.getLast? = some c → gap c = false) :
    spaceOut gap [' '] true false text = text ∧
      ∀ c, text.head? = some c → gap c = false →
        spaceOut gap [' '] true true text = ' ' :: text := by
  induction text with
  | nil => simp [spaceOut]
  | cons c rest ih =>
    obtain ⟨first, others⟩ := List.forall_mem_cons.1 spaces
    obtain ⟨next, apart⟩ := List.isChain_cons.1 apart
    by_cases blank : gap c = true
    · -- A space is not the last character, and a word follows it.
      cases rest with
      | nil => simp [last c rfl] at blank
      | cons d rest =>
        obtain ⟨-, spaced⟩ := ih others apart fun e ends => last e (by simpa using ends)
        refine ⟨?_, fun e head solid => ?_⟩
        · rw [spaceOut, if_pos blank, spaced d rfl (next d rfl blank), first blank]
        · cases head
          simp [blank] at solid
    · have same : spaceOut gap [' '] true false rest = rest := by
        cases rest with
        | nil => rfl
        | cons d rest => exact (ih others apart fun e ends => last e (by simpa using ends)).1
      refine ⟨?_, fun e head solid => ?_⟩
      · rw [spaceOut, if_neg blank, same]
        rfl
      · rw [spaceOut, if_neg blank, same]
        rfl

theorem intercalate_words_of_isChain (spaces : ∀ c ∈ text, gap c = true → c = ' ')
    (apart : text.IsChain fun first second => gap first = true → gap second = false)
    (head : ∀ c, text.head? = some c → gap c = false)
    (last : ∀ c, text.getLast? = some c → gap c = false) :
    [' '].intercalate (words gap text) = text := by
  rw [intercalate_words false]
  cases text with
  | nil => rfl
  | cons c rest =>
    have started := (spaceOut_of_isChain spaces apart last).1
    rw [spaceOut, if_neg (by simp [head c rfl])] at started ⊢
    exact started

end Text

namespace Orthography

variable {o : Orthography} {text start after : List Char}

/-- A text without the separators at its ends. -/
def core (o : Orthography) (text : List Char) : List Char :=
  o.trimEnd (text.dropWhile o.isSeparator)

/-- No separator stands at either end of a text. -/
structure HasSolidEnds (o : Orthography) (text : List Char) : Prop where
  head : ∀ c, text.head? = some c → o.isSeparator c = false
  last : ∀ c, text.getLast? = some c → o.isSeparator c = false

instance (o : Orthography) (text : List Char) : Decidable (o.HasSolidEnds text) :=
  decidable_of_iff
    (text.head?.all (fun c => !o.isSeparator c) = true ∧
      text.getLast?.all (fun c => !o.isSeparator c) = true) (by
    simp only [Option.all_eq_true, Bool.not_eq_true']
    exact ⟨fun ends => ⟨ends.1, ends.2⟩, fun ends => ⟨ends.head, ends.last⟩⟩)

theorem hasSolidEnds_core (o : Orthography) (text : List Char) : o.HasSolidEnds (o.core text) := by
  constructor
  · intro c head
    obtain ⟨dropped, whole⟩ := o.trimEnd_prefix (text.dropWhile o.isSeparator)
    have stopped := List.head?_dropWhile_not o.isSeparator text
    rw [← whole, List.head?_append, show (o.trimEnd _).head? = some c from head] at stopped
    exact stopped
  · intro c last
    have stopped := List.head?_dropWhile_not o.isSeparator (text.dropWhile o.isSeparator).reverse
    rw [core, trimEnd, List.getLast?_reverse] at last
    rw [last] at stopped
    exact stopped

/-- A text is its core with separators around it. -/
theorem exists_core_append (o : Orthography) (text : List Char) :
    ∃ before after, before ++ o.core text ++ after = text ∧
      (∀ c ∈ before, o.isSeparator c = true) ∧ ∀ c ∈ after, o.isSeparator c = true := by
  obtain ⟨after, whole, ends⟩ := o.exists_trimEnd_append (text.dropWhile o.isSeparator)
  refine ⟨text.takeWhile o.isSeparator, after, ?_, fun c => List.mem_takeWhile_imp, ends⟩
  rw [List.append_assoc, show o.core text ++ after = _ from whole, List.takeWhile_append_dropWhile]

theorem trimEnd_append_separators (o : Orthography) (text : List Char) {gaps : List Char}
    (all : ∀ c ∈ gaps, o.isSeparator c = true) : o.trimEnd (text ++ gaps) = o.trimEnd text := by
  rw [trimEnd, List.reverse_append, List.dropWhile_append_of_pos]
  · rfl
  · simpa using all

theorem core_of_hasSolidEnds (ends : o.HasSolidEnds text) : o.core text = text := by
  have front : text.dropWhile o.isSeparator = text := by
    cases text with
    | nil => rfl
    | cons c rest => rw [List.dropWhile_cons_of_neg (by simp [ends.head c rfl])]
  rw [core, front]
  refine List.rdropWhile_eq_self_iff.2 fun nonempty => ?_
  simp [ends.last _ (List.getLast?_eq_some_getLast nonempty)]

theorem nextWord?_eq_none_iff :
    o.nextWord? text = none ↔ ∀ c ∈ text, o.isSeparator c = true := by
  rw [← List.dropWhile_eq_nil_iff]
  unfold nextWord?
  split <;> simp [*]

/-- Where blanks are separators, a word has a character. -/
theorem length_rest_lt_of_nextWord? {next : NextWord}
    (spaces : ∀ c ∈ text, o.isSpace c = true → o.isSeparator c = true)
    (found : o.nextWord? text = some next) : next.rest.length < text.length := by
  unfold nextWord? at found
  split at found
  · simp at found
  · next c rest ahead =>
    have suffix : c :: rest <:+ text := ahead ▸ List.dropWhile_suffix _
    have solid : o.isSpace c = false := by
      have stopped := List.head?_dropWhile_not o.isSeparator text
      rw [ahead] at stopped
      rw [← Bool.not_eq_true]
      intro space
      simp [spaces c (suffix.subset (List.mem_cons_self ..)) space] at stopped
    have nonempty : o.wordFrom c rest ≠ [] := by
      unfold wordFrom
      split
      · simp [solid]
      · simp
    cases found
    have positive := List.length_pos_iff.2 nonempty
    have longer := suffix.length_le
    simp only [List.length_drop, List.length_cons] at longer ⊢
    omega

theorem wordsOf_of_nextWord? {next : NextWord}
    (spaces : ∀ c ∈ text, o.isSpace c = true → o.isSeparator c = true)
    (found : o.nextWord? text = some next) : o.wordsOf text = next :: o.wordsOf next.rest := by
  have shorter := length_rest_lt_of_nextWord? spaces found
  rw [wordsOf, found]
  exact if_pos shorter

theorem countWords_eq_succ {next : NextWord}
    (spaces : ∀ c ∈ text, o.isSpace c = true → o.isSeparator c = true)
    (found : o.nextWord? text = some next) : o.countWords text = o.countWords next.rest + 1 := by
  rw [countWords, wordsOf_of_nextWord? spaces found, List.length_cons, countWords]

/-- Where blanks are separators, only a text of separators has no words. -/
theorem countWords_eq_zero_iff
    (spaces : ∀ c ∈ text, o.isSpace c = true → o.isSeparator c = true) :
    o.countWords text = 0 ↔ ∀ c ∈ text, o.isSeparator c = true := by
  rw [← nextWord?_eq_none_iff]
  cases found : o.nextWord? text with
  | none => simp [countWords, wordsOf, found]
  | some next => simp [countWords_eq_succ spaces found]

/-- After its first word a text goes on with what is left of its start, then as it did. -/
theorem exists_rest_append {next found : NextWord} (whole : o.nextWord? (start ++ after) = some next)
    (partly : o.nextWord? start = some found) :
    ∃ further, next.rest = found.rest ++ further ∧ further ⊆ after := by
  refine ⟨after.drop ((next.gap ++ next.word).length - start.length), ?_,
    fun _ => List.mem_of_mem_drop⟩
  have left := rest_of_nextWord?_prefix whole (List.prefix_append ..) partly
  rw [left, ← List.drop_append, ← append_of_nextWord? whole, List.drop_left]

/-- A start of few enough words is tried where only separators follow it, perhaps with some
of them at its end. -/
theorem exists_mem_grown {limit : Nat}
    (spaces : ∀ c ∈ start ++ after, o.isSpace c = true → o.isSeparator c = true)
    (ends : ∀ c ∈ after, o.isSeparator c = true) (worded : o.countWords start ≠ 0)
    (few : o.countWords start ≤ limit) :
    ∃ taken ∈ o.grown limit (start ++ after),
      ∀ c ∈ (start ++ after).drop taken.length, o.isSeparator c = true := by
  induction limit generalizing start after with
  | zero => omega
  | succ limit ih =>
    have inside := (List.forall_mem_append.1 spaces).1
    obtain ⟨found, partly⟩ : ∃ found, o.nextWord? start = some found := by
      rw [← Option.ne_none_iff_exists', Ne, nextWord?_eq_none_iff, ← countWords_eq_zero_iff inside]
      exact worded
    obtain ⟨next, whole⟩ : ∃ next, o.nextWord? (start ++ after) = some next := by
      rw [← Option.ne_none_iff_exists', Ne, nextWord?_eq_none_iff, List.forall_mem_append,
        ← nextWord?_eq_none_iff, partly]
      simp
    have split := append_of_nextWord? whole
    obtain ⟨further, onward, within⟩ := exists_rest_append whole partly
    have endsOnward : ∀ c ∈ further, o.isSeparator c = true := fun c member => ends c (within member)
    rw [grown, whole]
    rw [← split] at spaces ⊢
    have spacesOnward := (List.forall_mem_append.1 spaces).2
    rw [onward] at spacesOnward
    by_cases wordless : o.countWords found.rest = 0
    · refine ⟨next.gap ++ next.word, List.mem_cons_self .., ?_⟩
      rw [List.drop_left, onward, List.forall_mem_append]
      have solid := (List.forall_mem_append.1 spacesOnward).1
      exact ⟨(countWords_eq_zero_iff solid).1 wordless, endsOnward⟩
    · have counted := countWords_eq_succ inside partly
      obtain ⟨taken, member, rest⟩ := ih spacesOnward endsOnward wordless (by omega)
      rw [← onward] at member rest
      refine ⟨next.gap ++ next.word ++ taken,
        List.mem_cons_of_mem _ (List.mem_map_of_mem member), ?_⟩
      rw [List.length_append, List.drop_length_add_append]
      exact rest

/-- A piece of a normal form that no separator stands at the ends of is collapsed already. -/
theorem collapse_of_hasSolidEnds {language : Language} {before source : List Char}
    (whole : before ++ text ++ after = (ofLanguage language).normalizePhrase source)
    (ends : (ofLanguage language).HasSolidEnds text) : Entity.collapse text = text := by
  have inside : text ⊆ (ofLanguage language).normalizePhrase source := fun c member =>
    whole ▸ List.mem_append_left _ (List.mem_append_right _ member)
  have normal := (ofLanguage language).isNormal_normalizePhrase source
  have space : ∀ c, isBlank c = true → (ofLanguage language).isSpace c = true :=
    fun c blank => (isSpace_iff _ c).2 (.inr blank)
  have boundary : ∀ c ∈ text, isBlank c = true → c ∈ (ofLanguage language).wordBoundary :=
    fun c member blank => normal.boundary c (inside member) (space c blank)
  have single : (ofLanguage language).wordBoundary.length ≤ 1 := by
    rw [wordBoundary_ofLanguage]
    split <;> simp
  have apart : text.IsChain fun first second => isBlank first = true → isBlank second = false := by
    rw [normalizePhrase_eq_spaceOut] at whole
    have chain := whole ▸ isChain_spaceOut single false false
    refine chain.left_of_append.right_of_append.imp fun first second apart blank => ?_
    rw [← Bool.not_eq_true]
    intro next
    have solid := apart (space first blank)
    simp [space second next] at solid
  have solid : ∀ c ∈ text, (ofLanguage language).isSeparator c = false → isBlank c = false := by
    intro c member solid
    rw [← Bool.not_eq_true]
    intro blank
    rw [isSeparator_of_mem_wordBoundary (boundary c member blank)] at solid
    simp at solid
  have same : [' '].intercalate (words isBlank text) = text :=
    intercalate_words_of_isChain
      (fun c member blank => (eq_space_of_mem_wordBoundary (boundary c member blank)).1) apart
      (fun c head => solid c (List.mem_of_head? head) (ends.head c head))
      fun c last => solid c (List.mem_of_getLast? last) (ends.last c last)
  rw [Entity.collapse, same]
  exact lower_of_lowered fun c member => lowerChar_of_mem_normalizePhrase (inside member)

/-- An input whose normal form ends in no separator loses nothing from its end. -/
theorem normalizeInput_of_hasSolidEnds {language : Language} {options : MatchOptions}
    (ends : (ofLanguage language).HasSolidEnds
      ((ofLanguage language).normalizePhrase ((ofLanguage language).plain options text))) :
    (ofLanguage language).normalizeInput options text =
      (ofLanguage language).normalizePhrase ((ofLanguage language).plain options text) := by
  obtain ⟨dropped, whole, gaps⟩ := exists_normalizeInput_append_separators language options text
  rcases List.eq_nil_or_concat dropped with rfl | ⟨others, c, rfl⟩
  · rw [← whole, List.append_nil]
  · have solid := ends.last c (by rw [← whole]; simp)
    rw [gaps c (by simp)] at solid
    simp at solid

/-- The core of an input is its own collapsed form. -/
theorem collapse_core_normalizeInput (language : Language) (options : MatchOptions)
    (text : List Char) :
    Entity.collapse ((ofLanguage language).core ((ofLanguage language).normalizeInput options text)) =
      (ofLanguage language).core ((ofLanguage language).normalizeInput options text) := by
  obtain ⟨before, after, pieces, -, -⟩ :=
    (ofLanguage language).exists_core_append ((ofLanguage language).normalizeInput options text)
  obtain ⟨dropped, whole, -⟩ := (ofLanguage language).exists_normalizeInput_append options text
  rw [← pieces, List.append_assoc] at whole
  exact collapse_of_hasSolidEnds whole (hasSolidEnds_core _ _)

end Orthography

end Phrasebook
