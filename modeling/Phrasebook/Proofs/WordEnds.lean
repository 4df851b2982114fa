import Mathlib.Data.List.Iterate
import Mathlib.Data.List.Range
import Phrasebook.Proofs.WordRuns

/-! The ends of the words from a place on.

Words are grabbed from a place to the end of the text, and the separators at the end of each
are left out. Giving words back from the end of the text, one at a time, visits the same ends
from the last to the first, and then the place itself.
-/

set_option autoImplicit false

namespace Phrasebook

open Text

namespace Text

theorem byteLength_le_of_starts {first second : List Char} (starts : first <+: second) :
    byteLength first ≤ byteLength second := by
  obtain ⟨more, rfl⟩ := starts
  rw [byteLength_append]
  exact Nat.le_add_right ..

/-- A shorter start of a text has fewer bytes. -/
theorem byteLength_lt_of_starts {first second : List Char} (starts : first <+: second)
    (shorter : first.length < second.length) : byteLength first < byteLength second := by
  obtain ⟨more, rfl⟩ := starts
  cases more with
  | nil => simp at shorter
  | cons c rest =>
    have := c.utf8Size_pos
    simp only [byteLength_append, byteLength_cons]
    omega

end Text

/-- The offset of a place is the one at which the rest of the text starts. -/
theorem Cursor.exists_of_suffixAt? {text rest : List Char} {offset : Nat}
    (position : suffixAt? text offset = some rest) :
    ∃ cursor : Cursor, cursor.text = text ∧ cursor.offset = offset ∧ cursor.rest = rest := by
  obtain ⟨before, rfl, rfl⟩ := Text.exists_of_suffixAt? position
  refine ⟨⟨before.reverse, rest⟩, ?_, byteLength_reverse before, rfl⟩
  rw [Cursor.text, List.reverse_reverse]

/-- A step that leads from each of some values to the one before it visits them backwards. -/
theorem iterate_eq_reverse {α : Type} {step : α → α} {value : Nat → α} {count : Nat}
    (back : ∀ index < count, step (value (index + 1)) = value index) :
    List.iterate step (value count) (count + 1) = ((List.range (count + 1)).map value).reverse := by
  induction count with
  | zero => rfl
  | succ count ih =>
    rw [List.iterate, back count (Nat.lt_succ_self _),
      ih fun index less => back index (Nat.lt_succ_of_lt less), List.range_succ (n := count + 1),
      List.map_append, List.reverse_append]
    rfl

namespace Orthography

variable {o : Orthography} {cursor : Cursor} {text run : List Char} {count : Nat}

theorem reaching_append (before span : List Char) (start : Nat) :
    reaching (start + byteLength before) start (before ++ span) =
      (start + byteLength before, span) := by
  induction before generalizing start with
  | nil =>
    cases span with
    | nil => rfl
    | cons c rest =>
      have := c.utf8Size_pos
      rw [List.nil_append, reaching, if_neg (by simp only [byteLength_nil]; omega)]
      rfl
  | cons c before ih =>
    rw [List.cons_append, reaching, byteLength_cons, if_pos (by omega), ← Nat.add_assoc, ih]

/-- The text before the end of a span that starts at a place, and what of it is in the span. -/
theorem splitAt?_of_starts (starts : run <+: cursor.rest) :
    min (cursor.offset + byteLength run) (byteLength cursor.text) =
        cursor.offset + byteLength run ∧
      (∃ after, splitAt? cursor.text (cursor.offset + byteLength run) =
        some (cursor.before.reverse ++ run, after)) ∧
      reaching cursor.offset 0 (cursor.before.reverse ++ run) = (cursor.offset, run) := by
  obtain ⟨after, whole⟩ := starts
  have length : byteLength (cursor.before.reverse ++ run) = cursor.offset + byteLength run := by
    rw [byteLength_append, byteLength_reverse, Cursor.offset]
  have text : cursor.text = cursor.before.reverse ++ run ++ after := by
    rw [Cursor.text, ← whole, List.append_assoc]
  refine ⟨?_, ⟨after, splitAt?_eq_some_iff.2 ⟨text, length⟩⟩, ?_⟩
  · rw [text, byteLength_append, length]
    exact Nat.min_eq_left (Nat.le_add_right ..)
  · have reached := reaching_append cursor.before.reverse run 0
    rw [Nat.zero_add, byteLength_reverse] at reached
    exact reached

theorem trimEndSeparators_of_starts (starts : run <+: cursor.rest) :
    o.trimEndSeparators cursor.text cursor.offset (cursor.offset + byteLength run) =
      cursor.offset + byteLength (o.trimEnd run) := by
  obtain ⟨inside, ⟨after, split⟩, reached⟩ := splitAt?_of_starts starts
  simp only [trimEndSeparators, inside, split, reached]

theorem removeLastToken_of_starts (starts : run <+: cursor.rest) :
    o.removeLastToken cursor.text cursor.offset (cursor.offset + byteLength run) =
      cursor.offset + byteLength (o.dropLastWord run) := by
  obtain ⟨inside, ⟨after, split⟩, reached⟩ := splitAt?_of_starts starts
  simp only [removeLastToken, inside, split, reached]
  split
  · next nothing =>
    -- Where trimming or dropping the word leaves nothing, trimming again leaves nothing.
    have within : o.dropWord run <+: o.trimEnd run := by
      have kept := o.dropWord_prefix (o.trimEnd run)
      rwa [dropWord, trimEnd_trimEnd] at kept
    have trimmed := byteLength_le_of_starts within
    have dropped := byteLength_le_of_starts (o.trimEnd_prefix (o.dropWord run))
    rw [dropLastWord]
    omega
  · rfl

/-- The end of some words from a place on, without the separators after the last one. -/
def runEnd (o : Orthography) (cursor : Cursor) (count : Nat) : Nat :=
  cursor.offset + byteLength (o.trimEnd ((o.run? count cursor.rest).getD []))

theorem runEnd_of_run? (whole : o.run? count cursor.rest = some run) :
    o.runEnd cursor count = cursor.offset + byteLength (o.trimEnd run) := by
  rw [runEnd, whole, Option.getD_some]

theorem runEnd_zero (o : Orthography) (cursor : Cursor) : o.runEnd cursor 0 = cursor.offset := rfl

theorem wordEnd?_trimEndSeparators (cursor : Cursor) (count : Nat) :
    (o.wordEnd? cursor.text count cursor.offset).map
        (o.trimEndSeparators cursor.text cursor.offset) =
      (o.run? count cursor.rest).map fun _ => o.runEnd cursor count := by
  rw [wordEnd?_eq]
  cases whole : o.run? count cursor.rest with
  | none => rfl
  | some run =>
    rw [Option.map_some, Option.map_some, Option.map_some,
      trimEndSeparators_of_starts (prefix_of_run? whole), runEnd_of_run? whole]

/-- Giving a word back leads to the end of the word before it. -/
theorem removeLastToken_runEnd
    (spaces : ∀ c ∈ cursor.rest, o.isSpace c = true → o.isSeparator c = true)
    (whole : o.run? (count + 1) cursor.rest = some run) :
    o.removeLastToken cursor.text cursor.offset (o.runEnd cursor (count + 1)) =
        o.runEnd cursor count ∧
      o.runEnd cursor count < o.runEnd cursor (count + 1) := by
  have longer := whole
  rw [run?_succ] at longer
  obtain ⟨shorter, before, onward⟩ := Option.bind_eq_some_iff.1 longer
  obtain ⟨next, found, rfl⟩ := Option.map_eq_some_iff.1 onward
  obtain ⟨dropped, less⟩ := dropLastWord_run spaces before found
  rw [runEnd_of_run? whole, runEnd_of_run? before]
  constructor
  · rw [removeLastToken_of_starts ((o.trimEnd_prefix _).trans (prefix_of_run? whole)), dropped]
  · have starts : o.trimEnd shorter <+: o.trimEnd (shorter ++ (next.gap ++ next.word)) :=
      dropped ▸ o.dropLastWord_prefix _
    have := byteLength_lt_of_starts starts less
    omega

/-- The ends of all words from a place on, if there are `count` of them. -/
def wordEnds (o : Orthography) (cursor : Cursor) (count : Nat) : List Nat :=
  (List.range count).map fun before => o.runEnd cursor (before + 1)

theorem cons_wordEnds (o : Orthography) (cursor : Cursor) (count : Nat) :
    cursor.offset :: o.wordEnds cursor count = (List.range (count + 1)).map (o.runEnd cursor) := by
  rw [wordEnds, List.range_succ_eq_map, List.map_cons, List.map_map, runEnd_zero]
  rfl

/-- Shrinking the whole text from a place on tries the ends of its words backwards. -/
theorem map_shrunk_run
    (spaces : ∀ c ∈ cursor.rest, o.isSpace c = true → o.isSeparator c = true)
    (whole : o.run? count cursor.rest = some run) :
    (o.shrunk (o.trimEnd run)).map (fun taken => cursor.offset + byteLength taken) =
      (o.wordEnds cursor count).reverse := by
  rw [shrunk_run spaces whole, List.map_reverse, List.map_filterMap, wordEnds,
    ← List.filterMap_eq_map]
  refine congrArg List.reverse (List.filterMap_congr fun before member => ?_)
  obtain ⟨shorter, eq⟩ := exists_shorter_run whole (List.mem_range.1 member)
  rw [eq, Option.map_some, Option.map_some]
  exact congrArg some (runEnd_of_run? eq).symm

/-- The words from a place on end where the text does, but for separators. -/
theorem exists_last_run (spaces : ∀ c ∈ text, o.isSpace c = true → o.isSeparator c = true) :
    ∃ count run, o.run? count text = some run ∧ o.run? (count + 1) text = none ∧
      o.trimEnd run = o.trimEnd text := by
  obtain ⟨count, run, whole, ends⟩ := exists_whole_run text spaces
  refine ⟨count, run, whole, ?_, ?_⟩
  · rw [run?_succ, whole, Option.bind_some, nextWord?_eq_none_iff.2 ends]
    rfl
  · have split := List.prefix_iff_eq_append.1 (prefix_of_run? whole)
    conv_rhs => rw [← split, trimEnd_append_separators o run ends]

/-- The ends of all words that are grabbed from an offset on, without the separators after them. -/
structure IsWordEnds (o : Orthography) (text : List Char) (start : Nat) (ends : List Nat) : Prop where
  grabbed : ∀ count, (o.wordEnd? text (count + 1) start).map (o.trimEndSeparators text start) =
    ends[count]?
  increasing : (start :: ends).Pairwise (· < ·)

/-- Words that are grabbed from a place of a text on, and words that are given back from its end,
end at the same places. -/
theorem exists_wordEnds (spaces : ∀ c ∈ cursor.rest, o.isSpace c = true → o.isSeparator c = true) :
    ∃ ends, o.IsWordEnds cursor.text cursor.offset ends ∧
      List.iterate (o.removeLastToken cursor.text cursor.offset)
          (o.trimEndSeparators cursor.text cursor.offset (byteLength cursor.text))
          (ends.length + 1) =
        (cursor.offset :: ends).reverse ∧
      (o.shrunk (o.trimEnd cursor.rest)).map (fun taken => cursor.offset + byteLength taken) =
        ends.reverse ∧
      (ends = [] → ∀ c ∈ cursor.rest, o.isSeparator c = true) := by
  obtain ⟨count, run, whole, last, trimmed⟩ := exists_last_run spaces
  have runs : ∀ index < count, ∃ shorter, o.run? (index + 1) cursor.rest = some shorter :=
    fun index less => exists_shorter_run whole less
  have steps : ∀ index < count,
      o.removeLastToken cursor.text cursor.offset (o.runEnd cursor (index + 1)) =
          o.runEnd cursor index ∧
        o.runEnd cursor index < o.runEnd cursor (index + 1) := by
    intro index less
    obtain ⟨shorter, eq⟩ := runs index less
    exact removeLastToken_runEnd spaces eq
  have length : (o.wordEnds cursor count).length = count := by simp [wordEnds]
  have stop : cursor.offset + byteLength cursor.rest = byteLength cursor.text := by
    rw [Cursor.text, byteLength_append, byteLength_reverse, Cursor.offset]
  refine ⟨o.wordEnds cursor count, ⟨fun index => ?_, ?_⟩, ?_, ?_, ?_⟩
  · rw [wordEnd?_trimEndSeparators, wordEnds, List.getElem?_map]
    by_cases less : index < count
    · obtain ⟨shorter, eq⟩ := runs index less
      rw [eq, List.getElem?_range less]
      rfl
    · -- Without more words there is no run of as many.
      have none : o.run? (index + 1) cursor.rest = none := by
        rw [Option.eq_none_iff_forall_ne_some]
        intro longer eq
        obtain ⟨further, eq⟩ := exists_shorter_run eq (by omega : count + 1 ≤ index + 1)
        rw [last] at eq
        cases eq
      rw [none, List.getElem?_eq_none (by simpa using less)]
      rfl
  · rw [cons_wordEnds, ← List.isChain_iff_pairwise, List.isChain_map, List.isChain_range_succ]
    exact fun index less => (steps index less).2
  · rw [length, cons_wordEnds, ← iterate_eq_reverse fun index less => (steps index less).1, ← stop,
      trimEndSeparators_of_starts (List.prefix_refl _), ← trimmed, runEnd_of_run? whole]
  · rw [← trimmed, map_shrunk_run spaces whole]
  · intro empty
    rw [empty, List.length_nil] at length
    subst length
    cases whole
    rw [← trimEnd_eq_nil_iff, ← trimmed]
    rfl

/-- At any position of a normalized text, giving back words from the end visits the ends of the
words from the position on, the last one first, and then the position; a slot without limit tries
the same ends. -/
theorem iterate_removeLastToken {language : Language} {text source rest : List Char} {start : Nat}
    (normal : text = (ofLanguage language).normalizePhrase source ∨
      ∃ options, text = (ofLanguage language).normalizeInput options source)
    (position : suffixAt? text start = some rest) :
    ∃ ends, (ofLanguage language).IsWordEnds text start ends ∧
      List.iterate ((ofLanguage language).removeLastToken text start)
          ((ofLanguage language).trimEndSeparators text start (byteLength text))
          (ends.length + 1) =
        (start :: ends).reverse ∧
      ((ofLanguage language).shrunk ((ofLanguage language).trimEnd rest)).map
          (fun taken => start + byteLength taken) =
        ends.reverse ∧
      ((ofLanguage language).skipInputSeparators text start = start → start < byteLength text →
        ends ≠ []) := by
  obtain ⟨cursor, rfl, rfl, rfl⟩ := Cursor.exists_of_suffixAt? position
  have isNormal : (ofLanguage language).IsNormal cursor.text := by
    rcases normal with same | ⟨options, same⟩ <;> rw [same]
    · exact (ofLanguage language).isNormal_normalizePhrase source
    · exact (ofLanguage language).isNormal_normalizeInput options source
  obtain ⟨ends, isEnds, dropped, tried, none⟩ := exists_wordEnds fun c member =>
    isNormal.isSeparator_of_isSpace (List.mem_append_right _ member)
  refine ⟨ends, isEnds, dropped, tried, fun fixed inside empty => ?_⟩
  -- A text of separators alone is skipped up to its end.
  have skipped : cursor.rest.takeWhile (ofLanguage language).isSeparator = cursor.rest :=
    List.takeWhile_eq_self_iff.2 (none empty)
  rw [skipInputSeparators, skipAt, position] at fixed
  simp only [skipped] at fixed
  rw [Cursor.text, byteLength_append, byteLength_reverse, ← Cursor.offset] at inside
  omega

/-- Letters of two bytes, words with punctuation at their ends, and signs that stand alone. -/
theorem iterate_removeLastToken_word :
    "«été», -- microsoft word".toList =
        (ofLanguage .english).normalizeInput {} "«Été», -- Microsoft  word!".toList ∧
      suffixAt? "«été», -- microsoft word".toList 2 = some "été», -- microsoft word".toList ∧
      (ofLanguage .english).IsWordEnds "«été», -- microsoft word".toList 2 [7, 23, 28] ∧
      List.iterate ((ofLanguage .english).removeLastToken "«été», -- microsoft word".toList 2)
        ((ofLanguage .english).trimEndSeparators "«été», -- microsoft word".toList 2 28) 4 =
          [28, 23, 7, 2] := by
  have normal : "«été», -- microsoft word".toList =
      (ofLanguage .english).normalizeInput {} "«Été», -- Microsoft  word!".toList := by
    decide +kernel
  have position : suffixAt? "«été», -- microsoft word".toList 2 =
      some "été», -- microsoft word".toList := by
    decide +kernel
  have visited : List.iterate
      ((ofLanguage .english).removeLastToken "«été», -- microsoft word".toList 2)
      ((ofLanguage .english).trimEndSeparators "«été», -- microsoft word".toList 2 28) 4 =
        [28, 23, 7, 2] := by
    decide +kernel
  obtain ⟨ends, isEnds, dropped, -⟩ := iterate_removeLastToken (.inr ⟨{}, normal⟩) position
  have third : ends[2]? = some 28 := (isEnds.grabbed 2).symm.trans (by decide +kernel)
  have fourth : ends[3]? = none := (isEnds.grabbed 3).symm.trans (by decide +kernel)
  have three : ends.length = 3 :=
    Nat.le_antisymm (List.getElem?_eq_none_iff.1 fourth) (List.getElem?_eq_some_iff.1 third).1
  have whole : byteLength "«été», -- microsoft word".toList = 28 := by decide +kernel
  rw [three, whole, visited] at dropped
  have same : 2 :: ends = [2, 7, 23, 28] := List.reverse_injective dropped.symm
  exact ⟨normal, position, (List.cons.inj same).2 ▸ isEnds, visited⟩

end Orthography

end Phrasebook
