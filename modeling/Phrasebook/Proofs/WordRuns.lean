import Phrasebook.Proofs.WordSpans

/-! Runs of whole words at the front of a text.

Words are grabbed one after the other, each from where the last one ended. A run can grow by
a word, and it can be shrunk: the separators at its end go, then the characters of its last
word. In a text whose blanks are separators both visit the same runs.
-/

set_option autoImplicit false

namespace Phrasebook

open Text

namespace Orthography

variable {o : Orthography} {text run : List Char} {count : Nat} {next : NextWord}

/-- The front of a text up to the end of one of its words. -/
def run? (o : Orthography) : Nat → List Char → Option (List Char)
  | 0, _ => some []
  | count + 1, text =>
    (o.nextWord? text).bind fun next => (o.run? count next.rest).map (next.gap ++ next.word ++ ·)

/-- The offset after some words that are grabbed from an offset on, each where the last one ended. -/
def wordEnd? (o : Orthography) (text : List Char) : Nat → Nat → Option Nat
  | 0, offset => some offset
  | count + 1, offset =>
    (o.grabNextWord text offset).bind fun word => o.wordEnd? text count word.2

theorem drop_of_nextWord? (found : o.nextWord? text = some next) (taken : List Char) :
    text.drop (next.gap ++ next.word ++ taken).length = next.rest.drop taken.length := by
  rw [← append_of_nextWord? found, List.length_append, List.drop_length_add_append]

theorem prefix_of_run? (whole : o.run? count text = some run) : run <+: text := by
  induction count generalizing text run with
  | zero =>
    cases whole
    exact List.nil_prefix
  | succ count ih =>
    obtain ⟨next, found, onward⟩ := Option.bind_eq_some_iff.1 whole
    obtain ⟨further, longer, rfl⟩ := Option.map_eq_some_iff.1 onward
    rw [← append_of_nextWord? found]
    exact (List.prefix_append_right_inj _).2 (ih longer)

/-- A run grows at its end. -/
theorem run?_succ (count : Nat) (text : List Char) :
    o.run? (count + 1) text =
      (o.run? count text).bind fun run =>
        (o.nextWord? (text.drop run.length)).map fun next => run ++ (next.gap ++ next.word) := by
  induction count generalizing text with
  | zero =>
    cases found : o.nextWord? text <;> simp [run?, found]
  | succ count ih =>
    rw [run?, run?]
    cases found : o.nextWord? text with
    | none => rfl
    | some next =>
      rw [Option.bind_some, Option.bind_some, ih]
      cases o.run? count next.rest with
      | none => rfl
      | some further =>
        rw [Option.map_some, Option.bind_some, Option.bind_some, drop_of_nextWord? found]
        cases o.nextWord? (next.rest.drop further.length) <;> simp

theorem exists_shorter_run {fewer : Nat} (whole : o.run? count text = some run)
    (less : fewer ≤ count) : ∃ shorter, o.run? fewer text = some shorter := by
  induction count generalizing run with
  | zero => exact ⟨run, by rwa [Nat.le_zero.1 less]⟩
  | succ count ih =>
    rcases Nat.le_succ_iff.1 less with within | rfl
    · rw [run?_succ] at whole
      obtain ⟨before, eq, -⟩ := Option.bind_eq_some_iff.1 whole
      exact ih eq within
    · exact ⟨run, whole⟩

theorem grown_eq (limit : Nat) (text : List Char) :
    o.grown limit text = (List.range limit).filterMap fun before => o.run? (before + 1) text := by
  induction limit generalizing text with
  | zero => rfl
  | succ limit ih =>
    rw [grown, List.range_succ_eq_map]
    cases found : o.nextWord? text with
    | none => simp [run?, found]
    | some next =>
      simp [run?, found, ih, List.filterMap_map, List.map_filterMap, Function.comp_def]

theorem grabNextWord_cursor (o : Orthography) (cursor : Cursor) :
    o.grabNextWord cursor.text cursor.offset =
      (o.nextWord? cursor.rest).map fun next =>
        (cursor.offset + byteLength next.gap,
          cursor.offset + byteLength next.gap + byteLength next.word) := by
  rw [grabNextWord, cursor.suffixAt?_offset]
  rfl

/-- The place after a word. -/
theorem exists_cursor_after (cursor : Cursor) (found : o.nextWord? cursor.rest = some next) :
    ∃ after : Cursor, after.text = cursor.text ∧ after.rest = next.rest ∧
      after.offset = cursor.offset + byteLength next.gap + byteLength next.word := by
  refine ⟨⟨(next.gap ++ next.word).reverse ++ cursor.before, next.rest⟩, ?_, rfl, ?_⟩
  · rw [Cursor.text, Cursor.text, ← append_of_nextWord? found]
    simp
  · rw [Cursor.offset, Cursor.offset, byteLength_append, byteLength_reverse, byteLength_append]
    omega

/-- Grabbing words from a place on ends where their run does. -/
theorem wordEnd?_eq (cursor : Cursor) (count : Nat) :
    o.wordEnd? cursor.text count cursor.offset =
      (o.run? count cursor.rest).map fun run => cursor.offset + byteLength run := by
  induction count generalizing cursor with
  | zero => rfl
  | succ count ih =>
    rw [wordEnd?, grabNextWord_cursor, run?]
    cases found : o.nextWord? cursor.rest with
    | none => rfl
    | some next =>
      obtain ⟨after, text, rest, offset⟩ := exists_cursor_after cursor found
      have onward := ih after
      rw [text, offset, rest] at onward
      simp only [Option.map_some, Option.bind_some, Option.map_map]
      rw [onward]
      refine congrArg (Option.map · (o.run? count next.rest)) (funext fun further => ?_)
      simp only [Function.comp_apply, byteLength_append]
      omega

end Orthography

/-- What is known of a word and what stands around it, where blanks are separators. -/
structure NextWord.IsWord (o : Orthography) (next : NextWord) : Prop where
  gap : ∀ c ∈ next.gap, o.isSeparator c = true
  head : ∃ c others, next.word = c :: others ∧ o.isSeparator c = false
  solid : o.hasWordSpacing = true → ∀ c ∈ next.word, o.isSpace c = false
  /-- A space ends a word, in a language that has them. -/
  stop : o.hasWordSpacing = true → ∀ c, next.rest.head? = some c → o.isSpace c = true
  single : o.hasWordSpacing = false → ∃ c, next.word = [c]

namespace Orthography

variable {o : Orthography} {text run : List Char} {count : Nat} {next : NextWord}

theorem isWord_of_nextWord? (spaces : ∀ c ∈ text, o.isSpace c = true → o.isSeparator c = true)
    (found : o.nextWord? text = some next) : next.IsWord o := by
  unfold nextWord? at found
  split at found
  · simp at found
  · next c rest ahead =>
    have suffix : c :: rest <:+ text := ahead ▸ List.dropWhile_suffix _
    have solid : o.isSeparator c = false := by
      have stopped := List.head?_dropWhile_not o.isSeparator text
      rw [ahead] at stopped
      exact stopped
    have noSpace : o.isSpace c = false := by
      rw [← Bool.not_eq_true]
      intro space
      rw [spaces c (suffix.subset List.mem_cons_self) space] at solid
      cases solid
    cases found
    refine ⟨fun d => List.mem_takeWhile_imp, ?_, fun spaced d member => ?_, fun spaced d ends => ?_,
      fun unspaced => ⟨c, by rw [wordFrom, unspaced]; rfl⟩⟩
    · unfold wordFrom
      split
      · exact ⟨c, rest.takeWhile fun d => !o.isSpace d, by simp [noSpace], solid⟩
      · exact ⟨c, [], rfl, solid⟩
    · simp only [wordFrom, if_pos spaced] at member
      simpa using List.mem_takeWhile_imp member
    · -- What is left of the text after the word starts where its letters stop.
      have split := List.takeWhile_append_dropWhile (p := fun d => !o.isSpace d) (l := c :: rest)
      have left : ((c :: rest).takeWhile (fun d => !o.isSpace d) ++
          (c :: rest).dropWhile fun d => !o.isSpace d).drop
            ((c :: rest).takeWhile fun d => !o.isSpace d).length =
          (c :: rest).dropWhile fun d => !o.isSpace d := List.drop_left
      simp only [wordFrom, if_pos spaced] at ends
      rw [split] at left
      rw [left] at ends
      have stopped := List.head?_dropWhile_not (fun d => !o.isSpace d) (c :: rest)
      rw [ends] at stopped
      simpa using stopped

theorem trimEnd_eq_nil_iff : o.trimEnd text = [] ↔ ∀ c ∈ text, o.isSeparator c = true := by
  rw [trimEnd, List.reverse_eq_nil_iff, List.dropWhile_eq_nil_iff]
  simp only [List.mem_reverse]

theorem trimEnd_append (first : List Char) {second : List Char} (solid : o.trimEnd second ≠ []) :
    o.trimEnd (first ++ second) = first ++ o.trimEnd second := by
  rw [trimEnd, Ne, List.reverse_eq_nil_iff] at solid
  rw [trimEnd, trimEnd, List.reverse_append, List.dropWhile_append, if_neg (by simpa using solid),
    List.reverse_append, List.reverse_reverse]

theorem trimEnd_trimEnd (o : Orthography) (text : List Char) :
    o.trimEnd (o.trimEnd text) = o.trimEnd text := by
  obtain ⟨dropped, whole, gaps⟩ := o.exists_trimEnd_append text
  conv_rhs => rw [← whole, trimEnd_append_separators o _ gaps]

theorem trimEnd_word_ne_nil (isWord : next.IsWord o) : o.trimEnd next.word ≠ [] := by
  obtain ⟨c, others, word, solid⟩ := isWord.head
  rw [Ne, trimEnd_eq_nil_iff, word]
  intro all
  simp [all c List.mem_cons_self] at solid

/-- In a language with spaces a text goes on with one after any run of words. -/
theorem isSpace_of_run? (spaces : ∀ c ∈ text, o.isSpace c = true → o.isSeparator c = true)
    (spaced : o.hasWordSpacing = true) (whole : o.run? count text = some run) (words : run ≠ [])
    {c : Char} (ahead : (text.drop run.length).head? = some c) : o.isSpace c = true := by
  induction count generalizing text run with
  | zero =>
    cases whole
    exact absurd rfl words
  | succ count ih =>
    obtain ⟨next, found, onward⟩ := Option.bind_eq_some_iff.1 whole
    obtain ⟨further, longer, rfl⟩ := Option.map_eq_some_iff.1 onward
    rw [drop_of_nextWord? found] at ahead
    by_cases last : further = []
    · rw [last] at ahead
      exact (isWord_of_nextWord? spaces found).stop spaced c ahead
    · refine ih (fun d member => spaces d ?_) longer last ahead
      rw [← append_of_nextWord? found]
      exact List.mem_append_right _ member

/-- In such a language the separators between two words start with a space. -/
theorem exists_space_of_run? (spaces : ∀ c ∈ text, o.isSpace c = true → o.isSeparator c = true)
    (spaced : o.hasWordSpacing = true) (whole : o.run? count text = some run) (words : run ≠ [])
    (found : o.nextWord? (text.drop run.length) = some next) :
    ∃ space others, next.gap = space :: others ∧ o.isSpace space = true := by
  have isWord := isWord_of_nextWord? (fun c member => spaces c (List.mem_of_mem_drop member)) found
  have split := append_of_nextWord? found
  cases gap : next.gap with
  | nil =>
    obtain ⟨c, others, word, solid⟩ := isWord.head
    have ahead : (text.drop run.length).head? = some c := by rw [← split, gap, word]; rfl
    have inside : c ∈ text := List.mem_of_mem_drop (List.mem_of_mem_head? ahead)
    rw [spaces c inside (isSpace_of_run? spaces spaced whole words ahead)] at solid
    cases solid
  | cons space others =>
    refine ⟨space, others, rfl, isSpace_of_run? spaces spaced whole words ?_⟩
    rw [← split, gap]
    rfl

/-- The word that ends a run is dropped with some of the separators before it. -/
theorem exists_dropWord_append
    (spaces : ∀ c ∈ text, o.isSpace c = true → o.isSeparator c = true)
    (whole : o.run? count text = some run)
    (found : o.nextWord? (text.drop run.length) = some next) :
    ∃ left, o.dropWord (o.trimEnd (run ++ (next.gap ++ next.word))) = run ++ left ∧
      ∀ c ∈ left, o.isSeparator c = true := by
  have isWord := isWord_of_nextWord? (fun c member => spaces c (List.mem_of_mem_drop member)) found
  have core : o.trimEnd (run ++ (next.gap ++ next.word)) =
      run ++ next.gap ++ o.trimEnd next.word := by
    rw [← List.append_assoc, trimEnd_append _ (trimEnd_word_ne_nil isWord)]
  rw [dropWord, trimEnd_trimEnd, core]
  cases spaced : o.hasWordSpacing with
  | false =>
    obtain ⟨c, word⟩ := isWord.single spaced
    have solid : o.trimEnd next.word = [c] := by
      obtain ⟨d, others, head, solid⟩ := isWord.head
      rw [word] at head
      cases head
      rw [word, trimEnd]
      simp [solid]
    refine ⟨next.gap, ?_, isWord.gap⟩
    simp [solid]
  | true =>
    have letters : ∀ c ∈ (o.trimEnd next.word).reverse, (!o.isSpace c) = true := by
      intro c member
      rw [isWord.solid spaced c ((o.trimEnd_prefix _).subset (List.mem_reverse.1 member))]
      rfl
    rw [if_pos rfl, List.reverse_append, List.dropWhile_append_of_pos letters, List.reverse_append]
    by_cases first : run = []
    · subst first
      refine ⟨(next.gap.reverse.dropWhile fun c => !o.isSpace c).reverse, by simp, fun c member => ?_⟩
      have inside := (List.dropWhile_suffix _).subset (List.mem_reverse.1 member)
      exact isWord.gap c (List.mem_reverse.1 inside)
    · -- The separators before the word start with a space, where dropping stops at the latest.
      obtain ⟨space, others, gap, blank⟩ := exists_space_of_run? spaces spaced whole first found
      have stops : (!o.isSpace space) = false := by rw [blank]; rfl
      refine ⟨space :: (others.reverse.dropWhile fun c => !o.isSpace c).reverse, ?_, ?_⟩
      · rw [gap, List.reverse_cons, List.append_assoc, List.singleton_append,
          List.dropWhile_append, List.dropWhile_cons_of_neg (by simp [stops])]
        split
        · next none => simp [List.isEmpty_iff.1 none]
        · simp
      · intro c member
        refine isWord.gap c ?_
        rw [gap]
        rcases List.mem_cons.1 member with rfl | further
        · exact List.mem_cons_self
        · have inside := (List.dropWhile_suffix _).subset (List.mem_reverse.1 further)
          exact List.mem_cons_of_mem _ (List.mem_reverse.1 inside)

theorem dropLastWord_run
    (spaces : ∀ c ∈ text, o.isSpace c = true → o.isSeparator c = true)
    (whole : o.run? count text = some run)
    (found : o.nextWord? (text.drop run.length) = some next) :
    o.dropLastWord (o.trimEnd (run ++ (next.gap ++ next.word))) = o.trimEnd run ∧
      (o.trimEnd run).length < (o.trimEnd (run ++ (next.gap ++ next.word))).length := by
  constructor
  · obtain ⟨left, dropped, gaps⟩ := exists_dropWord_append spaces whole found
    rw [dropLastWord, dropped, trimEnd_append_separators o run gaps]
  · have isWord := isWord_of_nextWord? (fun c member => spaces c (List.mem_of_mem_drop member)) found
    have solid := trimEnd_word_ne_nil isWord
    have letters := List.length_pos_iff.2 solid
    have within := (o.trimEnd_prefix run).length_le
    rw [← List.append_assoc, trimEnd_append _ solid, List.length_append, List.length_append]
    omega

theorem trimEnd_run_ne_nil (spaces : ∀ c ∈ text, o.isSpace c = true → o.isSeparator c = true)
    (whole : o.run? (count + 1) text = some run) : o.trimEnd run ≠ [] := by
  rw [run?_succ] at whole
  obtain ⟨shorter, before, onward⟩ := Option.bind_eq_some_iff.1 whole
  obtain ⟨next, found, rfl⟩ := Option.map_eq_some_iff.1 onward
  exact List.ne_nil_of_length_pos (Nat.zero_lt_of_lt (dropLastWord_run spaces before found).2)

/-- Shrinking goes back over the runs of words, each without the separators at its end. -/
theorem shrunk_run (spaces : ∀ c ∈ text, o.isSpace c = true → o.isSeparator c = true)
    (whole : o.run? count text = some run) :
    o.shrunk (o.trimEnd run) =
      ((List.range count).filterMap fun before =>
        (o.run? (before + 1) text).map o.trimEnd).reverse := by
  induction count generalizing run with
  | zero =>
    cases whole
    rw [show o.trimEnd [] = [] from rfl, shrunk, if_pos rfl]
    rfl
  | succ count ih =>
    have longer := whole
    rw [run?_succ] at longer
    obtain ⟨shorter, before, onward⟩ := Option.bind_eq_some_iff.1 longer
    obtain ⟨next, found, rfl⟩ := Option.map_eq_some_iff.1 onward
    obtain ⟨dropped, less⟩ := dropLastWord_run spaces before found
    rw [shrunk, if_neg (trimEnd_run_ne_nil spaces whole), dropped, if_pos less, ih before,
      List.range_succ, List.filterMap_append, List.reverse_append]
    simp [whole]

/-- Some run of words has all words of the text. -/
theorem exists_whole_run (text : List Char)
    (spaces : ∀ c ∈ text, o.isSpace c = true → o.isSeparator c = true) :
    ∃ count run, o.run? count text = some run ∧
      ∀ c ∈ text.drop run.length, o.isSeparator c = true := by
  cases found : o.nextWord? text with
  | none => exact ⟨0, [], rfl, nextWord?_eq_none_iff.1 found⟩
  | some next =>
    have shorter := length_rest_lt_of_nextWord? spaces found
    obtain ⟨count, run, whole, ends⟩ := exists_whole_run next.rest fun c member =>
      spaces c (append_of_nextWord? found ▸ List.mem_append_right _ member)
    refine ⟨count + 1, next.gap ++ next.word ++ run, ?_, ?_⟩
    · rw [run?, found, Option.bind_some, whole]
      rfl
    · rwa [drop_of_nextWord? found]
termination_by text.length

/-- A text is shrunk over all runs of its words. -/
theorem exists_shrunk_eq (spaces : ∀ c ∈ text, o.isSpace c = true → o.isSeparator c = true) :
    ∃ count, o.run? (count + 1) text = none ∧ o.shrunk (o.trimEnd text) =
      ((List.range count).filterMap fun before =>
        (o.run? (before + 1) text).map o.trimEnd).reverse := by
  obtain ⟨count, run, whole, ends⟩ := exists_whole_run text spaces
  refine ⟨count, ?_, ?_⟩
  · rw [run?_succ, whole, Option.bind_some, nextWord?_eq_none_iff.2 ends]
    rfl
  · have split := List.prefix_iff_eq_append.1 (prefix_of_run? whole)
    rw [← split, trimEnd_append_separators o run ends, split, shrunk_run spaces whole]

end Orthography

end Phrasebook
