import Phrasebook.Proofs.Candidates
import Phrasebook.Proofs.Leaves
import Phrasebook.Proofs.NormalText
import Phrasebook.Proofs.Reachable

/-! A match accounts for the whole text.

Letters and captures count the bytes of the characters they pass; separators are
passed everywhere and counted nowhere. So the bytes of a match are those of the
characters of the text that are no separators, whatever pattern has matched.
-/

set_option autoImplicit false

namespace Phrasebook

open Text Part

namespace Orthography

/-- The bytes of the characters that are no separators. -/
def solidBytes (o : Orthography) (text : List Char) : Nat :=
  byteLength (text.filter fun c => !o.isSeparator c)

variable {o : Orthography}

theorem solidBytes_append (first second : List Char) :
    o.solidBytes (first ++ second) = o.solidBytes first + o.solidBytes second := by
  simp [solidBytes]

/-- The solid bytes by the tables of the language. -/
theorem solidBytes_eq (o : Orthography) (text : List Char) :
    o.solidBytes text = byteLength (text.filter fun c =>
      c ∉ o.whitespace ∧ c ∉ o.inputPunctuation ∧ c ∉ o.sentenceEnds) := by
  unfold solidBytes
  congr 1
  refine List.filter_congr fun c _ => ?_
  rw [Bool.eq_iff_iff, Bool.not_eq_true', ← Bool.not_eq_true, isSeparator_iff]
  simp only [not_or, decide_eq_true_eq]

theorem solidBytes_cons_of_solid {c : Char} (solid : o.isSeparator c = false) (rest : List Char) :
    o.solidBytes (c :: rest) = c.utf8Size + o.solidBytes rest := by
  simp [solidBytes, solid]

theorem solidBytes_eq_zero {text : List Char} (gap : ∀ c ∈ text, o.isSeparator c = true) :
    o.solidBytes text = 0 := by
  have none : text.filter (fun c => !o.isSeparator c) = [] := by
    rw [List.filter_eq_nil_iff]
    intro c member
    simp [gap c member]
  rw [solidBytes, none]
  rfl

/-- Passing over separators passes no solid byte. -/
theorem solidBytes_dropWhile {skipped : Char → Bool} {text : List Char}
    (gap : ∀ c ∈ text, skipped c = true → o.isSeparator c = true) :
    o.solidBytes (text.dropWhile skipped) = o.solidBytes text := by
  have passed : o.solidBytes (text.takeWhile skipped) = 0 := by
    refine solidBytes_eq_zero fun c member => gap c ?_ ?_
    · exact (List.takeWhile_subset _) member
    · exact List.mem_takeWhile_imp member
  have split := solidBytes_append (o := o) (text.takeWhile skipped) (text.dropWhile skipped)
  rw [List.takeWhile_append_dropWhile, passed] at split
  omega

/-- Where all blanks are separators, a value counts its solid bytes. -/
theorem significantLength_trimEnd {text : List Char}
    (spaces : ∀ c ∈ text, o.isSpace c = true → o.isSeparator c = true) :
    o.significantLength (o.trimEnd text) = o.solidBytes text := by
  obtain ⟨dropped, whole, gap⟩ := o.exists_trimEnd_append text
  have plain : o.significantLength (o.trimEnd text) = o.solidBytes (o.trimEnd text) := by
    unfold significantLength solidBytes
    congr 1
    refine List.filter_congr fun c member => ?_
    by_cases blank : isBlank c = true
    · have inside : c ∈ text := whole ▸ List.mem_append_left _ member
      simp [spaces c inside ((o.isSpace_iff c).2 (.inr blank))]
    · simp [blank]
  have split := solidBytes_append (o := o) (o.trimEnd text) dropped
  rw [whole, solidBytes_eq_zero gap] at split
  omega

end Orthography

namespace Matcher

open Orthography

variable {m : Matcher} {language : Language}

theorem solidBytes_settle (m : Matcher) (cursor : Cursor) :
    m.orthography.solidBytes (m.settle cursor).rest = m.orthography.solidBytes cursor.rest := by
  unfold settle
  split
  · simp only [Cursor.skip]
    rw [solidBytes_dropWhile fun c _ separator => separator,
      solidBytes_dropWhile fun c _ sign => isSeparator_of_isInputPunctuation sign]
  · rfl

theorem settle_suffix (m : Matcher) (cursor : Cursor) : (m.settle cursor).rest <:+ cursor.rest := by
  unfold settle
  split
  · exact (List.dropWhile_suffix _).trans (List.dropWhile_suffix _)
  · exact List.suffix_refl _

theorem passage_of_mem_captures {name : List Char} {cursor : Cursor} {passage : Passage}
    (member : passage ∈ m.captures name cursor) :
    ∃ taken after, cursor.rest.dropWhile m.orthography.isSeparator = taken ++ after ∧
      passage.next.rest = after ∧
      passage.bytes = m.orthography.significantLength (m.orthography.trimEnd taken) := by
  obtain ⟨taken, tried, captured⟩ := List.mem_filterMap.1 member
  obtain ⟨value, _, rfl⟩ := Option.map_eq_some_iff.1 captured
  obtain ⟨after, whole⟩ := prefix_of_mem_candidates tried
  refine ⟨taken, after, whole.symm, ?_, rfl⟩
  simp only [Cursor.forward]
  rw [← whole, List.drop_left]

/-- Whatever way a part takes, the bytes it adds are the solid bytes it passes. -/
theorem solidBytes_passage {part : Part} {cursor : Cursor} {passage : Passage}
    (spelled : m.orthography = .ofLanguage language) (kind : part.IsCompiled m.orthography)
    (spaces : ∀ c ∈ cursor.rest, m.orthography.isSpace c = true →
      m.orthography.isSeparator c = true)
    (member : passage ∈ m.passages part cursor) :
    m.orthography.solidBytes cursor.rest =
        passage.bytes + m.orthography.solidBytes passage.next.rest ∧
      passage.next.rest <:+ cursor.rest := by
  cases part with
  | letter c =>
    simp only [passages] at member
    split at member
    · next head =>
      obtain ⟨tail, ahead⟩ := List.head?_eq_some_iff.1 head
      rw [List.mem_singleton.1 member]
      simp only [Cursor.forward, ahead, List.drop_one, List.tail_cons]
      refine ⟨solidBytes_cons_of_solid ?_ tail, List.suffix_cons c tail⟩
      rw [spelled] at kind ⊢
      exact not_isSeparator_of_letter language kind.1 kind.2
    · simp at member
  | space =>
    simp only [passages] at member
    split at member
    · rw [List.mem_singleton.1 member]
      refine ⟨?_, List.dropWhile_suffix _⟩
      rw [Nat.zero_add]
      exact (solidBytes_dropWhile spaces).symm
    · split at member
      · rw [List.mem_singleton.1 member]
        exact ⟨(Nat.zero_add _).symm, List.suffix_refl _⟩
      · simp at member
  | boundary =>
    simp only [passages] at member
    split at member
    · rw [List.mem_singleton.1 member]
      exact ⟨(Nat.zero_add _).symm, List.suffix_refl _⟩
    · simp at member
  | slot name =>
    simp only [passages] at member
    rcases List.mem_append.1 member with captured | absent
    · obtain ⟨taken, after, whole, next, bytes⟩ := passage_of_mem_captures captured
      -- The separators before the value count nothing, nor do those at its end.
      have ahead : taken ++ after <:+ cursor.rest := whole ▸ List.dropWhile_suffix _
      have inside : ∀ c ∈ taken, m.orthography.isSpace c = true →
          m.orthography.isSeparator c = true := fun c member =>
        spaces c (ahead.subset (List.mem_append_left _ member))
      refine ⟨?_, next ▸ (List.suffix_append ..).trans ahead⟩
      rw [bytes, next, significantLength_trimEnd inside, ← solidBytes_append, ← whole]
      exact (solidBytes_dropWhile fun c _ separator => separator).symm
    · split at absent
      · rw [List.mem_singleton.1 absent]
        exact ⟨(Nat.zero_add _).symm, List.suffix_refl _⟩
      · simp at absent
  | group optional alternatives => simp [passages] at member

/-- Without groups: the parts of a match add up to the solid bytes of the text. -/
theorem bytes_of_leaves (spelled : m.orthography = .ofLanguage language) {parts : List Part}
    (kinds : ∀ part ∈ parts, part.IsCompiled m.orthography) {cursor : Cursor}
    (spaces : ∀ c ∈ cursor.rest, m.orthography.isSpace c = true →
      m.orthography.isSeparator c = true)
    {found : Match} (matched : m.matchParts parts cursor = some found) :
    found.bytes = m.orthography.solidBytes cursor.rest := by
  induction parts generalizing cursor found with
  | nil =>
    rw [matchParts_nil] at matched
    split at matched
    · next gap =>
      cases matched
      rw [← solidBytes_settle, solidBytes_eq_zero (List.all_eq_true.1 gap)]
      rfl
    · simp at matched
  | cons part rest ih =>
    have kind := kinds part (List.mem_cons_self ..)
    rw [matchParts_cons m (isPlain_of_isCompiled kind)] at matched
    obtain ⟨passage, member, eq⟩ := List.exists_of_findSome?_eq_some matched
    obtain ⟨later, tail, rfl⟩ := Option.map_eq_some_iff.1 eq
    have settled : ∀ c ∈ (m.settle cursor).rest, m.orthography.isSpace c = true →
        m.orthography.isSeparator c = true := fun c inside =>
      spaces c ((m.settle_suffix cursor).subset inside)
    obtain ⟨passed, suffix⟩ := solidBytes_passage spelled kind settled member
    have counted := ih (fun other listed => kinds other (List.mem_cons_of_mem _ listed))
      (fun c inside => settled c (suffix.subset inside)) tail
    -- Settling, the passage and the rest each account for what they pass.
    calc (passage.extend later).bytes
        = later.bytes + passage.bytes := passage.bytes_extend later
      _ = m.orthography.solidBytes (m.settle cursor).rest := by rw [counted, passed, Nat.add_comm]
      _ = m.orthography.solidBytes cursor.rest := m.solidBytes_settle cursor

theorem bytes_of_compile (spelled : m.orthography = .ofLanguage language) {phrase : String}
    {pattern : Pattern} (compiled : Template.compile m.orthography phrase = .ok pattern)
    {text : List Char} (normal : m.orthography.IsNormal text) {found : Match}
    (matched : m.matchText pattern.parts text = some found) :
    found.bytes = m.orthography.solidBytes text := by
  -- Groups are expanded away, so only leaves are left to count.
  obtain ⟨expansion, expanded, eq⟩ := exists_isExpansion pattern.parts matched
  have kinds : ∀ part ∈ expansion, part.IsCompiled m.orthography := fun part member => by
    rw [spelled] at compiled ⊢
    exact Template.forall_leaves_of_compile compiled part (expanded.subset_leaves member)
  exact bytes_of_leaves spelled kinds (normal.forall_isSeparator spelled) eq

end Matcher

namespace Model

/-- Every result for an input has the bytes of the characters of the normalized
input that are in none of the tables of separators. -/
theorem bytesMatched_of_mem_findMatches {model : Model} (reachable : Reachable model)
    {input : String} {result : MatchResult} (member : result ∈ model.findMatches input) :
    result.bytesMatched =
      byteLength ((model.normalize input).filter fun c =>
        c ∉ model.orthography.whitespace ∧ c ∉ model.orthography.inputPunctuation ∧
          c ∉ model.orthography.sentenceEnds) := by
  obtain ⟨language, spelled⟩ := reachable.exists_language
  obtain ⟨intent, listed, pattern, present, found, matched, rfl⟩ :=
    exists_of_mem_findMatches member
  have compiled := reachable.compile_eq intent listed pattern present
  have normal := model.orthography.isNormal_normalizeInput model.options input.toList
  rw [← Orthography.solidBytes_eq]
  exact Matcher.bytes_of_compile (m := model.matcher) spelled compiled normal matched

/-- A group, an optional word, a slot, punctuation and capitals in one match. -/
theorem exists_bytesMatched_lights :
    ∃ model result,
      (new "en-US" .empty).addIntent "on" ["turn (on|off) [the] {device}, please!"] = .ok model ∧
      result ∈ model.findMatches "Turn ON, the kitchen-light please?" ∧
      result.bytesMatched = 27 ∧
      result.bytesMatched =
        byteLength ((model.normalize "Turn ON, the kitchen-light please?").filter fun c =>
          c ∉ model.orthography.whitespace ∧ c ∉ model.orthography.inputPunctuation ∧
            c ∉ model.orthography.sentenceEnds) := by
  have found :
      ((new "en-US" .empty).addIntent "on" ["turn (on|off) [the] {device}, please!"]).map
        (fun model =>
          (model.findMatches "Turn ON, the kitchen-light please?").map (·.bytesMatched)) =
        .ok [27] := by
    decide +kernel
  obtain ⟨model, added, results⟩ := exists_of_map_eq_ok found
  obtain ⟨result, member, bytes⟩ := List.mem_map.1 (results ▸ List.mem_singleton_self 27)
  exact ⟨model, result, added, member, bytes,
    bytesMatched_of_mem_findMatches (.addIntent (.new ..) added) member⟩

end Model

end Phrasebook
