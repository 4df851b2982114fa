import Phrasebook.Proofs.Alignment
import Phrasebook.Proofs.MatchedBytes

/-! The texts that a pattern without slots and groups matches.

Such a pattern is a text itself. An input matches it if both have the same
characters apart from gaps, and each run of separators fits the spaces that the
pattern has in its place. The runs at both ends of the input always fit.
-/

set_option autoImplicit false

namespace Phrasebook

open Text Part

namespace Part

/-- The parts of a pattern without slots, groups and boundaries. -/
def isLiteral : Part → Bool
  | letter _ | space => true
  | boundary | slot _ | group .. => false

theorem isPlain_of_isLiteral {part : Part} (literal : part.isLiteral = true) :
    part.isPlain = true := by
  cases part with
  | letter c | space => rfl
  | boundary | slot name | group optional alternatives => simp [isLiteral] at literal

theorem mem_writeAll {parts : List Part} {c : Char} :
    c ∈ writeAll parts ↔ ∃ part ∈ parts, c ∈ part.write := by
  induction parts with
  | nil => simp [writeAll]
  | cons part rest ih => simp [writeAll, ih]

/-- Slots, groups and boundaries show in the written form. -/
theorem isLiteral_of_not_mem_writeAll {parts : List Part}
    (unmarked : ∀ mark ∈ ['{', '[', '(', boundaryMark], mark ∉ writeAll parts) :
    ∀ part ∈ parts, part.isLiteral = true := by
  intro part member
  have absent : ∀ mark ∈ ['{', '[', '(', boundaryMark], mark ∉ part.write :=
    fun mark listed written => unmarked mark listed (mem_writeAll.2 ⟨part, member, written⟩)
  cases part with
  | letter c | space => rfl
  | boundary => exact absurd (List.mem_singleton_self _) (absent boundaryMark (by simp))
  | slot name => simp [write] at absent
  | group optional alternatives => cases optional <;> simp [write, opener] at absent

end Part

namespace Matcher

open Orthography

variable {m : Matcher} {language : Language}

/-- The rest of the text from a place on fits a pattern. -/
def AlignedAt (m : Matcher) (parts : List Part) (cursor : Cursor) : Prop :=
  m.orthography.Aligned (cursor.before.head?.all m.orthography.isSeparator)
    (spaced (· == ' ') (writeAll parts)) (spaced m.orthography.isSeparator cursor.rest)

section

variable {skipped : Char → Bool} {cursor : Cursor}

theorem anchored_skip
    (gap : ∀ c ∈ cursor.rest, skipped c = true → m.orthography.isSeparator c = true)
    (start : cursor.rest.head?.any skipped = true ∨
      cursor.before.head?.all m.orthography.isSeparator = true) :
    (cursor.skip skipped).before.head?.all m.orthography.isSeparator = true := by
  simp only [Cursor.skip, List.head?_append, List.head?_reverse]
  cases last : (cursor.rest.takeWhile skipped).getLast? with
  | some c =>
    have member : c ∈ cursor.rest.takeWhile skipped := List.mem_of_getLast? last
    exact gap c (List.takeWhile_subset _ member) (List.mem_takeWhile_imp member)
  | none =>
    rcases start with ahead | behind
    · obtain ⟨c, head, blank⟩ := (Option.any_eq_true _ _).1 ahead
      obtain ⟨rest, whole⟩ := List.head?_eq_some_iff.1 head
      simp [whole, blank] at last
    · exact behind

theorem spaced_skip
    (gap : ∀ c ∈ cursor.rest, skipped c = true → m.orthography.isSeparator c = true) :
    spaced m.orthography.isSeparator cursor.rest =
      (spaced m.orthography.isSeparator (cursor.skip skipped).rest).modifyHead
        (.after (cursor.rest.takeWhile skipped)) := by
  have passed : ∀ c ∈ cursor.rest.takeWhile skipped, m.orthography.isSeparator c = true := by
    intro c member
    exact gap c (List.takeWhile_subset _ member) (List.mem_takeWhile_imp member)
  have split := spaced_append_of_gap passed (cursor.rest.dropWhile skipped)
  rwa [List.takeWhile_append_dropWhile] at split

end

/-- Settling passes a run that begins with punctuation. Such a run fits anything, and
so does the place after it. -/
theorem alignedAt_settle (m : Matcher) (parts : List Part) (cursor : Cursor) :
    m.AlignedAt parts (m.settle cursor) ↔ m.AlignedAt parts cursor := by
  unfold settle
  split
  · next sign =>
    have signs : ∀ c ∈ cursor.rest, m.orthography.isInputPunctuation c = true →
        m.orthography.isSeparator c = true := fun c _ => isSeparator_of_isInputPunctuation
    have gaps : ∀ c ∈ (cursor.skip m.orthography.isInputPunctuation).rest,
        m.orthography.isSeparator c = true → m.orthography.isSeparator c = true :=
      fun c _ separator => separator
    have anchored := anchored_skip gaps (.inr (anchored_skip signs (.inl sign)))
    have runs := spaced_skip signs
    rw [spaced_skip gaps, modifyHead_after] at runs
    unfold AlignedAt
    rw [anchored, runs]
    symm
    -- Before and after the run any spaces of the pattern fit.
    apply aligned_modifyHead_right_iff
    intro first next _ head
    have solid : ∀ c, ((cursor.skip m.orthography.isInputPunctuation).skip
        m.orthography.isSeparator).rest.head? = some c → m.orthography.isSeparator c = false := by
      intro c ahead
      have stop := List.head?_dropWhile_not m.orthography.isSeparator
        (cursor.skip m.orthography.isInputPunctuation).rest
      rw [show (List.dropWhile _ _).head? = some c from ahead] at stop
      simpa using stop
    rw [run_eq_nil_of_head? solid head, List.append_nil]
    obtain ⟨c, ahead, punctuation⟩ := (Option.any_eq_true _ _).1 sign
    obtain ⟨rest, whole⟩ := List.head?_eq_some_iff.1 ahead
    refine ⟨fun _ => fitsAt_true_nil first.run, fun _ => fitsAt_of_punctuation first.run ?_⟩
    simp [whole, punctuation]
  · rfl

section

variable {place : Cursor} {rest : List Part}

theorem alignedAt_nil_iff {cursor : Cursor} :
    m.AlignedAt [] cursor ↔ ∀ c ∈ cursor.rest, m.orthography.isSeparator c = true := by
  rw [AlignedAt, show spaced (· == ' ') (writeAll []) = [] from rfl, aligned_nil_iff,
    spaced_eq_nil_iff]

/-- At a settled place a letter needs its own character right ahead. -/
theorem alignedAt_letter_iff {c : Char} (wanted : c ≠ ' ')
    (kept : m.orthography.isSeparator c = false)
    (settled : place.rest.head?.any m.orthography.isInputPunctuation = false) :
    m.AlignedAt (letter c :: rest) place ↔
      place.rest.head? = some c ∧ m.AlignedAt rest (place.forward 1) := by
  have pattern : spaced (· == ' ') (writeAll (letter c :: rest)) =
      ⟨[], c⟩ :: spaced (· == ' ') (writeAll rest) := by
    rw [writeAll, write, List.singleton_append]
    exact spaced_cons_of_solid (by simpa using wanted) (writeAll rest)
  cases ahead : place.rest with
  | nil => simp [AlignedAt, pattern, ahead, spaced, Aligned]
  | cons d tail =>
    by_cases separator : m.orthography.isSeparator d = true
    · -- A separator that is no punctuation is ahead, and no space is wanted.
      have other : ¬ d = c := by
        rintro rfl
        rw [kept] at separator
        simp at separator
      have misfit : ¬ m.AlignedAt (letter c :: rest) place := by
        rw [AlignedAt, pattern, ahead, spaced_cons_of_gap separator]
        cases spaced m.orthography.isSeparator tail with
        | nil => simp [Aligned]
        | cons next others =>
          rw [List.modifyHead_cons, aligned_cons_iff]
          rintro ⟨-, fits, -⟩
          simp [FitsAt, Fits, Spaced.after, ahead] at fits settled
          simp [settled] at fits
      simp [misfit, other]
    · have solid : m.orthography.isSeparator d = false := by simpa using separator
      have anchored : (place.forward 1).before.head?.all m.orthography.isSeparator = false := by
        simp [Cursor.forward, ahead, solid]
      have next : (place.forward 1).rest = tail := by simp [Cursor.forward, ahead]
      rw [AlignedAt, AlignedAt, pattern, ahead, spaced_cons_of_solid solid, anchored, next,
        aligned_cons_iff]
      simp [fitsAt_nil_nil, eq_comm]

theorem pattern_space :
    spaced (· == ' ') (writeAll (space :: rest)) =
      (spaced (· == ' ') (writeAll rest)).modifyHead (.after [' ']) :=
  spaced_cons_of_gap rfl (writeAll rest)

/-- Passing whitespace for a space. What follows the whitespace fits whatever
the pattern has after its space. -/
theorem alignedAt_space_iff_skip
    (spaces : ∀ c ∈ place.rest, m.orthography.isSpace c = true →
      m.orthography.isSeparator c = true)
    (start : place.rest.head?.any m.orthography.isSpace = true) :
    m.AlignedAt (space :: rest) place ↔ m.AlignedAt rest (place.skip m.orthography.isSpace) := by
  have anchored := anchored_skip spaces (.inl start)
  rw [AlignedAt, AlignedAt, anchored, pattern_space, spaced_skip spaces]
  apply aligned_modifyHead_iff
  intro first next _ head
  have present : place.rest.takeWhile m.orthography.isSpace ≠ [] := by
    obtain ⟨c, ahead, blank⟩ := (Option.any_eq_true _ _).1 start
    obtain ⟨tail, whole⟩ := List.head?_eq_some_iff.1 ahead
    simp [whole, blank]
  have narrow : m.orthography.FitsAt true first.run next.run := by
    by_cases empty : first.run = []
    · -- The next run is empty or begins with a separator that is no whitespace.
      left
      rw [Fits, if_pos empty]
      cases begins : next.run.head? with
      | none => exact .inl (List.head?_eq_none_iff.1 begins)
      | some c =>
        right
        obtain ⟨ahead, separator⟩ := head?_of_head?_run head begins
        have stop := List.head?_dropWhile_not m.orthography.isSpace place.rest
        rw [show (List.dropWhile _ _).head? = some c from ahead] at stop
        exact isInputPunctuation_of_isSeparator separator (by simpa using stop)
    · exact fitsAt_of_anchored empty next.run
  exact ⟨fun _ => narrow, fun _ => fitsAt_of_ne_nil (by simp) (by simp [present])⟩

/-- Passing nothing for a space at a word boundary. -/
theorem alignedAt_space_iff_stay (spacing : m.orthography.hasWordSpacing = true)
    (settled : ∀ c, place.rest.head? = some c → m.orthography.isSeparator c = false) :
    m.AlignedAt (space :: rest) place ↔
      m.orthography.isWordBoundary place = true ∧ m.AlignedAt rest place := by
  cases ahead : place.rest with
  | nil =>
    rw [AlignedAt, AlignedAt, pattern_space, ahead]
    cases spaced (· == ' ') (writeAll rest) <;>
      simp [spaced, Aligned, Orthography.isWordBoundary, ahead]
  | cons d tail =>
    have solid := settled d (by simp [ahead])
    have boundary : m.orthography.isWordBoundary place =
        place.before.head?.all m.orthography.isSeparator := by
      simp [Orthography.isWordBoundary, spacing, ahead, solid]
    rw [AlignedAt, AlignedAt, boundary, pattern_space, ahead, spaced_cons_of_solid solid]
    cases spaced (· == ' ') (writeAll rest) with
    | nil => simp [Aligned]
    | cons first others =>
      rw [List.modifyHead_cons, aligned_cons_iff, aligned_cons_iff]
      cases place.before.head?.all m.orthography.isSeparator with
      | false => simp [Spaced.after, FitsAt, Fits]
      | true =>
        simp [Spaced.after, fitsAt_true_nil]

end

/-- A literal pattern matches from a place on exactly if the rest of the text fits it. -/
theorem isSome_matchParts_iff {parts : List Part}
    (kinds : ∀ part ∈ parts, part.IsCompiled m.orthography)
    (literal : ∀ part ∈ parts, part.isLiteral = true)
    (spelled : m.orthography = .ofLanguage language) {cursor : Cursor}
    (spaces : ∀ c ∈ cursor.rest, m.orthography.isSpace c = true →
      m.orthography.isSeparator c = true) :
    (m.matchParts parts cursor).isSome = true ↔ m.AlignedAt parts cursor := by
  induction parts generalizing cursor with
  | nil =>
    rw [matchParts_nil, ← alignedAt_settle, alignedAt_nil_iff]
    split
    · next all => simpa using List.all_eq_true.1 all
    · next some => simpa using some
  | cons part rest ih =>
    have kind := kinds part (List.mem_cons_self ..)
    have plain := isPlain_of_isCompiled kind
    -- Each part is matched at a settled place, and fits there if it fits at all.
    rw [matchParts_cons m plain, ← alignedAt_settle]
    have settled := m.head?_settle cursor
    have inside : ∀ c ∈ (m.settle cursor).rest, m.orthography.isSpace c = true →
        m.orthography.isSeparator c = true := fun c member =>
      spaces c ((m.settle_suffix cursor).subset member)
    generalize m.settle cursor = place at *
    have later : ∀ next : Cursor, next.rest <:+ place.rest →
        ((m.matchParts rest next).isSome = true ↔ m.AlignedAt rest next) := by
      intro next ahead
      apply ih
      · exact fun other member => kinds other (List.mem_cons_of_mem _ member)
      · exact fun other member => literal other (List.mem_cons_of_mem _ member)
      · exact fun c member => inside c (ahead.subset member)
    cases part with
    | letter c =>
      have kept : m.orthography.isSeparator c = false := by
        rw [spelled] at kind ⊢
        exact not_isSeparator_of_letter language kind.1 kind.2
      have wanted : c ≠ ' ' := by
        rintro rfl
        rw [IsCompiled, isSpace_space] at kind
        simp at kind
      rw [alignedAt_letter_iff wanted kept settled, ← later _ (List.drop_suffix ..), passages]
      split
      · next same => simp [same]
      · next other => simp [other]
    | space =>
      rw [passages]
      split
      · next blank =>
        rw [alignedAt_space_iff_skip inside blank, ← later _ (List.dropWhile_suffix _)]
        simp
      · next solid =>
        -- Neither punctuation nor whitespace is ahead.
        have bare : ∀ c, place.rest.head? = some c → m.orthography.isSeparator c = false := by
          intro c ahead
          rw [← Bool.not_eq_true]
          intro separator
          rw [ahead, Option.any_some] at settled solid
          rw [isInputPunctuation_of_isSeparator separator (by simpa using solid)] at settled
          simp at settled
        rw [alignedAt_space_iff_stay kind bare, ← later _ (List.suffix_refl _)]
        split
        · next boundary => simp [boundary]
        · next inner => simp [inner]
    | boundary | slot name | group optional alternatives =>
      simp [isLiteral] at literal

theorem capture_of_mem_passages {part : Part} (literal : part.isLiteral = true) {cursor : Cursor}
    {passage : Passage} (member : passage ∈ m.passages part cursor) : passage.capture = none := by
  cases part with
  | letter c =>
    rw [passages] at member
    split at member
    · rw [List.mem_singleton.1 member]
    · simp at member
  | space =>
    rw [passages] at member
    split at member
    · rw [List.mem_singleton.1 member]
    · split at member
      · rw [List.mem_singleton.1 member]
      · simp at member
  | boundary | slot name | group optional alternatives => simp [isLiteral] at literal

theorem captures_of_matchParts {parts : List Part}
    (literal : ∀ part ∈ parts, part.isLiteral = true) {cursor : Cursor} {found : Match}
    (matched : m.matchParts parts cursor = some found) : found.captures = [] := by
  induction parts generalizing cursor found with
  | nil =>
    rw [matchParts_nil] at matched
    split at matched
    · cases matched
      rfl
    · simp at matched
  | cons part rest ih =>
    have head := literal part (List.mem_cons_self ..)
    rw [matchParts_cons m (isPlain_of_isLiteral head)] at matched
    obtain ⟨passage, member, eq⟩ := List.exists_of_findSome?_eq_some matched
    obtain ⟨later, tail, rfl⟩ := Option.map_eq_some_iff.1 eq
    have rest := ih (fun other listed => literal other (List.mem_cons_of_mem _ listed)) tail
    rwa [Passage.extend, capture_of_mem_passages head member]

/-- Boundaries only ask for more. -/
theorem isSome_matchParts_filter {parts : List Part}
    (bare : ∀ part ∈ parts, part.isLiteral = true ∨ part = boundary) {cursor : Cursor}
    (matched : (m.matchParts parts cursor).isSome = true) :
    (m.matchParts (parts.filter isLiteral) cursor).isSome = true := by
  induction parts generalizing cursor with
  | nil => exact matched
  | cons part rest ih =>
    have later : ∀ next, (m.matchParts rest next).isSome = true →
        (m.matchParts (rest.filter isLiteral) next).isSome = true := fun _ =>
      ih fun other member => bare other (List.mem_cons_of_mem _ member)
    rcases bare part (List.mem_cons_self ..) with literal | rfl
    · -- A literal part can be passed in the same ways with fewer parts after it.
      have plain := isPlain_of_isLiteral literal
      rw [List.filter_cons, if_pos literal]
      rw [matchParts_cons m plain, List.findSome?_isSome_iff] at matched ⊢
      obtain ⟨passage, member, matched⟩ := matched
      rw [Option.isSome_map] at matched
      refine ⟨passage, member, ?_⟩
      rw [Option.isSome_map]
      exact later passage.next matched
    · rw [List.filter_cons, if_neg (by simp [isLiteral]), ← matchParts_settle]
      apply later
      rw [matchParts_cons m rfl, passages] at matched
      split at matched
      · simpa [Passage.extend_stay] using matched
      · simp at matched

/-- A pattern without slots, groups and boundaries matches a normalized input exactly
if the characters other than gaps are the same and each inner run of separators
fits the spaces of the pattern. -/
theorem matchText_literal_iff (spelled : m.orthography = .ofLanguage language) {phrase : String}
    {pattern : Pattern} (compiled : Template.compile m.orthography phrase = .ok pattern)
    (unmarked : ∀ mark ∈ ['{', '[', '(', boundaryMark], mark ∉ pattern.normalized)
    {options : MatchOptions} {input text : List Char}
    (normalized : m.orthography.normalizeInput options input = text) :
    (m.matchText pattern.parts text).isSome = true ↔
      (text.filter fun c => !m.orthography.isSeparator c) =
          pattern.normalized.filter (fun c => c ≠ ' ') ∧
        List.Forall₂ m.orthography.Fits (innerRuns (· == ' ') pattern.normalized)
          (innerRuns m.orthography.isSeparator text) := by
  have literal := isLiteral_of_not_mem_writeAll unmarked
  have kinds : ∀ part ∈ pattern.parts, part.IsCompiled m.orthography := by
    have plain : ∀ part ∈ pattern.parts, part.isPlain = true :=
      fun part member => isPlain_of_isLiteral (literal part member)
    rw [← leavesOfAll_of_plain plain, spelled]
    rw [spelled] at compiled
    exact Template.forall_leaves_of_compile compiled
  have normal : m.orthography.IsNormal text :=
    normalized ▸ m.orthography.isNormal_normalizeInput options input
  have aligned : (m.matchText pattern.parts text).isSome = true ↔
      m.orthography.Aligned true (spaced (· == ' ') pattern.normalized)
        (spaced m.orthography.isSeparator text) :=
    isSome_matchParts_iff kinds literal spelled (normal.forall_isSeparator spelled)
  have other : (fun c : Char => !(c == ' ')) = fun c => decide (c ≠ ' ') := by
    funext c
    simp [beq_eq_decide]
  rw [aligned, aligned_true_iff normal, map_char_spaced, map_char_spaced, innerRuns, innerRuns,
    other, eq_comm]

/-- Punctuation at both ends, and with spaces beside it. -/
theorem exists_matchText_literal :
    ∃ pattern, Template.compile (.ofLanguage .english) "turn it-on" = .ok pattern ∧
      (∀ mark ∈ ['{', '[', '(', boundaryMark], mark ∉ pattern.normalized) ∧
      (ofLanguage .english).normalizeInput {} "«Turn , it- on»!".toList =
        "«turn , it- on»".toList ∧
      ((Matcher.mk (.ofLanguage .english) (fun _ => none) false).matchText pattern.parts
        "«turn , it- on»".toList).isSome = true := by
  have written : (Template.compile (.ofLanguage .english) "turn it-on").map Pattern.normalized =
      .ok "turn iton".toList := by
    decide +kernel
  have normalized : (ofLanguage .english).normalizeInput {} "«Turn , it- on»!".toList =
      "«turn , it- on»".toList := by
    decide +kernel
  obtain ⟨pattern, compiled, written⟩ := exists_of_map_eq_ok written
  have unmarked : ∀ mark ∈ ['{', '[', '(', boundaryMark], mark ∉ pattern.normalized := by
    have checked : ['{', '[', '(', boundaryMark].all
        (fun mark => !"turn iton".toList.contains mark) = true := by
      decide +kernel
    rw [written]
    simpa using checked
  have wanted : innerRuns (· == ' ') "turn iton".toList =
      [[], [], [], [' '], [], [], []] := by
    decide +kernel
  have found : innerRuns (ofLanguage .english).isSeparator "«turn , it- on»".toList =
      [[], [], [], [' ', ',', ' '], [], ['-', ' '], []] := by
    decide +kernel
  have sign : (ofLanguage .english).isInputPunctuation '-' = true := by decide +kernel
  have spelled : (Matcher.mk (.ofLanguage .english) (fun _ => none) false).orthography =
      .ofLanguage .english := rfl
  refine ⟨pattern, compiled, unmarked, normalized,
    (matchText_literal_iff spelled compiled unmarked normalized).2 ⟨?_, ?_⟩⟩
  · rw [written]
    decide +kernel
  · rw [written, wanted, found]
    simp [Fits, sign]

end Matcher

end Phrasebook
