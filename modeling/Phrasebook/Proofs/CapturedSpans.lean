import Mathlib.Data.List.Infix
import Phrasebook.Proofs.Candidates
import Phrasebook.Proofs.Reachable
import Phrasebook.Proofs.SlotNames

/-! Where captured values come from.

Each captured slot of a match takes a span of the text. The spans follow each
other as the slots do, they begin and end with a character of a word, and the
value under a name is what the entity makes of the last span of that name.
-/

set_option autoImplicit false

namespace Phrasebook

open Text Part

namespace Orthography

variable {o : Orthography}

/-- A word of a prefix ends where the word of the text does, or with the prefix. -/
theorem drop_wordFrom (o : Orthography) (c : Char) (rest after : List Char) :
    (c :: rest).drop (o.wordFrom c rest).length =
      (c :: rest).drop (o.wordFrom c (rest ++ after)).length := by
  unfold wordFrom
  split
  · rw [← List.cons_append, List.takeWhile_append]
    split
    · next all =>
      rw [all, List.drop_eq_nil_of_le (Nat.le_refl _), List.drop_eq_nil_of_le (by simp)]
    · rfl
  · rfl

theorem rest_of_nextWord?_prefix {text start : List Char} {next found : NextWord}
    (whole : o.nextWord? text = some next) (included : start <+: text)
    (partly : o.nextWord? start = some found) :
    found.rest = start.drop (next.gap ++ next.word).length := by
  obtain ⟨after, rfl⟩ := included
  unfold nextWord? at whole partly
  have split := List.takeWhile_append_dropWhile (p := o.isSeparator) (l := start)
  cases ahead : start.dropWhile o.isSeparator with
  | nil => simp [ahead] at partly
  | cons c rest =>
    rw [ahead] at split
    have shorter : (start.takeWhile o.isSeparator).length ≠ start.length := by
      intro same
      have lengths := congrArg List.length split
      simp [same] at lengths
    rw [List.dropWhile_append, List.takeWhile_append, if_neg shorter, ahead] at whole
    rw [ahead] at partly
    have passed : start.drop (start.takeWhile o.isSeparator).length = c :: rest := by
      have tail : (start.takeWhile o.isSeparator ++ c :: rest).drop
          (start.takeWhile o.isSeparator).length = c :: rest := List.drop_left
      rwa [split] at tail
    cases partly
    cases whole
    rw [List.length_append, ← List.drop_drop, passed]
    exact o.drop_wordFrom c rest after

/-- With limited greed a slot takes no more words than that. -/
theorem countWords_le_of_mem_grown {limit : Nat} {text taken start : List Char}
    (member : taken ∈ o.grown limit text) (included : start <+: taken) :
    o.countWords start ≤ limit := by
  induction limit generalizing text taken start with
  | zero => simp [grown] at member
  | succ limit ih =>
    have ahead := included.trans (prefix_of_mem_grown member)
    unfold grown at member
    split at member
    · simp at member
    · next next whole =>
      rw [countWords, wordsOf]
      split
      · simp
      · next found partly =>
        split
        · have left := rest_of_nextWord?_prefix whole ahead partly
          rw [List.length_cons, Nat.add_le_add_iff_right]
          -- After its first word the text is a prefix of what was taken after it.
          rcases List.mem_cons.1 member with rfl | longer
          · rw [left, List.drop_eq_nil_of_le included.length_le]
            simp [wordsOf, nextWord?]
          · obtain ⟨further, inside, rfl⟩ := List.mem_map.1 longer
            apply ih inside
            have tail := List.IsPrefix.drop included (next.gap ++ next.word).length
            rwa [List.drop_left, ← left] at tail
        · simp

end Orthography

namespace Captures

variable {captures : Captures} {name key : String} {value added : EntityValue}

theorem isSome_get?_iff : (captures.get? name).isSome = true ↔ ∃ value, (name, value) ∈ captures := by
  simp [get?]

theorem mem_addIfNew_iff :
    (key, value) ∈ captures.addIfNew name added ↔
      (key, value) ∈ captures ∨
        (key = name ∧ value = added ∧ ∀ other, (name, other) ∉ captures) := by
  unfold addIfNew
  by_cases present : (captures.get? name).isSome = true
  · rw [if_pos present]
    obtain ⟨other, listed⟩ := isSome_get?_iff.1 present
    simp only [iff_self_or]
    rintro ⟨-, -, absent⟩
    exact absurd listed (absent other)
  · rw [if_neg present]
    have absent : ∀ other, (name, other) ∉ captures :=
      fun other listed => present (isSome_get?_iff.2 ⟨other, listed⟩)
    simp only [List.mem_cons, Prod.mk.injEq]
    constructor
    · rintro (⟨rfl, rfl⟩ | listed)
      · exact .inr ⟨rfl, rfl, absent⟩
      · exact .inl listed
    · rintro (listed | ⟨rfl, rfl, -⟩)
      · exact .inr listed
      · exact .inl ⟨rfl, rfl⟩

theorem exists_mem_addIfNew : ∃ found, (name, found) ∈ captures.addIfNew name added := by
  by_cases present : ∃ other, (name, other) ∈ captures
  · obtain ⟨other, listed⟩ := present
    exact ⟨other, mem_addIfNew_iff.2 (.inl listed)⟩
  · exact ⟨added, mem_addIfNew_iff.2 (.inr ⟨rfl, rfl, not_exists.1 present⟩)⟩

theorem nodup_addIfNew (nodup : (captures.map Prod.fst).Nodup) :
    ((captures.addIfNew name added).map Prod.fst).Nodup := by
  unfold addIfNew
  split
  · exact nodup
  · next absent =>
    rw [List.map_cons, List.nodup_cons]
    refine ⟨fun listed => absent ?_, nodup⟩
    obtain ⟨⟨_, other⟩, member, rfl⟩ := List.mem_map.1 listed
    exact isSome_get?_iff.2 ⟨other, member⟩

end Captures

/-- A piece of a text that a slot has captured, and the byte at which it starts. -/
structure CapturedSpan where
  slot : List Char
  start : Nat
  text : List Char
  deriving Repr, DecidableEq

namespace CapturedSpan

def stop (span : CapturedSpan) : Nat := span.start + byteLength span.text

/-- The piece stands in a text where it starts. -/
def IsIn (span : CapturedSpan) (text : List Char) : Prop :=
  ∃ before after, text = before ++ span.text ++ after ∧ byteLength before = span.start

/-- The last span of a name. -/
def last? (spans : List CapturedSpan) (name : String) : Option CapturedSpan :=
  spans.reverse.find? fun span => String.ofList span.slot == name

theorem last?_cons (span : CapturedSpan) (spans : List CapturedSpan) (name : String) :
    last? (span :: spans) name =
      (last? spans name).or (if String.ofList span.slot = name then some span else none) := by
  unfold last?
  rw [List.reverse_cons, List.find?_append, List.find?_singleton]
  simp

end CapturedSpan

namespace Cursor

theorem offset_skip (cursor : Cursor) (skipped : Char → Bool) :
    (cursor.skip skipped).offset =
      cursor.offset + byteLength (cursor.rest.takeWhile skipped) := by
  simp [skip, offset, Nat.add_comm]

theorem offset_forward (cursor : Cursor) (count : Nat) :
    (cursor.forward count).offset = cursor.offset + byteLength (cursor.rest.take count) := by
  simp [forward, offset, Nat.add_comm]

end Cursor

namespace Matcher

/-- What a slot may capture, and the value that it takes from it. -/
structure Captured (m : Matcher) (span : CapturedSpan) (value : EntityValue) : Prop where
  head : ∃ c rest, span.text = c :: rest ∧ m.orthography.isSeparator c = false
  last : ∃ front c, span.text = front ++ [c] ∧ m.orthography.isSeparator c = false
  words : 0 < (m.entityOf span.slot).greed →
    m.orthography.countWords span.text ≤ (m.entityOf span.slot).greed
  parsed : ∃ parsed, (m.entityOf span.slot).value? span.text = some parsed ∧
    value.value = String.ofList (if m.respaces then FrenchSpacing.restore parsed else parsed)
  kind : value.type = ((m.entity? (slotClass span.slot)).map Entity.type).getD .any

/-- Spans of a text that account for the captures of a match. -/
structure Accounts (m : Matcher) (parts : List Part) (text : List Char) (captures : Captures)
    (spans : List CapturedSpan) : Prop where
  slots : (spans.map CapturedSpan.slot).Sublist (slotNamesOfAll parts)
  inText : ∀ span ∈ spans, span.IsIn text
  apart : spans.Pairwise fun first second => first.stop ≤ second.start
  captured : ∀ span ∈ spans, ∃ value, m.Captured span value
  keys : (captures.map Prod.fst).Nodup
  values : ∀ name value, (name, value) ∈ captures ↔
    ∃ span, CapturedSpan.last? spans name = some span ∧ m.Captured span value
  /-- Only a slot that may be passed over can be missing. -/
  present : ∀ name, slot name ∈ parts →
    ((m.entityOf name).greed = 0 ∨ (m.entityOf name).isRequired = true) →
    ∃ value, (String.ofList name, value) ∈ captures

variable {m : Matcher}

theorem Captured.unique {span : CapturedSpan} {first second : EntityValue}
    (one : m.Captured span first) (other : m.Captured span second) : first = second := by
  obtain ⟨parsed, eq, written⟩ := one.parsed
  obtain ⟨again, same, rewritten⟩ := other.parsed
  cases eq.symm.trans same
  obtain ⟨value, type⟩ := first
  obtain ⟨value', type'⟩ := second
  simp only [EntityValue.mk.injEq]
  exact ⟨written.trans rewritten.symm, one.kind.trans other.kind.symm⟩

theorem type_entityOf (m : Matcher) (name : List Char) :
    (m.entityOf name).type = ((m.entity? (slotClass name)).map Entity.type).getD .any := by
  unfold entityOf
  cases m.entity? (slotClass name) <;> rfl

/-- What comes of a capture, where its value starts with a character of a word. -/
theorem captured_of_capture? {name taken text : List Char} {value : EntityValue} {offset : Nat}
    (tried : taken ∈ m.candidates (m.entityOf name) text)
    (solid : ∀ c, text.head? = some c → m.orthography.isSeparator c = false)
    (took : m.capture? (m.entityOf name) taken = some value) :
    m.Captured ⟨name, offset, m.orthography.trimEnd taken⟩ value := by
  unfold capture? at took
  split at took
  · simp at took
  · next nonempty =>
    obtain ⟨parsed, eq, rfl⟩ := Option.map_eq_some_iff.1 took
    obtain ⟨c, rest, front⟩ := List.exists_cons_of_ne_nil nonempty
    refine ⟨⟨c, rest, front, ?_⟩, ?_, fun limited => ?_, ⟨parsed, eq, rfl⟩, m.type_entityOf name⟩
    · obtain ⟨after, whole⟩ :=
        (m.orthography.trimEnd_prefix taken).trans (prefix_of_mem_candidates tried)
      apply solid
      rw [← whole, front]
      rfl
    · -- Trimming has stopped at the last character.
      have stopped := List.head?_dropWhile_not m.orthography.isSeparator taken.reverse
      cases back : taken.reverse.dropWhile m.orthography.isSeparator with
      | nil => simp [Orthography.trimEnd, back] at nonempty
      | cons d before =>
        rw [back] at stopped
        exact ⟨before.reverse, d, by simp [Orthography.trimEnd, back], by simpa using stopped⟩
    · unfold candidates at tried
      rw [if_pos limited] at tried
      exact Orthography.countWords_le_of_mem_grown tried (m.orthography.trimEnd_prefix taken)

theorem exists_captured {name : List Char} {cursor : Cursor} {passage : Passage}
    (member : passage ∈ m.captures name cursor) :
    ∃ span value, span.slot = name ∧ passage.capture = some (String.ofList name, value) ∧
      m.Captured span value ∧ span.IsIn cursor.text ∧ cursor.offset ≤ span.start ∧
      span.stop ≤ passage.next.offset := by
  obtain ⟨taken, tried, captured⟩ := List.mem_filterMap.1 member
  obtain ⟨value, took, rfl⟩ := Option.map_eq_some_iff.1 captured
  obtain ⟨after, whole⟩ := prefix_of_mem_candidates tried
  obtain ⟨dropped, trimmed, -⟩ := m.orthography.exists_trimEnd_append taken
  have solid : ∀ c, (cursor.skip m.orthography.isSeparator).rest.head? = some c →
      m.orthography.isSeparator c = false := by
    intro c head
    have stopped := List.head?_dropWhile_not m.orthography.isSeparator cursor.rest
    rw [show (List.dropWhile _ _).head? = some c from head] at stopped
    exact stopped
  refine ⟨⟨name, (cursor.skip m.orthography.isSeparator).offset, m.orthography.trimEnd taken⟩,
    value, rfl, rfl, captured_of_capture? tried solid took, ?_, ?_, ?_⟩
  · refine ⟨(cursor.skip m.orthography.isSeparator).before.reverse, dropped ++ after, ?_,
      byteLength_reverse _⟩
    rw [← cursor.text_skip m.orthography.isSeparator, Cursor.text, ← whole, List.append_assoc,
      ← List.append_assoc (m.orthography.trimEnd taken), trimmed]
  · rw [Cursor.offset_skip]
    exact Nat.le_add_right ..
  · have lengths := congrArg byteLength trimmed
    rw [byteLength_append] at lengths
    simp only [CapturedSpan.stop, Cursor.offset_forward, ← whole, List.take_left]
    omega

theorem offset_settle (m : Matcher) (cursor : Cursor) :
    cursor.offset ≤ (m.settle cursor).offset := by
  unfold settle
  split
  · rw [Cursor.offset_skip, Cursor.offset_skip]
    omega
  · exact Nat.le_refl _

theorem text_settle (m : Matcher) (cursor : Cursor) : (m.settle cursor).text = cursor.text := by
  unfold settle
  split <;> simp

/-- A passage stays in the text and never goes back. -/
theorem passage_goes_on {part : Part} {cursor : Cursor} {passage : Passage}
    (member : passage ∈ m.passages part cursor) :
    passage.next.text = cursor.text ∧ cursor.offset ≤ passage.next.offset := by
  cases part with
  | letter c =>
    simp only [passages] at member
    split at member
    · rw [List.mem_singleton.1 member]
      exact ⟨cursor.text_forward 1, by rw [Cursor.offset_forward]; exact Nat.le_add_right ..⟩
    · simp at member
  | space =>
    simp only [passages] at member
    split at member
    · rw [List.mem_singleton.1 member]
      exact ⟨cursor.text_skip _, by rw [Cursor.offset_skip]; exact Nat.le_add_right ..⟩
    · split at member
      · rw [List.mem_singleton.1 member]
        exact ⟨rfl, Nat.le_refl _⟩
      · simp at member
  | boundary =>
    simp only [passages] at member
    split at member
    · rw [List.mem_singleton.1 member]
      exact ⟨rfl, Nat.le_refl _⟩
    · simp at member
  | slot name =>
    simp only [passages] at member
    rcases List.mem_append.1 member with captured | absent
    · obtain ⟨taken, -, captured⟩ := List.mem_filterMap.1 captured
      obtain ⟨value, -, rfl⟩ := Option.map_eq_some_iff.1 captured
      simp only [Cursor.text_forward, Cursor.text_skip, Cursor.offset_forward, Cursor.offset_skip,
        Nat.add_assoc, Nat.le_add_right, and_self]
    · split at absent
      · rw [List.mem_singleton.1 absent]
        exact ⟨rfl, Nat.le_refl _⟩
      · simp at absent
  | group optional alternatives => simp [passages] at member

/-- A passage captures nothing unless it is one of the captures of a slot. -/
theorem passage_captures {part : Part} {cursor : Cursor} {passage : Passage}
    (member : passage ∈ m.passages part cursor) :
    (∃ name, part = slot name ∧ passage ∈ m.captures name cursor) ∨
      passage.capture = none ∧ ∀ name, part = slot name →
        ¬((m.entityOf name).greed = 0 ∨ (m.entityOf name).isRequired = true) := by
  cases part with
  | slot name =>
    simp only [passages] at member
    rcases List.mem_append.1 member with captured | absent
    · exact .inl ⟨name, rfl, captured⟩
    · right
      split at absent
      · next passable =>
        simp only [Bool.and_eq_true, decide_eq_true_eq, Bool.not_eq_true'] at passable
        rw [List.mem_singleton.1 absent]
        refine ⟨rfl, fun other eq => ?_⟩
        cases eq
        simp [passable.2]
        omega
      · simp at absent
  | letter c | space | boundary =>
    right
    simp only [passages] at member
    refine ⟨?_, by simp⟩
    repeat' split at member
    all_goals simp at member; try rw [member]
  | group optional alternatives => simp [passages] at member

section

variable {rest : List Part} {text : List Char} {captures : Captures} {spans : List CapturedSpan}

theorem Accounts.pass {part : Part} (accounts : m.Accounts rest text captures spans)
    (passable : ∀ name, part = slot name →
      ¬((m.entityOf name).greed = 0 ∨ (m.entityOf name).isRequired = true)) :
    m.Accounts (part :: rest) text captures spans := by
  refine { accounts with
    slots := accounts.slots.trans (List.sublist_append_right ..)
    present := fun name member needed => ?_ }
  rcases List.mem_cons.1 member with same | later
  · exact absurd needed (passable name same.symm)
  · exact accounts.present name later needed

/-- The value under a name is that of its last span. -/
theorem Accounts.values_capture {span : CapturedSpan} {value : EntityValue}
    (accounts : m.Accounts rest text captures spans) (captured : m.Captured span value)
    (name : String) (found : EntityValue) :
    (name, found) ∈ captures.addIfNew (String.ofList span.slot) value ↔
      ∃ last, CapturedSpan.last? (span :: spans) name = some last ∧ m.Captured last found := by
  rw [Captures.mem_addIfNew_iff, accounts.values, CapturedSpan.last?_cons]
  cases later : CapturedSpan.last? spans name with
  | some last =>
    rw [Option.some_or, or_iff_left]
    rintro ⟨rfl, -, absent⟩
    -- The later span has its value already.
    have listed : last ∈ spans := List.mem_reverse.1 (List.mem_of_find?_eq_some later)
    obtain ⟨other, has⟩ := accounts.captured last listed
    exact absent other ((accounts.values _ _).2 ⟨last, later, has⟩)
  | none =>
    rw [Option.none_or]
    constructor
    · rintro (⟨_, impossible, -⟩ | ⟨rfl, rfl, -⟩)
      · simp at impossible
      · exact ⟨span, if_pos rfl, captured⟩
    · rintro ⟨last, this, has⟩
      split at this
      · next same =>
        cases this
        cases same
        refine .inr ⟨rfl, has.unique captured, fun other listed => ?_⟩
        obtain ⟨earlier, eq, -⟩ := (accounts.values _ _).1 listed
        simp [later] at eq
      · simp at this

theorem Accounts.capture {span : CapturedSpan} {value : EntityValue}
    (accounts : m.Accounts rest text captures spans) (captured : m.Captured span value)
    (inside : span.IsIn text) (before : ∀ later ∈ spans, span.stop ≤ later.start) :
    m.Accounts (slot span.slot :: rest) text
      (captures.addIfNew (String.ofList span.slot) value) (span :: spans) where
  slots := by
    rw [List.map_cons, slotNamesOfAll, slotNames]
    exact accounts.slots.cons_cons _
  inText := List.forall_mem_cons.2 ⟨inside, accounts.inText⟩
  apart := List.pairwise_cons.2 ⟨before, accounts.apart⟩
  captured := List.forall_mem_cons.2 ⟨⟨value, captured⟩, accounts.captured⟩
  keys := Captures.nodup_addIfNew accounts.keys
  values := accounts.values_capture captured
  present name member needed := by
    rcases List.mem_cons.1 member with same | later
    · cases same
      exact Captures.exists_mem_addIfNew
    · obtain ⟨other, listed⟩ := accounts.present name later needed
      exact ⟨other, Captures.mem_addIfNew_iff.2 (.inl listed)⟩

end

/-- Without groups: the captures of a match have their spans ahead of the place where
it starts. -/
theorem exists_accounts_of_plain {parts : List Part} {cursor : Cursor} {found : Match}
    (plain : ∀ part ∈ parts, part.isPlain = true)
    (matched : m.matchParts parts cursor = some found) :
    ∃ spans, m.Accounts parts cursor.text found.captures spans ∧
      ∀ span ∈ spans, cursor.offset ≤ span.start := by
  -- Spans of the rest start where the passage before it has ended, or later.
  induction parts generalizing cursor found with
  | nil =>
    rw [matchParts_nil] at matched
    split at matched
    · cases matched
      exact ⟨[], ⟨by simp, by simp, by simp, by simp, by simp [Match.empty],
        by simp [Match.empty, CapturedSpan.last?], by simp⟩, by simp⟩
    · simp at matched
  | cons part rest ih =>
    have others := fun other member => plain other (List.mem_cons_of_mem _ member)
    rw [matchParts_cons m (plain part (List.mem_cons_self ..))] at matched
    obtain ⟨passage, member, eq⟩ := List.exists_of_findSome?_eq_some matched
    obtain ⟨further, tail, rfl⟩ := Option.map_eq_some_iff.1 eq
    obtain ⟨spans, accounts, ahead⟩ := ih others tail
    obtain ⟨same, onward⟩ := passage_goes_on member
    have start := m.offset_settle cursor
    rw [same, text_settle] at accounts
    rcases passage_captures member with ⟨name, rfl, captured⟩ | ⟨nothing, passable⟩
    · obtain ⟨span, value, rfl, capture, takes, inside, starts, stops⟩ := exists_captured captured
      rw [text_settle] at inside
      refine ⟨span :: spans, ?_, List.forall_mem_cons.2 ⟨Nat.le_trans start starts, ?_⟩⟩
      · rw [Passage.extend, capture]
        exact accounts.capture takes inside fun later member =>
          Nat.le_trans stops (ahead later member)
      · intro later member
        have := ahead later member
        omega
    · refine ⟨spans, ?_, fun span member => ?_⟩
      · rw [Passage.extend, nothing]
        exact accounts.pass passable
      · have := ahead span member
        omega

theorem Accounts.of_isExpansion {parts expansion : List Part} {text : List Char}
    {captures : Captures} {spans : List CapturedSpan} (expanded : IsExpansion parts expansion)
    (accounts : m.Accounts expansion text captures spans) :
    m.Accounts parts text captures spans :=
  { accounts with
    slots := accounts.slots.trans expanded.slotNames_sublist
    present := fun name member => accounts.present name (expanded.mem_of_plain rfl member) }

/-- Every match has spans that account for its captures. -/
theorem exists_accounts {parts : List Part} {text : List Char} {found : Match}
    (matched : m.matchText parts text = some found) :
    ∃ spans, m.Accounts parts text found.captures spans := by
  obtain ⟨expansion, expanded, same⟩ := exists_isExpansion parts matched
  obtain ⟨spans, accounts, -⟩ := exists_accounts_of_plain expanded.2 same
  exact ⟨spans, accounts.of_isExpansion expanded⟩

theorem Accounts.mem_slotNames {pattern : Pattern} {text : List Char} {captures : Captures}
    {spans : List CapturedSpan} (accounts : m.Accounts pattern.parts text captures spans)
    {name : String} {value : EntityValue} (listed : (name, value) ∈ captures) :
    ∃ slot ∈ pattern.slotNames, name = String.ofList slot := by
  obtain ⟨span, last, -⟩ := (accounts.values name value).1 listed
  have member : span ∈ spans := List.mem_reverse.1 (List.mem_of_find?_eq_some last)
  have named := List.find?_some last
  refine ⟨span.slot, ?_, (beq_iff_eq.1 named).symm⟩
  rw [Pattern.slotNames_eq_eraseDups]
  exact List.mem_eraseDups.2 (accounts.slots.subset (List.mem_map_of_mem member))

end Matcher

namespace Model

/-- The captures of a result are those of its pattern's slots, each with the value and
the type of the last span of its name. -/
theorem captures_of_mem_findMatches {model : Model} (reachable : Reachable model)
    {input : String} {result : MatchResult} (member : result ∈ model.findMatches input) :
    (model.matcher.respaces = true ↔
      model.orthography.language = .french ∧ model.options.normalizeFrenchSpacing = true) ∧
    ∃ pattern, Template.compile model.orthography result.pattern = .ok pattern ∧
      (∀ name value, (name, value) ∈ result.entities →
        ∃ slot ∈ pattern.slotNames, name = String.ofList slot) ∧
      ∃ spans, model.matcher.Accounts pattern.parts (model.normalize input) result.entities
        spans := by
  refine ⟨by simp [matcher, Orthography.respaces], ?_⟩
  obtain ⟨intent, listed, pattern, present, found, matched, rfl⟩ :=
    exists_of_mem_findMatches member
  obtain ⟨spans, accounts⟩ := Matcher.exists_accounts matched
  exact ⟨pattern, reachable.compile_eq intent listed pattern present,
    fun _ _ => accounts.mem_slotNames, spans, accounts⟩

/-- A slot that comes twice keeps its last value, and a list takes two words. -/
theorem exists_captures_rooms :
    ∃ model result,
      ((new "en-US" .empty).addEntity (.list "room" .strict ["living room", "hall"])).bind
        (·.addIntent "on" ["{state} the {room} [not the {room}] {device}"]) = .ok model ∧
      result ∈ model.findMatches "Dim the hall, not the living room lights!" ∧
      result.entities.get? "room" = some ⟨"living room", .list⟩ ∧
      ∃ pattern, Template.compile model.orthography result.pattern = .ok pattern ∧
        (∀ name value, (name, value) ∈ result.entities →
          ∃ slot ∈ pattern.slotNames, name = String.ofList slot) ∧
        ∃ spans, model.matcher.Accounts pattern.parts
          (model.normalize "Dim the hall, not the living room lights!") result.entities spans := by
  have found :
      (((new "en-US" .empty).addEntity (.list "room" .strict ["living room", "hall"])).bind
        (·.addIntent "on" ["{state} the {room} [not the {room}] {device}"])).map
        (fun model => (model.findMatches "Dim the hall, not the living room lights!").map
          fun result => result.entities.get? "room") =
        .ok [some ⟨"living room", .list⟩] := by
    decide +kernel
  obtain ⟨model, built, results⟩ := exists_of_map_eq_ok found
  have listed : some ⟨"living room", .list⟩ ∈
      (model.findMatches "Dim the hall, not the living room lights!").map
        fun result => result.entities.get? "room" := by
    rw [results]
    exact List.mem_singleton_self _
  obtain ⟨result, member, value⟩ := List.mem_map.1 listed
  refine ⟨model, result, built, member, value, ?_⟩
  obtain ⟨filled, added, addedIntent⟩ := exists_of_bind_eq_ok built
  exact (captures_of_mem_findMatches (.addIntent (.addEntity (.new ..) added) addedIntent) member).2

end Model

end Phrasebook
