import Phrasebook.Proofs.Reachable
import Phrasebook.Proofs.SlotNames
import Phrasebook.Proofs.WrittenForm

/-! Matching that walks the written form.

`Written.walk` matches a text against what is written of a pattern: it looks at
the character at the front, and where a group stands there it goes on with an
alternative and the text after the group, spliced together. It also tells which
written texts were examined. For a compiled pattern it finds what matching by
parts finds, and nothing that it examines is broken.
-/

set_option autoImplicit false

namespace Phrasebook

open Text Part

/-- What a walk has found, and the written texts that it has examined. -/
structure Walk where
  found : Option Match := none
  examined : List (List Char) := []
  deriving Repr

namespace Walk

/-- The first of several walks that finds something, after those that failed. -/
def firstOf {α : Type} (walk : α → Walk) : List α → Walk
  | [] => {}
  | first :: others =>
    match (walk first).found with
    | some _ => walk first
    | none =>
      { found := (firstOf walk others).found
        examined := (walk first).examined ++ (firstOf walk others).examined }

/-- Two walks, the second only if the first finds nothing. -/
def orElse (first second : Walk) : Walk := firstOf id [first, second]

def extend (passage : Passage) (walk : Walk) : Walk :=
  { walk with found := walk.found.map passage.extend }

/-- A walk that starts by examining a written text. -/
def examining (written : List Char) (walk : Walk) : Walk :=
  { walk with examined := written :: walk.examined }

theorem firstOf_map {α β : Type} (walk : β → Walk) (change : α → β) (ways : List α) :
    firstOf walk (ways.map change) = firstOf (walk ∘ change) ways := by
  induction ways with
  | nil => rfl
  | cons first others ih => rw [List.map_cons, firstOf, firstOf, ih, Function.comp_apply]

theorem found_firstOf {α : Type} {walk : α → Walk} {find : α → Option Match} {ways : List α}
    (each : ∀ way ∈ ways, (walk way).found = find way) :
    (firstOf walk ways).found = ways.findSome? find := by
  induction ways with
  | nil => rfl
  | cons first others ih =>
    have further := ih fun way member => each way (List.mem_cons_of_mem _ member)
    rw [firstOf, List.findSome?_cons, ← each first (List.mem_cons_self ..)]
    cases found : (walk first).found with
    | none => exact further
    | some _ => exact found

theorem mem_examined_firstOf {α : Type} {walk : α → Walk} {ways : List α} {text : List Char}
    (member : text ∈ (firstOf walk ways).examined) :
    ∃ way ∈ ways, text ∈ (walk way).examined := by
  induction ways with
  | nil => simp [firstOf] at member
  | cons first others ih =>
    rw [firstOf] at member
    cases found : (walk first).found with
    | some _ =>
      rw [found] at member
      exact ⟨first, List.mem_cons_self .., member⟩
    | none =>
      rw [found] at member
      rcases List.mem_append.1 member with here | later
      · exact ⟨first, List.mem_cons_self .., here⟩
      · obtain ⟨way, listed, inside⟩ := ih later
        exact ⟨way, List.mem_cons_of_mem _ listed, inside⟩

theorem found_orElse (first second : Walk) :
    (first.orElse second).found = first.found.or second.found := by
  have tried : (firstOf id [first, second]).found = [first, second].findSome? found :=
    found_firstOf fun _ _ => rfl
  rw [orElse, tried]
  cases one : first.found <;> cases two : second.found <;> simp [one, two]

theorem mem_examined_orElse {first second : Walk} {text : List Char}
    (member : text ∈ (first.orElse second).examined) :
    text ∈ first.examined ∨ text ∈ second.examined := by
  obtain ⟨way, listed, inside⟩ := mem_examined_firstOf member
  simp only [List.mem_cons, List.not_mem_nil, or_false] at listed
  rcases listed with rfl | rfl
  · exact .inl inside
  · exact .inr inside

end Walk

namespace Written

/-- What a group is divided into is shorter than a bound. -/
structure Within (bound : Nat) (found : List (List Char) × List Char) : Prop where
  after : found.2.length < bound
  alternatives : ∀ alternative ∈ found.1, (alternative ++ found.2).length < bound

theorem Within.prepend {bound : Nat} {found : List (List Char) × List Char}
    (within : Within bound found) (c : Char) : Within (bound + 1) (prepend [c] found) := by
  obtain ⟨alternatives, after⟩ := found
  refine ⟨Nat.lt_succ_of_lt within.after, fun alternative member => ?_⟩
  cases alternatives with
  | nil => simp [Written.prepend] at member
  | cons first others =>
    rcases List.mem_cons.1 member with rfl | member
    · exact Nat.succ_lt_succ (within.alternatives first (List.mem_cons_self ..))
    · exact Nat.lt_succ_of_lt (within.alternatives alternative (List.mem_cons_of_mem _ member))

theorem within_of_splitFrom {depth : Nat} {text : List Char}
    {found : List (List Char) × List Char} (split : splitFrom depth text = .ok found) :
    Within text.length found := by
  induction text generalizing depth found with
  | nil => simp [splitFrom] at split
  | cons c rest ih =>
    -- A character that is kept makes the first alternative longer by one.
    have added : ∀ next, (splitFrom next rest).map (prepend [c]) = .ok found →
        Within (c :: rest).length found := by
      intro next mapped
      obtain ⟨further, eq, rfl⟩ := exists_of_map_eq_ok mapped
      exact (ih eq).prepend c
    rw [splitFrom.eq_def] at split
    simp only at split
    split at split
    · exact added _ split
    · split at split
      · split at split
        · simp at split
        · cases split
          exact ⟨by simp, by simp⟩
        · exact added _ split
      · split at split
        · obtain ⟨further, eq, rfl⟩ := exists_of_map_eq_ok split
          obtain ⟨after, alternatives⟩ := ih eq
          refine ⟨Nat.lt_succ_of_lt after, fun alternative member => ?_⟩
          rcases List.mem_cons.1 member with rfl | member
          · exact Nat.lt_succ_of_lt after
          · exact Nat.lt_succ_of_lt (alternatives alternative member)
        · exact added _ split

/-- What stands at the front of a text leaves less to be read. -/
def Front.Within (bound : Nat) : Front → Prop
  | .nothing | .broken => True
  | .part _ rest => rest.length < bound
  | .group _ alternatives rest => Written.Within bound (alternatives, rest)

theorem within_front (text : List Char) : (front text).Within text.length := by
  cases text with
  | nil => trivial
  | cons c rest =>
    rw [front]
    split
    · exact Nat.lt_succ_self _
    · split
      · exact Nat.lt_succ_self _
      · split
        · split
          · trivial
          · next d after dropped =>
            have bound := (List.dropWhile_suffix (· != '}') (l := rest)).length_le
            rw [dropped, List.length_cons] at bound
            exact Nat.lt_succ_of_lt bound
        · split
          · split
            · trivial
            · next split =>
              obtain ⟨after, alternatives⟩ := within_of_splitFrom split
              exact ⟨Nat.lt_succ_of_lt after, fun alternative member =>
                Nat.lt_succ_of_lt (alternatives alternative member)⟩
          · exact Nat.lt_succ_self _

/-- Match the rest of a text, from a place on, against a written pattern. -/
def walk (m : Matcher) (written : List Char) (cursor : Cursor) : Walk :=
  let here := m.settle cursor
  Walk.examining written <|
    match _ahead : front written with
    | .nothing =>
      { found := if here.rest.all m.orthography.isSeparator then some .empty else none }
    | .broken => {}
    | .part part rest =>
      .firstOf (fun passage => (walk m rest passage.next).extend passage) (m.passages part here)
    | .group optional alternatives rest =>
      (Walk.firstOf (fun alternative => walk m (alternative.1 ++ rest) here)
        alternatives.attach).orElse
        (if optional then walk m rest here else {})
termination_by written.length
decreasing_by
  all_goals
    have within := within_front written
    rw [_ahead] at within
  · exact within
  · exact within.alternatives alternative.1 alternative.2
  · exact within.after

variable {m : Matcher} {written rest : List Char} {cursor : Cursor}

theorem walk_nothing (ahead : front written = .nothing) :
    walk m written cursor = Walk.examining written
      { found := if (m.settle cursor).rest.all m.orthography.isSeparator then some .empty
          else none } := by
  rw [walk]
  split <;> simp_all

theorem walk_part {part : Part} (ahead : front written = .part part rest) :
    walk m written cursor = Walk.examining written
      (.firstOf (fun passage => (walk m rest passage.next).extend passage)
        (m.passages part (m.settle cursor))) := by
  rw [walk]
  split <;> simp_all

theorem walk_group {optional : Bool} {alternatives : List (List Char)}
    (ahead : front written = .group optional alternatives rest) :
    walk m written cursor = Walk.examining written
      ((Walk.firstOf (fun alternative => walk m (alternative ++ rest) (m.settle cursor))
        alternatives).orElse (if optional then walk m rest (m.settle cursor) else {})) := by
  rw [walk]
  split
  · next found => simp [ahead] at found
  · next found => simp [ahead] at found
  · next found => simp [ahead] at found
  · next found =>
    cases ahead.symm.trans found
    have plain := Walk.firstOf_map (fun alternative => walk m (alternative ++ rest) (m.settle cursor))
      Subtype.val alternatives.attach
    rw [List.attach_map_subtype_val] at plain
    rw [plain]
    rfl

end Written

theorem Part.Expands.isLegible {parts others : List Part} (step : Expands parts others)
    (legible : ∀ part ∈ parts, part.IsLegible) : ∀ part ∈ others, part.IsLegible := by
  induction step with
  | choose member =>
    intro part inside
    have group := legible _ (List.mem_cons_self ..)
    rcases List.mem_append.1 inside with chosen | later
    · cases group with
      | group _ inner => exact inner _ member part chosen
    · exact legible part (List.mem_cons_of_mem _ later)
  | drop => exact fun part later => legible part (List.mem_cons_of_mem _ later)
  | after _ _ ih =>
    intro other inside
    rcases List.mem_cons.1 inside with rfl | later
    · exact legible other (List.mem_cons_self ..)
    · exact ih (fun part member => legible part (List.mem_cons_of_mem _ member)) other later

namespace Written

/-- A text that is written of legible parts, with slots of some names only. -/
def IsOf (names : List (List Char)) (written : List Char) : Prop :=
  ∃ parts, written = writeAll parts ∧ (∀ part ∈ parts, part.IsLegible) ∧
    slotNamesOfAll parts ⊆ names

theorem IsOf.mono {names others : List (List Char)} {written : List Char}
    (inside : IsOf names written) (fewer : names ⊆ others) : IsOf others written := by
  obtain ⟨parts, rfl, legible, named⟩ := inside
  exact ⟨parts, rfl, legible, fun name member => fewer (named member)⟩

/-- The walk finds what matching by parts finds, and examines written parts only. -/
structure Follows (m : Matcher) (parts : List Part) (cursor : Cursor) (walk : Walk) : Prop where
  found : walk.found = m.matchParts parts cursor
  examined : ∀ written ∈ walk.examined, IsOf (slotNamesOfAll parts) written

section

variable {m : Matcher} {cursor : Cursor}

theorem follows_examining {parts : List Part} {walk : Walk}
    (legible : ∀ part ∈ parts, part.IsLegible) (follows : Follows m parts cursor walk) :
    Follows m parts cursor (Walk.examining (writeAll parts) walk) := by
  refine ⟨follows.found, fun written member => ?_⟩
  rcases List.mem_cons.1 member with rfl | later
  · exact ⟨parts, rfl, legible, List.Subset.refl _⟩
  · exact follows.examined written later

theorem follows_part {part : Part} {rest : List Part} (walk : Cursor → Walk)
    (plain : part.isPlain = true) (each : ∀ next, Follows m rest next (walk next)) :
    Follows m (part :: rest) cursor
      (.firstOf (fun passage => (walk passage.next).extend passage)
        (m.passages part (m.settle cursor))) := by
  constructor
  · rw [m.matchParts_cons plain]
    apply Walk.found_firstOf
    intro passage _
    exact congrArg (Option.map passage.extend) (each passage.next).found
  · intro written member
    obtain ⟨passage, -, inside⟩ := Walk.mem_examined_firstOf member
    exact ((each passage.next).examined written inside).mono (List.subset_append_right ..)

theorem follows_group {optional : Bool} {alternatives : List (List Part)} {rest : List Part}
    (walk : List Char → Walk)
    (each : ∀ others, Expands (group optional alternatives :: rest) others →
      Follows m others (m.settle cursor) (walk (writeAll others))) :
    Follows m (group optional alternatives :: rest) cursor
      ((Walk.firstOf (fun alternative => walk (alternative ++ writeAll rest))
        (alternatives.map writeAll)).orElse (if optional then walk (writeAll rest) else {})) := by
  -- What is written of an alternative and the rest is one written text.
  have splice : ∀ alternative : List Part,
      walk (writeAll alternative ++ writeAll rest) = walk (writeAll (alternative ++ rest)) :=
    fun alternative => by rw [writeAll_append]
  constructor
  · rw [Walk.found_orElse, Walk.firstOf_map, m.matchParts_group]
    congr 1
    · apply Walk.found_firstOf
      intro alternative member
      rw [Function.comp_apply, splice]
      exact (each _ (.choose member)).found
    · cases optional with
      | false => rfl
      | true => exact (each _ .drop).found
  · intro written member
    rcases Walk.mem_examined_orElse member with chosen | dropped
    · rw [Walk.firstOf_map] at chosen
      obtain ⟨alternative, listed, inside⟩ := Walk.mem_examined_firstOf chosen
      rw [Function.comp_apply, splice] at inside
      have step : Expands (group optional alternatives :: rest) (alternative ++ rest) :=
        .choose listed
      exact ((each _ step).examined written inside).mono step.slotNames_sublist.subset
    · cases optional with
      | false => simp at dropped
      | true =>
        have step : Expands (group true alternatives :: rest) rest := .drop
        exact ((each _ step).examined written dropped).mono step.slotNames_sublist.subset

/-- Walking the written form of legible parts is matching the parts. -/
theorem follows_walk (parts : List Part) (cursor : Cursor)
    (legible : ∀ part ∈ parts, part.IsLegible) :
    Follows m parts cursor (walk m (writeAll parts) cursor) := by
  have ahead := front_writeAll legible
  -- Any way to go on with a group has smaller parts, though not fewer.
  cases parts with
  | nil =>
    rw [walk_nothing ahead]
    exact follows_examining legible ⟨(m.matchParts_nil cursor).symm, by simp⟩
  | cons part rest =>
    have others : ∀ other ∈ rest, other.IsLegible :=
      fun other member => legible other (List.mem_cons_of_mem _ member)
    cases part with
    | group optional alternatives =>
      rw [walk_group ahead]
      apply follows_examining legible
      exact follows_group (fun written => walk m written (m.settle cursor))
        fun others step => by
          have smaller := step.sizeOf_lt
          exact follows_walk others _ (step.isLegible legible)
    | letter c | space | boundary | slot name =>
      rw [walk_part ahead]
      apply follows_examining legible
      exact follows_part (fun next => walk m (writeAll rest) next) rfl
        fun next => follows_walk rest next others
termination_by sizeOf parts

end

/-- A written text that matching can go on with: no sign stands at its front that
belongs to a group or a slot, and the group or slot at its front can be read. -/
structure IsSound (names : List (List Char)) (written : List Char) : Prop where
  head : ∀ c rest, written = c :: rest → c ∉ ['|', ']', ')', '}']
  group : ∀ optional rest, written = opener optional :: rest →
    ∃ alternatives after, splitGroup written = .ok (alternatives, after) ∧ alternatives ≠ []
  slot : ∀ rest, written = '{' :: rest →
    ∃ name after, rest = name ++ '}' :: after ∧ '}' ∉ name ∧ name ∈ names

theorem isSound_of_not_mem_signs {names : List (List Char)} {c : Char} {rest : List Char}
    (plain : c ∉ Template.signs) : IsSound names (c :: rest) := by
  have kinds := plain
  rw [Template.mem_signs_iff, not_or, not_or, not_or] at kinds
  obtain ⟨notSlot, -, notOpener, -⟩ := kinds
  refine ⟨fun d left eq => ?_, fun optional left eq => ?_, fun left eq => ?_⟩
  · cases eq
    simp only [Template.signs, List.mem_cons, not_or] at plain
    simp [plain]
  · exact absurd ⟨optional, (List.cons.inj eq).1⟩ notOpener
  · exact absurd (List.cons.inj eq).1 notSlot

theorem IsOf.isSound {names : List (List Char)} {written : List Char}
    (inside : IsOf names written) : IsSound names written := by
  obtain ⟨parts, rfl, legible, named⟩ := inside
  cases parts with
  | nil => exact ⟨by simp [writeAll], by simp [writeAll], by simp [writeAll]⟩
  | cons part rest =>
    rw [writeAll]
    cases legible part (List.mem_cons_self ..) with
    | letter plain _ _ => exact isSound_of_not_mem_signs plain
    | space | boundary => exact isSound_of_not_mem_signs (by decide)
    | @slot name plain =>
      rw [write]
      refine ⟨fun d left eq => ?_, fun optional left eq => ?_, fun left eq => ?_⟩
      · cases eq
        decide
      · cases optional <;> simp [opener] at eq
      · refine ⟨name, writeAll rest, by simpa using eq.symm, ?_, ?_⟩
        · intro member
          exact absurd (by decide) (plain _ member)
        · exact named (List.mem_append_left _ (by simp [slotNames]))
    | @group optional alternatives nonempty inner =>
      have split := splitGroup_write nonempty inner optional (writeAll rest)
      refine ⟨fun d left eq => ?_, fun _ _ _ => ⟨_, _, split, by simpa using nonempty⟩,
        fun left eq => ?_⟩
      · rw [write, List.append_assoc] at eq
        cases eq
        cases optional <;> decide
      · rw [write, List.append_assoc] at eq
        cases optional <;> simp [opener] at eq

/-- Compiled patterns never break matching: walking the written form finds what
matching finds, and every written text that is examined is sound. -/
theorem walk_of_compile {o : Orthography} {phrase : String} {pattern : Pattern}
    (compiled : Template.compile o phrase = .ok pattern) (m : Matcher) (text : List Char) :
    (walk m pattern.normalized (.atStart text)).found = m.matchText pattern.parts text ∧
      ∀ written ∈ (walk m pattern.normalized (.atStart text)).examined,
        IsSound pattern.slotNames written := by
  have follows : Follows m pattern.parts (.atStart text)
      (walk m pattern.normalized (.atStart text)) :=
    follows_walk pattern.parts (.atStart text) (Template.isLegible_of_compile compiled)
  refine ⟨follows.found, fun written member => ?_⟩
  apply ((follows.examined written member).mono _).isSound
  intro name named
  rw [Pattern.slotNames_eq_eraseDups]
  exact List.mem_eraseDups.2 named

/-- A group in a group, with a slot after them: the second alternative is spliced
before the slot. -/
theorem exists_walk_lamp :
    ∃ pattern, Template.compile (.ofLanguage .english) "turn (on|[it] off) {lamp}" = .ok pattern ∧
      (walk ⟨.ofLanguage .english, fun _ => none, false⟩ pattern.normalized
        (.atStart "turn off all".toList)).examined.contains "[it] off {lamp}".toList = true ∧
      ∀ written ∈ (walk ⟨.ofLanguage .english, fun _ => none, false⟩ pattern.normalized
          (.atStart "turn off all".toList)).examined, IsSound pattern.slotNames written := by
  have examined : (Template.compile (.ofLanguage .english) "turn (on|[it] off) {lamp}").map
      (fun pattern => (walk ⟨.ofLanguage .english, fun _ => none, false⟩ pattern.normalized
        (.atStart "turn off all".toList)).examined.contains "[it] off {lamp}".toList) =
        .ok true := by
    decide +kernel
  obtain ⟨pattern, compiled, spliced⟩ := exists_of_map_eq_ok examined
  exact ⟨pattern, compiled, spliced, (walk_of_compile compiled _ _).2⟩

end Written

end Phrasebook
