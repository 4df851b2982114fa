import Phrasebook.Proofs.CanonicalMarks
import Phrasebook.Proofs.WrittenForm

/-! The written form of a pattern as a template.

Each part of a pattern is written as an item of a template, and the items are well formed: slots
have names, letters are neither whitespace nor signs, and something is left that can be matched.
So the written form compiles, with or without the blanks at its ends.
-/

set_option autoImplicit false

namespace Phrasebook

open Text Template

namespace Part

mutual

/-- The item that a part is written as. -/
def item : Part → Item
  | letter c => .literal c
  | space => .blank ' '
  | boundary => .literal boundaryMark
  | slot name => .slot name
  | group optional alternatives => .group optional (itemsOfAlternatives alternatives)

def itemsOfAll : List Part → List Item
  | [] => []
  | part :: rest => part.item :: itemsOfAll rest

def itemsOfAlternatives : List (List Part) → List (List Item)
  | [] => []
  | alternative :: rest => itemsOfAll alternative :: itemsOfAlternatives rest

end

mutual

theorem text_item (part : Part) : part.item.text = part.write := by
  cases part with
  | group optional alternatives =>
    rw [item, Item.text, textOfAlternatives_itemsOfAlternatives, write]
  | letter c | space | boundary | slot name => simp [item, Item.text, write]

theorem textOfAll_itemsOfAll (parts : List Part) :
    Item.textOfAll (itemsOfAll parts) = writeAll parts := by
  cases parts with
  | nil => rfl
  | cons part rest =>
    rw [itemsOfAll, Item.textOfAll, writeAll, text_item, textOfAll_itemsOfAll]

theorem textOfAlternatives_itemsOfAlternatives (alternatives : List (List Part)) :
    Item.textOfAlternatives (itemsOfAlternatives alternatives) =
      writeAlternatives alternatives := by
  cases alternatives with
  | nil => rfl
  | cons alternative rest =>
    cases rest with
    | nil => simp [itemsOfAlternatives, Item.textOfAlternatives, writeAlternatives,
        textOfAll_itemsOfAll]
    | cons second others =>
      have further := textOfAlternatives_itemsOfAlternatives (second :: others)
      rw [itemsOfAlternatives] at further
      rw [itemsOfAlternatives, itemsOfAlternatives, Item.textOfAlternatives, writeAlternatives,
        further, textOfAll_itemsOfAll]

end

theorem mem_itemsOfAll {parts : List Part} {item : Item} :
    item ∈ itemsOfAll parts ↔ ∃ part ∈ parts, part.item = item := by
  induction parts with
  | nil => simp [itemsOfAll]
  | cons part rest ih => simp [itemsOfAll, ih, eq_comm]

theorem mem_itemsOfAlternatives {alternatives : List (List Part)} {items : List Item} :
    items ∈ itemsOfAlternatives alternatives ↔
      ∃ alternative ∈ alternatives, itemsOfAll alternative = items := by
  induction alternatives with
  | nil => simp [itemsOfAlternatives]
  | cons alternative rest ih => simp [itemsOfAlternatives, ih, eq_comm]

mutual

theorem hasContent_item (o : Orthography) (part : Part) :
    part.item.hasContent o = part.leaves.any fun leaf => leaf.item.hasContent o := by
  cases part with
  | group optional alternatives =>
    rw [item, Item.hasContent, hasContentInAlternatives_items, leaves]
  | letter c | space | boundary | slot name => simp [leaves]

theorem hasContentInAll_itemsOfAll (o : Orthography) (parts : List Part) :
    Item.hasContentInAll o (itemsOfAll parts) =
      (leavesOfAll parts).any fun leaf => leaf.item.hasContent o := by
  cases parts with
  | nil => rfl
  | cons part rest =>
    rw [itemsOfAll, Item.hasContentInAll, hasContent_item, hasContentInAll_itemsOfAll, leavesOfAll,
      List.any_append]

theorem hasContentInAlternatives_items (o : Orthography) (alternatives : List (List Part)) :
    Item.hasContentInAlternatives o (itemsOfAlternatives alternatives) =
      (leavesOfAlternatives alternatives).any fun leaf => leaf.item.hasContent o := by
  cases alternatives with
  | nil => rfl
  | cons alternative rest =>
    rw [itemsOfAlternatives, Item.hasContentInAlternatives, hasContentInAll_itemsOfAll,
      hasContentInAlternatives_items, leavesOfAlternatives, List.any_append]

end

/-- A leaf that can be typed again: it is one of a compiled template, and its name is not blank. -/
structure IsTypable (o : Orthography) (leaf : Part) : Prop where
  compiled : leaf.IsCompiled o
  named : ∀ name, leaf = .slot name → isBlankText name = false

variable {language : Language}

theorem isValid_item {part : Part} (legible : part.IsLegible)
    (typable : ∀ leaf ∈ part.leaves, leaf.IsTypable (.ofLanguage language)) :
    part.item.IsValid (.ofLanguage language) := by
  induction legible with
  | @letter c plain _ _ =>
    have kind := (typable (.letter c) (by simp [leaves])).compiled
    exact .literal kind.1 plain
  | space => exact .blank (Orthography.isSpace_space _)
  | boundary => exact .literal (Mark.isKept_iff.1 (isKept_boundaryMark language).1).1 (by decide)
  | @slot name plain => exact .slot plain ((typable (.slot name) (by simp [leaves])).named name rfl)
  | @group optional alternatives nonempty _ ih =>
    refine .group ?_ fun items chosen item stands => ?_
    · obtain ⟨first, others, rfl⟩ := List.exists_cons_of_ne_nil nonempty
      simp [itemsOfAlternatives]
    · obtain ⟨alternative, member, rfl⟩ := mem_itemsOfAlternatives.1 chosen
      obtain ⟨part, listed, rfl⟩ := mem_itemsOfAll.1 stands
      refine ih alternative member part listed fun leaf inside => typable leaf ?_
      rw [leaves]
      exact mem_leavesOfAlternatives.2
        ⟨alternative, member, mem_leavesOfAll.2 ⟨part, listed, inside⟩⟩

end Part

namespace Template

open Part

/-- The slots that have been read have names, and what counts as content has been written. -/
structure Progress.IsFilled (progress : Progress) : Prop where
  named : ∀ name, .slot name ∈ progress.leaves → isBlankText name = false
  content : progress.hasContent = true → ∃ leaf ∈ progress.leaves, leaf ≠ .space

namespace Progress.IsFilled

variable {o : Orthography} {progress next : Progress}

/-- Adding leaves that are no slots keeps what has been read filled. -/
theorem of_leaves (filled : progress.IsFilled) (content : next.hasContent = progress.hasContent)
    (kept : ∀ leaf ∈ progress.leaves, leaf ∈ next.leaves)
    (new : ∀ leaf ∈ next.leaves, leaf = .space ∨ leaf = .boundary ∨ leaf ∈ progress.leaves) :
    next.IsFilled := by
  constructor
  · intro name member
    rcases new _ member with space | boundary | read
    · cases space
    · cases boundary
    · exact filled.named name read
  · intro some_
    obtain ⟨leaf, member, solid⟩ := filled.content (content ▸ some_)
    exact ⟨leaf, kept leaf member, solid⟩

theorem settleSpace (filled : progress.IsFilled) : (progress.settleSpace o).IsFilled := by
  refine filled.of_leaves (by rw [settleSpace_eq]) ?_ ?_
  · intro leaf member
    rw [settleSpace_eq, Progress.leaves, leavesOfAll_append, List.append_assoc]
    exact List.mem_append_right _ member
  · intro leaf member
    exact (mem_leaves_settleSpace member).imp And.left .inr

theorem same_leaves (filled : progress.IsFilled) (content : next.hasContent = progress.hasContent)
    (same : ∀ leaf, leaf ∈ next.leaves ↔ leaf ∈ progress.leaves) : next.IsFilled :=
  filled.of_leaves content (fun leaf => (same leaf).2) fun leaf member =>
    .inr (.inr ((same leaf).1 member))

theorem content_letters (filled : progress.IsFilled) (c : Char) :
    (progress.content ((lowerChar c).map ofChar)).IsFilled := by
  have plain (d : Char) :
      (ofChar d).isPlain = true ∧ ofChar d ≠ .space ∧ ∀ name, ofChar d ≠ .slot name := by
    unfold ofChar
    split <;> exact ⟨rfl, nofun, nofun⟩
  constructor
  · intro name member
    rcases mem_leaves_content.1 member with written | read
    · obtain ⟨part, listed, inside⟩ := mem_leavesOfAll.1 written
      obtain ⟨d, -, rfl⟩ := List.mem_map.1 listed
      rw [leaves_of_isPlain (plain d).1, List.mem_singleton] at inside
      exact absurd inside.symm ((plain d).2.2 name)
    · exact filled.named name read
  · intro _
    obtain ⟨d, others, eq⟩ := List.exists_cons_of_ne_nil (lowerChar_ne_nil c)
    refine ⟨ofChar d, mem_leaves_content.2 (.inl (mem_leavesOfAll.2 ⟨ofChar d, ?_, ?_⟩)),
      (plain d).2.1⟩
    · rw [eq]
      exact List.mem_cons_self ..
    · rw [leaves_of_isPlain (plain d).1]
      exact List.mem_singleton_self _

theorem content_slot (filled : progress.IsFilled) {name : List Char}
    (named : isBlankText name = false) : (progress.content [.slot name]).IsFilled := by
  constructor
  · intro other member
    rcases mem_leaves_content.1 member with written | read
    · cases List.mem_singleton.1 written
      exact named
    · exact filled.named other read
  · exact fun _ => ⟨.slot name, mem_leaves_content.2 (.inl (List.mem_singleton_self _)), nofun⟩

theorem step {position : Nat} {c : Char} {rest : List Char} (filled : progress.IsFilled)
    (step : ReadStep o progress position c rest (.ok next)) : next.IsFilled := by
  have settled := filled.settleSpace (o := o)
  cases step with
  | collect _ _ | blank _ _ => exact ⟨filled.named, filled.content⟩
  | openSlot _ _ => exact ⟨settled.named, settled.content⟩
  | @closeSlot start name _ _ named =>
    have left : { progress with slot := none }.IsFilled := ⟨filled.named, filled.content⟩
    refine left.content_slot ?_
    rwa [← Bool.not_eq_true, ← trim_eq_nil_iff, trim_trim]
  | openGroup _ _ _ =>
    exact settled.same_leaves rfl fun leaf => by rw [leaves_openGroup]
  | @closeGroup optional closed _ _ closing =>
    have content : closed.hasContent = (progress.settleSpace o).hasContent := by
      obtain ⟨top, outer, -, -, rfl⟩ := exists_of_closeGroup? closing
      rfl
    have shut := settled.same_leaves content fun leaf => mem_leaves_closeGroup? closing
    split
    · refine shut.of_leaves rfl (fun leaf member => ?_) fun leaf member => ?_
      · rw [leaves_add]
        exact List.mem_append_right _ member
      · rw [leaves_add, Part.leaves, List.mem_append, List.mem_singleton] at member
        exact .inr member
    · exact shut
  | bar _ _ starting =>
    have content : next.hasContent = (progress.settleSpace o).hasContent := by
      obtain ⟨top, outer, -, rfl⟩ := exists_of_nextAlternative? starting
      rfl
    exact settled.same_leaves content fun leaf => mem_leaves_nextAlternative? starting
  | drop _ _ _ _ => exact settled
  | letter _ _ _ _ => exact settled.content_letters c

end Progress.IsFilled

variable {language : Language} {phrase : String} {pattern : Pattern}

theorem isTypable_of_compile (compiled : compile (.ofLanguage language) phrase = .ok pattern) :
    (∀ leaf ∈ leavesOfAll pattern.parts, leaf.IsTypable (.ofLanguage language)) ∧
      ∃ leaf ∈ leavesOfAll pattern.parts, leaf.item.hasContent (.ofLanguage language) = true := by
  have kinds := forall_leaves_of_compile compiled
  obtain ⟨final, reading, -, shut, content, rfl⟩ := compile_eq_ok_iff.1 compiled
  have preserved : ∀ (progress : Progress) (position : Nat) (c : Char) (rest : List Char)
      (next : Progress), progress.IsFilled →
      readChar (.ofLanguage language) progress position c rest = .ok next → next.IsFilled := by
    intro progress position c rest next filled read
    exact filled.step (read ▸ readStep_readChar (.ofLanguage language) progress position c rest)
  have filled := read_preserves preserved (⟨nofun, nofun⟩ : ({} : Progress).IsFilled) reading
  have same (leaf : Part) : leaf ∈ leavesOfAll final.current.reverse ↔ leaf ∈ final.leaves := by
    simp [Progress.leaves, shut, mem_leavesOfAll]
  refine ⟨fun leaf member => ⟨kinds leaf member, ?_⟩, ?_⟩
  · rintro name rfl
    exact filled.named name ((same _).1 member)
  · obtain ⟨leaf, member, solid⟩ := filled.content content
    have kind := kinds leaf ((same leaf).2 member)
    refine ⟨leaf, (same leaf).2 member, ?_⟩
    cases leaf with
    | letter c => simpa [item, Item.hasContent] using kind.2
    | space => exact absurd rfl solid
    | boundary =>
      have kept : (Orthography.ofLanguage language).isPatternPunctuation boundaryMark = false :=
        (Mark.isKept_iff.1 (isKept_boundaryMark language).1).2
      simpa [item, Item.hasContent] using kept
    | slot name => rfl
    | group optional alternatives => exact kind.elim

/-! Blanks around items. -/

namespace Item

/-- An item is a blank, or begins and ends with other characters. -/
theorem IsValid.blank_or_solid {item : Item} (valid : item.IsValid (.ofLanguage language)) :
    (∃ c, item = .blank c ∧ isBlank c = true) ∨
      ∃ first last, item.text.head? = some first ∧ isBlank first = false ∧
        item.text.getLast? = some last ∧ isBlank last = false := by
  cases valid with
  | @blank c space => exact .inl ⟨c, rfl, by rwa [Orthography.isSpace_eq_isBlank] at space⟩
  | @literal c solid _ =>
    rw [Orthography.isSpace_eq_isBlank] at solid
    exact .inr ⟨c, c, rfl, solid, rfl, solid⟩
  | @slot inner _ _ =>
    exact .inr ⟨'{', '}', rfl, by decide, by rw [text, List.getLast?_concat], by decide⟩
  | @group optional alternatives _ _ =>
    refine .inr ⟨opener optional, closer optional, rfl, ?_, by rw [text, List.getLast?_concat], ?_⟩
    · cases optional <;> decide
    · cases optional <;> decide

theorem textOfAll_append (first second : List Item) :
    textOfAll (first ++ second) = textOfAll first ++ textOfAll second := by
  induction first with
  | nil => rfl
  | cons item rest ih => rw [List.cons_append, textOfAll, textOfAll, ih, List.append_assoc]

theorem hasContentInAll_append (o : Orthography) (first second : List Item) :
    hasContentInAll o (first ++ second) =
      (hasContentInAll o first || hasContentInAll o second) := by
  induction first with
  | nil => rfl
  | cons item rest ih => rw [List.cons_append, hasContentInAll, hasContentInAll, ih, Bool.or_assoc]

variable {items : List Item} {text : List Char}

/-- The items of a text without the blanks at its front. -/
theorem Spell.exists_dropWhile (spelled : Spell (.ofLanguage language) items text) :
    ∃ kept, Spell (.ofLanguage language) kept (text.dropWhile isBlank) ∧
      hasContentInAll (.ofLanguage language) kept =
        hasContentInAll (.ofLanguage language) items := by
  obtain ⟨rfl, valid⟩ := spelled
  induction items with
  | nil => exact ⟨[], ⟨rfl, valid⟩, rfl⟩
  | cons item rest ih =>
    obtain ⟨first, others⟩ := List.forall_mem_cons.1 valid
    rcases first.blank_or_solid with ⟨c, rfl, blank⟩ | ⟨c, -, head, solid, -⟩
    · obtain ⟨kept, whole, content⟩ := ih others
      refine ⟨kept, ?_, by rw [content, hasContentInAll, hasContent, Bool.false_or]⟩
      rwa [textOfAll, Item.text, List.singleton_append, List.dropWhile_cons_of_pos blank]
    · refine ⟨item :: rest, ⟨?_, valid⟩, rfl⟩
      obtain ⟨after, eq⟩ := List.head?_eq_some_iff.1 head
      rw [textOfAll, eq, List.cons_append, List.dropWhile_cons_of_neg (by simp [solid])]

/-- The items of a text without the blanks at its end. -/
theorem Spell.exists_rdropWhile (spelled : Spell (.ofLanguage language) items text) :
    ∃ kept, Spell (.ofLanguage language) kept (text.reverse.dropWhile isBlank).reverse ∧
      hasContentInAll (.ofLanguage language) kept =
        hasContentInAll (.ofLanguage language) items := by
  obtain ⟨rfl, valid⟩ := spelled
  induction items using List.reverseRecOn with
  | nil => exact ⟨[], ⟨rfl, valid⟩, rfl⟩
  | append_singleton rest item ih =>
    obtain ⟨others, last⟩ := List.forall_mem_append.1 valid
    rcases (List.forall_mem_singleton.1 last).blank_or_solid with
      ⟨c, rfl, blank⟩ | ⟨-, c, -, -, ends, solid⟩
    · -- Blanks go one by one from the end, and none of them is content.
      obtain ⟨kept, whole, content⟩ := ih others
      refine ⟨kept, ?_, by simp [content, hasContentInAll_append, hasContentInAll, hasContent]⟩
      have back : (textOfAll (rest ++ [.blank c])).reverse = c :: (textOfAll rest).reverse := by
        simp [textOfAll_append, textOfAll, Item.text]
      rwa [back, List.dropWhile_cons_of_pos blank]
    · refine ⟨rest ++ [item], ⟨?_, valid⟩, rfl⟩
      obtain ⟨before, eq⟩ := List.getLast?_eq_some_iff.1 ends
      have back :
          (textOfAll (rest ++ [item])).reverse = c :: (textOfAll rest ++ before).reverse := by
        simp [textOfAll_append, textOfAll, eq]
      rw [back, List.dropWhile_cons_of_neg (by simp [solid]), ← back, List.reverse_reverse]

theorem Spell.exists_trim (spelled : Spell (.ofLanguage language) items text) :
    ∃ kept, Spell (.ofLanguage language) kept (trim text) ∧
      hasContentInAll (.ofLanguage language) kept =
        hasContentInAll (.ofLanguage language) items := by
  obtain ⟨front, whole, same⟩ := spelled.exists_dropWhile
  obtain ⟨kept, trimmed, content⟩ := whole.exists_rdropWhile
  exact ⟨kept, trimmed, content.trans same⟩

end Item

/-! Compiling again. -/

theorem exists_compile_of_spell {items : List Item}
    (spelled : Item.Spell (.ofLanguage language) items (trim phrase.toList))
    (content : Item.hasContentInAll (.ofLanguage language) items = true) :
    ∃ pattern, compile (.ofLanguage language) phrase = .ok pattern := by
  obtain ⟨final, reading, passed⟩ := exists_read_of_spell spelled
  have started : final.hasContent = true := by rw [passed.hasContent, content, Bool.or_true]
  exact ⟨_, compile_eq_ok_iff.2 ⟨final, reading, passed.slot, passed.groups, started, rfl⟩⟩

/-- The written form of a pattern compiles. -/
theorem exists_compile_normalized
    (compiled : compile (.ofLanguage language) phrase = .ok pattern) :
    ∃ again, compile (.ofLanguage language) (String.ofList pattern.normalized) = .ok again := by
  obtain ⟨typable, leaf, member, solid⟩ := isTypable_of_compile compiled
  have spelled : Item.Spell (.ofLanguage language) (itemsOfAll pattern.parts)
      (String.ofList pattern.normalized).toList := by
    refine ⟨by rw [textOfAll_itemsOfAll, String.toList_ofList]; rfl, fun item member => ?_⟩
    obtain ⟨part, listed, rfl⟩ := mem_itemsOfAll.1 member
    exact isValid_item (isLegible_of_compile compiled part listed) fun leaf inside =>
      typable leaf (mem_leavesOfAll.2 ⟨part, listed, inside⟩)
  obtain ⟨kept, trimmed, same⟩ := spelled.exists_trim
  refine exists_compile_of_spell trimmed ?_
  rw [same, hasContentInAll_itemsOfAll]
  exact List.any_eq_true.2 ⟨leaf, member, solid⟩

end Template

end Phrasebook
