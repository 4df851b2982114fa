import Phrasebook.Proofs.Reachable
import Phrasebook.Proofs.TemplateGrammar

/-! The slots of a template, in their order.

Each brace that opens a slot makes the next slot of the pattern. Its name is what stands up to the
closing brace, and whether a word can go on across its start is known from the part that was read
last.
-/

set_option autoImplicit false

namespace Phrasebook

open Text

namespace Text

theorem dropWhile_isBlank_append {c : Char} (solid : isBlank c = false) (before rest : List Char) :
    (before ++ c :: rest).dropWhile isBlank = before.dropWhile isBlank ++ c :: rest := by
  rw [List.dropWhile_append, List.dropWhile_cons_of_neg (by simp [solid])]
  split
  · next blank => rw [List.isEmpty_iff.1 blank, List.nil_append]
  · rfl

/-- Trimming leaves what stands between two characters other than blanks. -/
theorem trim_append {first last : Char} (head : isBlank first = false) (solid : isBlank last = false)
    (before middle after : List Char) :
    trim (before ++ first :: middle ++ last :: after) =
      before.dropWhile isBlank ++
        first :: (middle ++ last :: (after.reverse.dropWhile isBlank).reverse) := by
  have turned : (before.dropWhile isBlank ++ first :: (middle ++ last :: after)).reverse =
      after.reverse ++ last :: (middle.reverse ++ first :: (before.dropWhile isBlank).reverse) := by
    simp
  rw [trim, List.append_assoc, List.cons_append, dropWhile_isBlank_append head, turned,
    dropWhile_isBlank_append solid]
  simp

theorem takeWhile_ne_append {sign : Char} {name : List Char} (absent : sign ∉ name)
    (rest : List Char) : (name ++ sign :: rest).takeWhile (· != sign) = name := by
  have others : ∀ c ∈ name, (c != sign) = true := by
    intro c member
    rw [bne_iff_ne]
    rintro rfl
    exact absent member
  rw [List.takeWhile_append_of_pos others, List.takeWhile_cons_of_neg (by simp), List.append_nil]

theorem count_dropWhile_isBlank {c : Char} (solid : isBlank c = false) (text : List Char) :
    (text.dropWhile isBlank).count c = text.count c := by
  have blank : (text.takeWhile isBlank).count c = 0 := by
    rw [List.count_eq_zero]
    intro member
    simp [List.mem_takeWhile_imp member] at solid
  have whole := congrArg (List.count c) (List.takeWhile_append_dropWhile (p := isBlank) (l := text))
  rw [List.count_append, blank, Nat.zero_add] at whole
  exact whole

end Text

namespace Part

/-- Parts that a word ends at. -/
def isBreak : Part → Bool
  | space | boundary => true
  | letter _ | slot _ | group .. => false

/-- A slot of a pattern, and whether a break comes right before it. -/
structure PlacedSlot where
  name : List Char
  afterBreak : Bool
  deriving Repr, DecidableEq

mutual

def placedSlots (afterBreak : Bool) : Part → List PlacedSlot
  | slot name => [⟨name, afterBreak⟩]
  | group _ alternatives => placedSlotsOfAlternatives alternatives
  | letter _ | space | boundary => []

/-- The slots of a sequence, from left to right. -/
def placedSlotsOfAll (afterBreak : Bool) : List Part → List PlacedSlot
  | [] => []
  | part :: rest => part.placedSlots afterBreak ++ placedSlotsOfAll part.isBreak rest

def placedSlotsOfAlternatives : List (List Part) → List PlacedSlot
  | [] => []
  | alternative :: rest => placedSlotsOfAll false alternative ++ placedSlotsOfAlternatives rest

end

mutual

theorem map_name_placedSlots (afterBreak : Bool) (part : Part) :
    (part.placedSlots afterBreak).map PlacedSlot.name = part.slotNames := by
  cases part with
  | slot name => simp [placedSlots, slotNames]
  | group optional alternatives =>
    rw [placedSlots, slotNames, map_name_placedSlotsOfAlternatives]
  | letter c | space | boundary => simp [placedSlots, slotNames]

theorem map_name_placedSlotsOfAll (afterBreak : Bool) (parts : List Part) :
    (placedSlotsOfAll afterBreak parts).map PlacedSlot.name = slotNamesOfAll parts := by
  cases parts with
  | nil => rfl
  | cons part rest =>
    rw [placedSlotsOfAll, slotNamesOfAll, List.map_append, map_name_placedSlots,
      map_name_placedSlotsOfAll]

theorem map_name_placedSlotsOfAlternatives (alternatives : List (List Part)) :
    (placedSlotsOfAlternatives alternatives).map PlacedSlot.name =
      slotNamesOfAlternatives alternatives := by
  cases alternatives with
  | nil => rfl
  | cons alternative rest =>
    rw [placedSlotsOfAlternatives, slotNamesOfAlternatives, List.map_append,
      map_name_placedSlotsOfAll, map_name_placedSlotsOfAlternatives]

end

theorem length_placedSlots (afterBreak : Bool) (part : Part) :
    (part.placedSlots afterBreak).length = part.slotNames.length := by
  rw [← map_name_placedSlots afterBreak, List.length_map]

theorem length_placedSlotsOfAll (afterBreak : Bool) (parts : List Part) :
    (placedSlotsOfAll afterBreak parts).length = (slotNamesOfAll parts).length := by
  rw [← map_name_placedSlotsOfAll afterBreak, List.length_map]

theorem placedSlotsOfAll_append (afterBreak : Bool) (first second : List Part) :
    placedSlotsOfAll afterBreak (first ++ second) =
      placedSlotsOfAll afterBreak first ++
        placedSlotsOfAll (first.getLast?.elim afterBreak isBreak) second := by
  induction first generalizing afterBreak with
  | nil => rfl
  | cons part rest ih =>
    rw [List.cons_append, placedSlotsOfAll, placedSlotsOfAll, ih, List.append_assoc,
      List.getLast?_cons]
    cases rest.getLast? <;> rfl

theorem placedSlotsOfAlternatives_append (first second : List (List Part)) :
    placedSlotsOfAlternatives (first ++ second) =
      placedSlotsOfAlternatives first ++ placedSlotsOfAlternatives second := by
  induction first with
  | nil => rfl
  | cons alternative rest ih => simp [placedSlotsOfAlternatives, ih]

theorem placedSlotsOfAll_map_ofChar (afterBreak : Bool) (text : List Char) :
    placedSlotsOfAll afterBreak (text.map ofChar) = [] := by
  induction text generalizing afterBreak with
  | nil => rfl
  | cons c rest ih =>
    rw [List.map_cons, placedSlotsOfAll, ih, ofChar]
    split <;> simp [placedSlots]

end Part

open Part

namespace Template

/-- The slots of an open group that are not in the innermost sequence. -/
def OpenGroup.placedSlots (group : OpenGroup) : List PlacedSlot :=
  placedSlotsOfAll false group.before.reverse ++ placedSlotsOfAlternatives group.finished.reverse

namespace Progress

/-- A break is the last part that was read in the innermost sequence. -/
def afterBreak (progress : Progress) : Bool := progress.current.head?.any isBreak

/-- All slots that have been read, from left to right. -/
def placedSlots (progress : Progress) : List PlacedSlot :=
  progress.groups.reverse.flatMap OpenGroup.placedSlots ++
    placedSlotsOfAll false progress.current.reverse

/-- The number of slots that have been begun. -/
def slotCount (progress : Progress) : Nat :=
  progress.placedSlots.length + progress.slot.toList.length

theorem placedSlots_append (progress : Progress) (parts : List Part) :
    ({ progress with current := parts.reverse ++ progress.current } : Progress).placedSlots =
      progress.placedSlots ++ placedSlotsOfAll progress.afterBreak parts := by
  have last : progress.current.reverse.getLast?.elim false isBreak = progress.afterBreak := by
    rw [List.getLast?_reverse, afterBreak]
    cases progress.current.head? <;> rfl
  simp only [placedSlots, List.reverse_append, List.reverse_reverse, placedSlotsOfAll_append, last,
    List.append_assoc]

variable {progress next : Progress}

@[simp] theorem placedSlots_settleSpace (o : Orthography) (progress : Progress) :
    (progress.settleSpace o).placedSlots = progress.placedSlots := by
  have due : placedSlotsOfAll progress.afterBreak
      (dueSpace o progress.started progress.pendingSpace) = [] := by
    unfold dueSpace
    split <;> simp [placedSlotsOfAll, Part.placedSlots]
  have added := progress.placedSlots_append (dueSpace o progress.started progress.pendingSpace)
  rw [due, List.append_nil, reverse_dueSpace] at added
  rw [settleSpace_eq]
  exact added

theorem placedSlots_content (progress : Progress) (parts : List Part) :
    (progress.content parts).placedSlots =
      progress.placedSlots ++ placedSlotsOfAll progress.afterBreak parts :=
  progress.placedSlots_append parts

theorem placedSlots_add_boundary (progress : Progress) :
    (progress.add .boundary).placedSlots = progress.placedSlots := by
  have added := progress.placedSlots_append [.boundary]
  rwa [show placedSlotsOfAll progress.afterBreak [.boundary] = [] from rfl, List.append_nil]
    at added

theorem placedSlots_openGroup (progress : Progress) (optional : Bool) (position : Nat) :
    (progress.openGroup optional position).placedSlots = progress.placedSlots := by
  simp [openGroup, placedSlots, OpenGroup.placedSlots, placedSlotsOfAll, placedSlotsOfAlternatives]

theorem placedSlots_of_closeGroup? {optional : Bool}
    (closing : progress.closeGroup? optional = some next) :
    next.placedSlots = progress.placedSlots := by
  obtain ⟨top, outer, eq, -, rfl⟩ := exists_of_closeGroup? closing
  simp [placedSlots, eq, OpenGroup.placedSlots, placedSlotsOfAll_append, placedSlotsOfAll,
    Part.placedSlots, placedSlotsOfAlternatives_append, placedSlotsOfAlternatives]

theorem placedSlots_of_nextAlternative? (starting : progress.nextAlternative? = some next) :
    next.placedSlots = progress.placedSlots := by
  obtain ⟨top, outer, eq, rfl⟩ := exists_of_nextAlternative? starting
  simp [placedSlots, eq, OpenGroup.placedSlots, placedSlotsOfAll, placedSlotsOfAlternatives_append,
    placedSlotsOfAlternatives]

/-- Once a group is open, something has been written. -/
def StartedInGroups (progress : Progress) : Prop :=
  progress.groups ≠ [] → progress.started = true

end Progress

open Progress

section

variable {language : Language} {progress next : Progress} {position : Nat} {c : Char}
  {rest : List Char}

theorem ne_of_isSpace {sign : Char} (space : (Orthography.ofLanguage language).isSpace c = true)
    (listed : sign ∈ signs) : c ≠ sign := by
  rintro rfl
  exact not_isSpace_of_mem_signs language listed space

/-- What a step does to the slots: it closes one, opens one, or leaves them as they are. -/
inductive SlotStep (progress : Progress) (c : Char) (next : Progress) : Prop where
  | closes {start : Nat} {name : List Char} : progress.slot = some (start, name) → c = '}' →
      next.slot = none →
      next.placedSlots = progress.placedSlots ++ [⟨trim name.reverse, progress.afterBreak⟩] →
      SlotStep progress c next
  | opens : progress.slot = none → c = '{' → next.slot.isSome = true →
      next.placedSlots = progress.placedSlots → SlotStep progress c next
  | keeps : c ≠ '{' → next.slot.isSome = progress.slot.isSome →
      next.placedSlots = progress.placedSlots → SlotStep progress c next

theorem slot_of_closeGroup? {optional : Bool} (closing : progress.closeGroup? optional = some next) :
    next.slot = progress.slot := by
  obtain ⟨top, outer, -, -, rfl⟩ := exists_of_closeGroup? closing
  rfl

theorem ReadStep.slotStep
    (step : ReadStep (.ofLanguage language) progress position c rest (.ok next)) :
    SlotStep progress c next := by
  have same := placedSlots_settleSpace (.ofLanguage language) progress
  have slot := slot_settleSpace (.ofLanguage language) progress
  cases step with
  | collect inside plain =>
    refine .keeps (fun sign => plain (by simp [sign, signs])) ?_ rfl
    rw [inside]
    rfl
  | closeSlot inside sign _ => exact .closes inside sign rfl (placedSlots_content _ _)
  | blank _ space => exact .keeps (ne_of_isSpace space (by decide)) rfl rfl
  | openSlot outside sign => exact .opens outside sign rfl same
  | openGroup optional _ sign =>
    refine .keeps ?_ (congrArg _ slot) ((placedSlots_openGroup ..).trans same)
    rw [sign]
    cases optional <;> decide
  | @closeGroup optional closed _ sign closing =>
    refine .keeps ?_ ?_ ?_
    · rw [sign]
      cases optional <;> decide
    · rw [← slot, ← slot_of_closeGroup? closing]
      split <;> rfl
    · rw [← same, ← placedSlots_of_closeGroup? closing]
      split
      · exact placedSlots_add_boundary closed
      · rfl
  | bar _ sign starting =>
    refine .keeps (by rw [sign]; decide) ?_ ((placedSlots_of_nextAlternative? starting).trans same)
    obtain ⟨top, outer, -, rfl⟩ := exists_of_nextAlternative? starting
    exact congrArg _ slot
  | drop _ plain _ _ =>
    exact .keeps (fun sign => plain (by simp [sign, signs])) (congrArg _ slot) same
  | letter _ plain _ _ =>
    refine .keeps (fun sign => plain (by simp [sign, signs])) (congrArg _ slot) ?_
    rw [placedSlots_content, placedSlotsOfAll_map_ofChar, List.append_nil, same]

theorem SlotStep.slotCount_eq (step : SlotStep progress c next) :
    next.slotCount = progress.slotCount + [c].count '{' := by
  unfold slotCount
  cases step with
  | closes inside sign closed placed =>
    rw [placed, closed, inside, sign]
    simp
  | opens outside sign opened placed =>
    obtain ⟨found, eq⟩ := Option.isSome_iff_exists.1 opened
    rw [placed, outside, eq, sign]
    simp
  | keeps other same placed =>
    have equal : next.slot.toList.length = progress.slot.toList.length := by
      revert same
      cases next.slot <;> cases progress.slot <;> simp
    rw [placed, equal, List.count_singleton, if_neg (by simpa using other)]
    rfl

theorem SlotStep.placedSlots_prefix (step : SlotStep progress c next) :
    progress.placedSlots <+: next.placedSlots := by
  cases step with
  | closes _ _ _ placed => exact placed ▸ List.prefix_append ..
  | opens _ _ _ placed | keeps _ _ placed => exact placed ▸ List.prefix_refl _

theorem Progress.StartedInGroups.of_step {o : Orthography} (started : progress.StartedInGroups)
    (step : ReadStep o progress position c rest (.ok next)) : next.StartedInGroups := by
  have settled : (progress.settleSpace o).StartedInGroups := by
    rw [settleSpace_eq]
    exact started
  cases step with
  | collect _ _ | blank _ _ => exact started
  | closeSlot _ _ _ | openGroup _ _ _ | letter _ _ _ _ => exact fun _ => rfl
  | openSlot _ _ | drop _ _ _ _ => exact settled
  | @closeGroup optional closed _ _ closing =>
    obtain ⟨top, outer, eq, -, rfl⟩ := exists_of_closeGroup? closing
    have written := settled (by rw [eq]; exact List.cons_ne_nil _ _)
    split
    · exact fun _ => rfl
    · exact fun _ => written
  | bar _ _ starting =>
    obtain ⟨top, outer, eq, rfl⟩ := exists_of_nextAlternative? starting
    exact fun _ => settled (by rw [eq]; exact List.cons_ne_nil _ _)

theorem startedInGroups_empty : ({} : Progress).StartedInGroups := fun opened => absurd rfl opened

/-- Reading a text reads its front first. -/
theorem exists_read_append {progress final : Progress} {front : List Char}
    (started : progress.StartedInGroups)
    (reading : read (.ofLanguage language) progress position (front ++ rest) = .ok final) :
    ∃ next reached, read (.ofLanguage language) next reached rest = .ok final ∧
      next.StartedInGroups ∧ next.slotCount = progress.slotCount + front.count '{' := by
  induction front generalizing progress position with
  | nil => exact ⟨progress, position, reading, started, rfl⟩
  | cons c front ih =>
    rw [List.cons_append, read_cons] at reading
    obtain ⟨second, first, reading⟩ := exists_of_bind_eq_ok reading
    have step := first ▸ readStep_readChar (.ofLanguage language) progress position c (front ++ rest)
    obtain ⟨next, reached, further, kept, count⟩ := ih (started.of_step step) reading
    refine ⟨next, reached, further, kept, ?_⟩
    rw [count, step.slotStep.slotCount_eq, Nat.add_assoc, ← List.count_append,
      List.singleton_append]

theorem placedSlots_prefix_of_read {progress final : Progress} {text : List Char}
    (reading : read (.ofLanguage language) progress position text = .ok final) :
    progress.placedSlots <+: final.placedSlots := by
  refine @read_preserves _ (fun middle => progress.placedSlots <+: middle.placedSlots)
    (fun middle position c rest next kept step => ?_) _ _ _ _ (List.prefix_refl _) reading
  have outcome := step ▸ readStep_readChar (.ofLanguage language) middle position c rest
  exact kept.trans outcome.slotStep.placedSlots_prefix

/-- A brace that is read opens a slot, which is named by what stands up to the closing brace. -/
theorem getElem?_placedSlots_of_read {progress final : Progress} {after : List Char}
    (closed : final.slot = none)
    (reading : read (.ofLanguage language) progress position ('{' :: after) = .ok final) :
    final.placedSlots[progress.slotCount]? =
      some ⟨trim (after.takeWhile (· != '}')),
        (progress.settleSpace (.ofLanguage language)).afterBreak⟩ := by
  rw [read_cons] at reading
  obtain ⟨opened, first, reading⟩ := exists_of_bind_eq_ok reading
  cases outside : progress.slot with
  | some found =>
    -- In the name of a slot a brace is an error.
    exfalso
    rw [readChar_of_inside outside] at first
    simp [readInSlot] at first
  | none =>
    rw [readChar_of_outside outside, readOutside_openSlot] at first
    cases first
    -- The text ends outside of slots, so the slot is closed at some point.
    obtain ⟨inner, rest, rfl, plain, named⟩ := exists_inner_of_read closed rfl reading
    have inside : ({ progress.settleSpace (.ofLanguage language) with
        slot := some (position, []) } : Progress).slot = some (position, []) := rfl
    obtain ⟨collected, same, rfl⟩ :=
      runs_inner (o := .ofLanguage language) inside plain (position + '{'.utf8Size) ('}' :: rest)
    rw [same, read_cons] at reading
    obtain ⟨next, last, reading⟩ := exists_of_bind_eq_ok reading
    have nonblank : ¬trim inner = [] := by simpa [trim_eq_nil_iff] using named
    rw [readChar_of_inside rfl, readInSlot, if_pos rfl] at last
    simp only [List.append_nil, List.reverse_reverse, if_neg nonblank, Except.ok.injEq] at last
    have placed : next.placedSlots = progress.placedSlots ++ [⟨trim inner,
        (progress.settleSpace (.ofLanguage language)).afterBreak⟩] := by
      rw [← last, placedSlots_content, ← placedSlots_settleSpace (.ofLanguage language) progress]
      rfl
    -- What is read after it leaves the slot where it is.
    obtain ⟨later, whole⟩ := placedSlots_prefix_of_read reading
    have absent : '}' ∉ inner := fun member => plain _ member (by decide)
    rw [takeWhile_ne_append absent, ← whole, placed, slotCount, outside]
    simp

/-- From a sign on, a phrase that compiles is read after the slots that have been opened before. -/
theorem exists_read_of_compile {phrase : String} {pattern : Pattern} {first last : Char}
    {before middle after : List Char} (head : isBlank first = false) (solid : isBlank last = false)
    (compiled : compile (.ofLanguage language) phrase = .ok pattern)
    (layout : phrase.toList = before ++ first :: middle ++ last :: after) :
    ∃ (progress final : Progress) (position : Nat) (rest : List Char),
      read (.ofLanguage language) progress position (first :: (middle ++ last :: rest)) = .ok final ∧
      progress.StartedInGroups ∧ progress.slotCount = before.count '{' ∧ final.slot = none ∧
      final.placedSlots = placedSlotsOfAll false pattern.parts := by
  obtain ⟨final, reading, closed, shut, -, rfl⟩ := compile_eq_ok_iff.1 compiled
  rw [layout, trim_append head solid] at reading
  obtain ⟨progress, position, further, started, count⟩ :=
    exists_read_append startedInGroups_empty reading
  refine ⟨progress, final, position, _, further, started, ?_, closed, ?_⟩
  · -- Trimming takes no brace off the front.
    rw [count, count_dropWhile_isBlank (by decide)]
    exact Nat.zero_add _
  · rw [Progress.placedSlots, shut]
    rfl

/-- Where braces enclose a name in a phrase, its pattern has a slot of that name. -/
theorem getElem?_slotNames_of_compile {phrase : String} {pattern : Pattern}
    {before name after : List Char} (compiled : compile (.ofLanguage language) phrase = .ok pattern)
    (layout : phrase.toList = before ++ '{' :: name ++ '}' :: after) (plain : '}' ∉ name) :
    (slotNamesOfAll pattern.parts)[before.count '{']? = some (trim name) := by
  obtain ⟨progress, final, position, rest, reading, -, number, closed, slots⟩ :=
    exists_read_of_compile (by decide) (by decide) compiled layout
  have found := getElem?_placedSlots_of_read closed reading
  rw [takeWhile_ne_append plain, number, slots] at found
  rw [← map_name_placedSlotsOfAll false, List.getElem?_map, found, Option.map_some]

end

end Template

end Phrasebook
