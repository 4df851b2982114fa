import Mathlib.Data.List.Chain
import Phrasebook.Proofs.CapturedSpans
import Phrasebook.Proofs.SlotOrder

/-! Which slot of a pattern has captured what.

A slot can occur under one name several times, and groups put the parts of an alternative before
what follows them. So the parts are numbered before they are matched: a run of the matcher is
known by the slots it has captured, each with its number in the pattern.
-/

set_option autoImplicit false

namespace Phrasebook

open Text Part

/-- A part of a pattern, the number of slots before it, and whether a break comes right before it. -/
structure PlacedPart where
  number : Nat
  afterBreak : Bool
  part : Part

namespace PlacedPart

def place (number : Nat) (afterBreak : Bool) : List Part → List PlacedPart
  | [] => []
  | part :: rest =>
    ⟨number, afterBreak, part⟩ :: place (number + part.slotNames.length) part.isBreak rest

def placeAlternatives (number : Nat) : List (List Part) → List (List PlacedPart)
  | [] => []
  | alternative :: others =>
    place number false alternative ::
      placeAlternatives (number + (slotNamesOfAll alternative).length) others

/-- The parts of a pattern, numbered from the first slot on. -/
def ofParts (parts : List Part) : List PlacedPart := place 0 false parts

theorem map_part_place (number : Nat) (afterBreak : Bool) (parts : List Part) :
    (place number afterBreak parts).map part = parts := by
  induction parts generalizing number afterBreak with
  | nil => rfl
  | cons part rest ih => rw [place, List.map_cons, ih]

theorem map_part_placeAlternatives (number : Nat) (alternatives : List (List Part)) :
    (placeAlternatives number alternatives).map (List.map part) = alternatives := by
  induction alternatives generalizing number with
  | nil => rfl
  | cons alternative others ih => rw [placeAlternatives, List.map_cons, ih, map_part_place]

/-- Numbered parts agree with the slots of the pattern, and their breaks with the parts before
them. -/
structure Fits (slots : List PlacedSlot) (parts : List PlacedPart) : Prop where
  slots : ∀ placed ∈ parts,
    placed.part.placedSlots placed.afterBreak <+: slots.drop placed.number
  breaks : parts.IsChain fun first second => second.afterBreak = true → first.part.isBreak = true

namespace Fits

variable {slots : List PlacedSlot} {parts rest : List PlacedPart} {placed : PlacedPart}

theorem tail (fits : Fits slots (placed :: rest)) : Fits slots rest :=
  ⟨fun other member => fits.slots other (List.mem_cons_of_mem _ member), fits.breaks.tail⟩

theorem getElem?_eq {number : Nat} {afterBreak : Bool} {name : List Char}
    (fits : Fits slots (⟨number, afterBreak, .slot name⟩ :: rest)) :
    slots[number]? = some ⟨name, afterBreak⟩ := by
  have listed := fits.slots _ (List.mem_cons_self ..)
  rwa [placedSlots, List.singleton_prefix_iff_head?_eq_some, List.head?_drop] at listed

/-- What stands in a list after a piece of a known length. -/
theorem prefix_drop_add {first second : List PlacedSlot} {number count : Nat}
    (included : first ++ second <+: slots.drop number) (length : first.length = count) :
    second <+: slots.drop (number + count) := by
  obtain ⟨later, whole⟩ := included
  rw [← List.drop_drop, ← whole, List.append_assoc, ← length, List.drop_left]
  exact List.prefix_append ..

theorem place {number : Nat} {afterBreak : Bool} {parts : List Part}
    (included : placedSlotsOfAll afterBreak parts <+: slots.drop number) :
    Fits slots (place number afterBreak parts) := by
  induction parts generalizing number afterBreak with
  | nil => exact ⟨by simp [PlacedPart.place], .nil⟩
  | cons part rest ih =>
    rw [placedSlotsOfAll] at included
    have later := ih (prefix_drop_add included (length_placedSlots afterBreak part))
    refine ⟨List.forall_mem_cons.2 ⟨(List.prefix_append ..).trans included, later.slots⟩,
      List.isChain_cons.2 ⟨fun next head => ?_, later.breaks⟩⟩
    cases rest with
    | nil => simp [PlacedPart.place] at head
    | cons second others =>
      cases head
      exact id

theorem placeAlternatives {number : Nat} {alternatives : List (List Part)}
    (included : placedSlotsOfAlternatives alternatives <+: slots.drop number) :
    ∀ alternative ∈ placeAlternatives number alternatives, Fits slots alternative ∧
      ∀ placed, alternative.head? = some placed → placed.afterBreak = false := by
  induction alternatives generalizing number with
  | nil => simp [PlacedPart.placeAlternatives]
  | cons alternative others ih =>
    rw [placedSlotsOfAlternatives] at included
    refine List.forall_mem_cons.2 ⟨⟨place ((List.prefix_append ..).trans included),
      fun placed head => ?_⟩, ih (prefix_drop_add included (length_placedSlotsOfAll false alternative))⟩
    cases alternative with
    | nil => simp [PlacedPart.place] at head
    | cons part rest =>
      cases head
      rfl

/-- Only after a break is one known to come before. -/
theorem isBreak_of_afterBreak {next : PlacedPart} (fits : Fits slots (placed :: rest))
    (head : rest.head? = some next) (broken : next.afterBreak = true) :
    placed.part.isBreak = true :=
  (List.isChain_cons.1 fits.breaks).1 next head broken

/-- An alternative takes the place of its group, and no break is known before either. -/
theorem choose {number : Nat} {afterBreak optional : Bool} {alternatives : List (List Part)}
    {alternative : List PlacedPart}
    (fits : Fits slots (⟨number, afterBreak, .group optional alternatives⟩ :: rest))
    (member : alternative ∈ PlacedPart.placeAlternatives number alternatives) :
    Fits slots (alternative ++ rest) ∧
      ∀ placed, (alternative ++ rest).head? = some placed → placed.afterBreak = false := by
  have inside := fits.slots _ (List.mem_cons_self ..)
  rw [placedSlots] at inside
  obtain ⟨first, head⟩ := placeAlternatives inside alternative member
  have second : ∀ placed, rest.head? = some placed → placed.afterBreak = false := by
    intro placed next
    rw [← Bool.not_eq_true]
    intro broken
    exact absurd (fits.isBreak_of_afterBreak next broken) (by simp [isBreak])
  -- Where the alternative ends and the rest starts, the second one has no break before it.
  refine ⟨⟨List.forall_mem_append.2 ⟨first.slots, fits.tail.slots⟩,
    List.isChain_append.2 ⟨first.breaks, fits.tail.breaks, fun _ _ placed next broken => ?_⟩⟩,
    fun placed next => ?_⟩
  · rw [second placed next] at broken
    simp at broken
  · rw [List.head?_append] at next
    cases front : alternative.head? with
    | some other =>
      rw [front] at next
      cases next
      exact head _ front
    | none =>
      rw [front] at next
      exact second placed next

theorem ofParts (parts : List Part) :
    Fits (placedSlotsOfAll false parts) (PlacedPart.ofParts parts) :=
  place (List.prefix_refl _)

end Fits

end PlacedPart

open PlacedPart

/-- A slot that has captured something, by its number in the pattern. -/
structure SlotCapture where
  number : Nat
  span : CapturedSpan
  value : EntityValue
  deriving Repr, DecidableEq

/-- What a match has after the captures of its slots. -/
def SlotCapture.recorded (captures : List SlotCapture) : Captures :=
  captures.foldr
    (fun capture found => found.addIfNew (String.ofList capture.span.slot) capture.value) []

namespace Matcher

variable {m : Matcher}

/-- Numbered parts can be matched from a place on, with these captures. -/
inductive Run (m : Matcher) : List PlacedPart → Cursor → List SlotCapture → Prop where
  | done {cursor : Cursor} : (m.settle cursor).rest.all m.orthography.isSeparator = true →
      Run m [] cursor []
  /-- Pass a part that captures nothing. -/
  | pass {placed : PlacedPart} {rest : List PlacedPart} {cursor : Cursor} {passage : Passage}
      {captures : List SlotCapture} : passage ∈ m.passages placed.part (m.settle cursor) →
      passage.capture = none → Run m rest passage.next captures →
      Run m (placed :: rest) cursor captures
  | capture {number : Nat} {afterBreak : Bool} {name : List Char} {rest : List PlacedPart}
      {cursor start : Cursor} {taken : List Char} {value : EntityValue}
      {captures : List SlotCapture} :
      start = (m.settle cursor).skip m.orthography.isSeparator →
      taken ∈ m.candidates (m.entityOf name) start.rest →
      m.capture? (m.entityOf name) taken = some value →
      Run m rest (start.forward taken.length) captures →
      Run m (⟨number, afterBreak, .slot name⟩ :: rest) cursor
        (⟨number, ⟨name, start.offset, m.orthography.trimEnd taken⟩, value⟩ :: captures)
  | choose {number : Nat} {afterBreak optional : Bool} {alternatives : List (List Part)}
      {alternative rest : List PlacedPart} {cursor : Cursor} {captures : List SlotCapture} :
      alternative ∈ placeAlternatives number alternatives →
      Run m (alternative ++ rest) (m.settle cursor) captures →
      Run m (⟨number, afterBreak, .group optional alternatives⟩ :: rest) cursor captures
  | drop {number : Nat} {afterBreak : Bool} {alternatives : List (List Part)}
      {rest : List PlacedPart} {cursor : Cursor} {captures : List SlotCapture} :
      Run m rest (m.settle cursor) captures →
      Run m (⟨number, afterBreak, .group true alternatives⟩ :: rest) cursor captures

/-- Every match is a run that has its captures. -/
theorem exists_run {parts : List PlacedPart} {cursor : Cursor} {found : Match}
    (matched : m.matchParts (parts.map part) cursor = some found) :
    ∃ captures, m.Run parts cursor captures ∧ SlotCapture.recorded captures = found.captures := by
  -- An alternative is put before the rest, so what is left is not a tail of the parts.
  induction size : sizeOf (parts.map part) using Nat.strong_induction_on
    generalizing parts cursor found with
  | _ bound ih =>
  cases parts with
  | nil =>
    rw [List.map_nil, matchParts_nil] at matched
    split at matched
    · next all =>
      cases matched
      exact ⟨[], .done all, rfl⟩
    · simp at matched
  | cons placed rest =>
    obtain ⟨number, afterBreak, part⟩ := placed
    have shorter : sizeOf (rest.map PlacedPart.part) < bound := by
      rw [← size, List.map_cons, List.cons.sizeOf_spec]
      omega
    rw [List.map_cons] at matched
    by_cases plain : part.isPlain = true
    · rw [matchParts_cons m plain] at matched
      obtain ⟨passage, member, eq⟩ := List.exists_of_findSome?_eq_some matched
      obtain ⟨further, tail, rfl⟩ := Option.map_eq_some_iff.1 eq
      obtain ⟨captures, run, recorded⟩ := ih _ shorter tail rfl
      rcases passage_captures member with ⟨name, rfl, captured⟩ | ⟨nothing, -⟩
      · obtain ⟨taken, tried, takes⟩ := List.mem_filterMap.1 captured
        obtain ⟨value, took, rfl⟩ := Option.map_eq_some_iff.1 takes
        refine ⟨_, .capture rfl tried took run, ?_⟩
        show (SlotCapture.recorded captures).addIfNew (String.ofList name) value =
          further.captures.addIfNew (String.ofList name) value
        rw [recorded]
      · refine ⟨captures, .pass member nothing run, ?_⟩
        rw [recorded, Passage.extend, nothing]
        rfl
    · cases part with
      | letter c | space | boundary | slot name => simp [isPlain] at plain
      | group optional alternatives =>
        rw [matchParts_group] at matched
        cases chosen : alternatives.findSome? fun alternative =>
            m.matchParts (alternative ++ rest.map PlacedPart.part) (m.settle cursor) with
        | some other =>
          rw [chosen] at matched
          cases matched
          obtain ⟨alternative, member, tail⟩ := List.exists_of_findSome?_eq_some chosen
          have smaller : sizeOf (alternative ++ rest.map PlacedPart.part) <
              sizeOf (Part.group optional alternatives :: rest.map PlacedPart.part) :=
            (Expands.choose member).sizeOf_lt
          rw [← map_part_placeAlternatives number alternatives] at member
          obtain ⟨numbered, listed, rfl⟩ := List.mem_map.1 member
          rw [← List.map_append] at tail smaller
          obtain ⟨captures, run, recorded⟩ := ih _ (size ▸ smaller) tail rfl
          exact ⟨captures, .choose listed run, recorded⟩
        | none =>
          rw [chosen, Option.none_or] at matched
          split at matched
          · next absent =>
            subst absent
            obtain ⟨captures, run, recorded⟩ := ih _ shorter matched rfl
            exact ⟨captures, .drop run, recorded⟩
          · simp at matched

theorem exists_run_of_matchText {parts : List Part} {text : List Char} {found : Match}
    (matched : m.matchText parts text = some found) :
    ∃ captures, m.Run (PlacedPart.ofParts parts) (.atStart text) captures ∧
      SlotCapture.recorded captures = found.captures := by
  apply exists_run
  rw [PlacedPart.ofParts, map_part_place]
  exact matched

theorem not_of_head?_skip {cursor : Cursor} {skipped : Char → Bool} {c : Char}
    (head : (cursor.skip skipped).rest.head? = some c) : skipped c = false := by
  have stopped := List.head?_dropWhile_not skipped cursor.rest
  rw [show (List.dropWhile _ _).head? = some c from head] at stopped
  exact stopped

/-- What is captured of a text that a slot tries stands where the slot starts. -/
theorem exists_text_eq_of_tried {entity : Entity} {start : Cursor} {taken : List Char}
    (tried : taken ∈ m.candidates entity start.rest) :
    ∃ after, start.text = start.before.reverse ++ m.orthography.trimEnd taken ++ after := by
  obtain ⟨after, whole⟩ := (m.orthography.trimEnd_prefix taken).trans (prefix_of_mem_candidates tried)
  exact ⟨after, by rw [Cursor.text, ← whole, List.append_assoc]⟩

/-- The captures of a run are those of slots of the pattern, each from its piece of the text. -/
theorem Run.captured {slots : List PlacedSlot} {parts : List PlacedPart} {cursor : Cursor}
    {captures : List SlotCapture} (run : m.Run parts cursor captures) (fits : Fits slots parts) :
    ∀ capture ∈ captures,
      (slots[capture.number]?).map PlacedSlot.name = some capture.span.slot ∧
        m.Captured capture.span capture.value ∧ capture.span.IsIn cursor.text := by
  induction run with
  | done _ => simp
  | pass member _ _ ih =>
    have same := (passage_goes_on member).1
    rw [text_settle] at same
    exact same ▸ ih fits.tail
  | choose member _ ih =>
    rw [← m.text_settle]
    exact ih (fits.choose member).1
  | drop _ ih =>
    rw [← m.text_settle]
    exact ih fits.tail
  | @capture number afterBreak name rest cursor start taken value captures here tried took _ ih =>
    have same : start.text = cursor.text := by rw [here, Cursor.text_skip, text_settle]
    have solid : ∀ c, start.rest.head? = some c → m.orthography.isSeparator c = false :=
      fun c head => not_of_head?_skip (here ▸ head)
    obtain ⟨after, whole⟩ := exists_text_eq_of_tried tried
    have others := ih fits.tail
    rw [Cursor.text_forward, same] at others
    refine List.forall_mem_cons.2 ⟨⟨?_, captured_of_capture? tried solid took, ?_⟩, others⟩
    · rw [fits.getElem?_eq, Option.map_some]
    · exact ⟨_, after, same ▸ whole, Text.byteLength_reverse _⟩

/-- Something that holds of a slot in every match: of whatever the slot has captured, and of the
text that it has captured it from. -/
def EachCapture (m : Matcher) (parts : List Part) (number : Nat)
    (holds : List Char → SlotCapture → Prop) : Prop :=
  ∀ text found, m.matchText parts text = some found →
    (∃ captures, m.Run (PlacedPart.ofParts parts) (.atStart text) captures ∧
      SlotCapture.recorded captures = found.captures) ∧
    ∀ captures, m.Run (PlacedPart.ofParts parts) (.atStart text) captures →
      ∀ capture ∈ captures, capture.number = number → holds text capture

theorem EachCapture.of_run {parts : List Part} {number : Nat} {holds : List Char → SlotCapture → Prop}
    (each : ∀ text captures, m.Run (PlacedPart.ofParts parts) (.atStart text) captures →
      ∀ capture ∈ captures, capture.number = number → holds text capture) :
    m.EachCapture parts number holds :=
  fun text _ matched => ⟨exists_run_of_matchText matched, each text⟩

end Matcher

end Phrasebook
