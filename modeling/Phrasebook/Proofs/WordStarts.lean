import Phrasebook.Proofs.SlotRuns

/-! Slots that start with a word.

A bracket that closes an optional group and is directly followed by a slot, or has whitespace
before the next slot, puts a break before the slot. A break is only passed where a word can start,
so the group never takes the start of the word that the slot goes on with.
-/

set_option autoImplicit false

namespace Phrasebook

open Text Part PlacedPart

namespace Template

open Progress

namespace Progress

/-- A break comes before the next part, in a language that puts spaces between words. -/
def IsParted (progress : Progress) : Prop :=
  progress.pendingSpace = true ∨ progress.afterBreak = true

variable {progress : Progress}

theorem afterBreak_settleSpace {o : Orthography} (spacing : o.hasWordSpacing = true)
    (started : progress.started = true) (parted : progress.IsParted) :
    (progress.settleSpace o).afterBreak = true := by
  rw [settleSpace_eq, afterBreak, dueSpace, started, spacing]
  rcases parted with pending | broken
  · rw [pending]
    rfl
  · cases progress.pendingSpace
    · exact broken
    · rfl

theorem slotCount_settleSpace (o : Orthography) (progress : Progress) :
    (progress.settleSpace o).slotCount = progress.slotCount := by
  rw [slotCount, slotCount, placedSlots_settleSpace, slot_settleSpace]

end Progress

section

variable {language : Language} {progress final : Progress} {position : Nat} {rest : List Char}

/-- After an optional group a break is marked where a slot comes next. -/
theorem parted_of_readChar_closer {next : Progress} (started : progress.StartedInGroups)
    (closes : readChar (.ofLanguage language) progress position ']' rest = .ok next) :
    next.slot = none ∧ next.started = true ∧ (slotFollows rest = true → next.IsParted) := by
  cases outside : progress.slot with
  | some found =>
    rw [readChar_of_inside outside] at closes
    simp [readInSlot] at closes
  | none =>
    rw [readChar_of_outside outside, show ']' = closer true from rfl, readOutside_closer,
      readCloser] at closes
    cases closing : (progress.settleSpace (.ofLanguage language)).closeGroup? true with
    | none => simp [closing] at closes
    | some closed =>
      obtain ⟨top, outer, eq, -, rfl⟩ := exists_of_closeGroup? closing
      have written : progress.started = true := by
        rw [groups_settleSpace] at eq
        exact started (by rw [eq]; exact List.cons_ne_nil _ _)
      have kept : (progress.settleSpace (.ofLanguage language)).slot = none ∧
          (progress.settleSpace (.ofLanguage language)).started = true := by
        rw [settleSpace_eq]
        exact ⟨outside, written⟩
      rw [closing, Bool.true_and] at closes
      cases closes
      -- The boundary is added where a slot is seen to come next.
      split
      · exact ⟨kept.1, rfl, fun _ => .inr rfl⟩
      · next absent => exact ⟨kept.1, kept.2, fun follows => absurd follows absent⟩

/-- Whitespace parts what comes after it, and dropped signs keep it parted. -/
theorem exists_read_gap {gap : List Char}
    (spacing : (Orthography.ofLanguage language).hasWordSpacing = true)
    (dropped : ∀ c ∈ gap, (Orthography.ofLanguage language).isSpace c = true ∨
      (Orthography.ofLanguage language).isPatternPunctuation c = true)
    (outside : progress.slot = none) (started : progress.started = true)
    (parted : progress.IsParted ∨ ∃ c ∈ gap, (Orthography.ofLanguage language).isSpace c = true)
    (reading : read (.ofLanguage language) progress position (gap ++ rest) = .ok final) :
    ∃ next reached, read (.ofLanguage language) next reached rest = .ok final ∧
      next.started = true ∧ next.slotCount = progress.slotCount ∧ next.IsParted := by
  -- Either a break has been read already, or whitespace is still to come.
  induction gap generalizing progress position with
  | nil => exact ⟨progress, position, reading, started, rfl, parted.resolve_right (by simp)⟩
  | cons c gap ih =>
    obtain ⟨here, others⟩ := List.forall_mem_cons.1 dropped
    have plain : c ∉ signs := by
      rcases here with space | sign
      · exact fun listed => not_isSpace_of_mem_signs language listed space
      · exact not_mem_signs_of_isPatternPunctuation sign
    rw [List.cons_append, read_cons, readChar_of_outside outside,
      readOutside_of_not_mem_signs plain] at reading
    by_cases space : (Orthography.ofLanguage language).isSpace c = true
    · rw [if_pos space] at reading
      have further : read (.ofLanguage language) { progress with pendingSpace := true }
          (position + c.utf8Size) (gap ++ rest) = .ok final := reading
      have due : ({ progress with pendingSpace := true } : Progress).IsParted ∨
          ∃ d ∈ gap, (Orthography.ofLanguage language).isSpace d = true := .inl (.inl rfl)
      exact @ih { progress with pendingSpace := true } _ others outside started due further
    · rw [if_neg space, if_pos (here.resolve_left space)] at reading
      have kept : (progress.settleSpace (.ofLanguage language)).IsParted ∨
          ∃ d ∈ gap, (Orthography.ofLanguage language).isSpace d = true := by
        rcases parted with parted | ⟨d, member, blank⟩
        · exact .inl (.inr (afterBreak_settleSpace spacing started parted))
        · rcases List.mem_cons.1 member with rfl | later
          · exact absurd blank space
          · exact .inr ⟨d, later, blank⟩
      obtain ⟨next, reached, further, written, count, parted⟩ :=
        ih others (by rw [slot_settleSpace, outside]) (by rw [settleSpace_eq]; exact started) kept
          reading
      exact ⟨next, reached, further, written, count.trans (slotCount_settleSpace _ _), parted⟩

/-- A slot after an optional group comes after a break, if there is nothing between them or
whitespace is. -/
theorem getElem?_placedSlots_of_compile {phrase : String} {pattern : Pattern}
    {before gap after : List Char}
    (spacing : (Orthography.ofLanguage language).hasWordSpacing = true)
    (compiled : compile (.ofLanguage language) phrase = .ok pattern)
    (layout : phrase.toList = before ++ ']' :: gap ++ '{' :: after)
    (dropped : ∀ c ∈ gap, (Orthography.ofLanguage language).isSpace c = true ∨
      (Orthography.ofLanguage language).isPatternPunctuation c = true)
    (parted : gap = [] ∨ ∃ c ∈ gap, (Orthography.ofLanguage language).isSpace c = true) :
    ∃ name, (placedSlotsOfAll false pattern.parts)[before.count '{']? = some ⟨name, true⟩ := by
  obtain ⟨first, final, position, rest, reading, started, count, closed, slots⟩ :=
    exists_read_of_compile (by decide) (by decide) compiled layout
  rw [read_cons] at reading
  obtain ⟨second, closes, reading⟩ := exists_of_bind_eq_ok reading
  have step := closes ▸ readStep_readChar (.ofLanguage language) first position ']' (gap ++ '{' :: rest)
  obtain ⟨outside, written, follows⟩ := parted_of_readChar_closer started closes
  have ahead : second.IsParted ∨ ∃ c ∈ gap, (Orthography.ofLanguage language).isSpace c = true := by
    refine parted.imp_left fun nothing => follows ?_
    rw [nothing]
    rfl
  obtain ⟨third, _, reading, written, same, parted⟩ :=
    exists_read_gap spacing dropped outside written ahead reading
  have found := getElem?_placedSlots_of_read closed reading
  have number : third.slotCount = before.count '{' := by
    rw [same, step.slotStep.slotCount_eq, count]
    rfl
  rw [number, afterBreak_settleSpace spacing written parted, slots] at found
  exact ⟨_, found⟩

end

end Template

/-- Nothing comes before a place, or whitespace or punctuation right before it. -/
def Cursor.FollowsGap (o : Orthography) (cursor : Cursor) : Prop :=
  ∀ c, cursor.before.head? = some c → o.isSpace c = true ∨ o.isInputPunctuation c = true

/-- A span starts at the start of the text, or right after whitespace or punctuation. -/
def CapturedSpan.StartsWord (o : Orthography) (span : CapturedSpan) (text : List Char) : Prop :=
  ∃ before after, text = before ++ span.text ++ after ∧ byteLength before = span.start ∧
    ∀ c, before.getLast? = some c → o.isSpace c = true ∨ o.isInputPunctuation c = true

namespace Cursor

variable {o : Orthography} {cursor : Cursor}

theorem FollowsGap.skip {skipped : Char → Bool}
    (gap : ∀ c, skipped c = true → o.isSpace c = true ∨ o.isInputPunctuation c = true)
    (follows : cursor.FollowsGap o ∨ cursor.rest.head?.any skipped = true) :
    (cursor.skip skipped).FollowsGap o := by
  intro c head
  rw [Cursor.skip, List.head?_append, List.head?_reverse] at head
  cases last : (cursor.rest.takeWhile skipped).getLast? with
  | some d =>
    rw [last] at head
    cases head
    exact gap c (List.mem_takeWhile_imp (List.mem_of_getLast? last))
  | none =>
    rw [last] at head
    refine follows.elim (fun before => before c head) fun ahead => ?_
    -- Something is skipped where the first character is.
    obtain ⟨d, first, solid⟩ := (Option.any_eq_true _ _).1 ahead
    obtain ⟨rest, eq⟩ := List.head?_eq_some_iff.1 first
    simp [eq, solid] at last

end Cursor

theorem Orthography.isSpace_or_isInputPunctuation {o : Orthography} {c : Char}
    (separator : o.isSeparator c = true) : o.isSpace c = true ∨ o.isInputPunctuation c = true := by
  by_cases space : c ∈ o.whitespace
  · exact .inl ((o.isSpace_iff c).2 (.inl space))
  · exact .inr ((o.isInputPunctuation_iff c).2 ⟨((o.isSeparator_iff c).1 separator).resolve_left space,
      space⟩)

namespace Matcher

variable {m : Matcher} {cursor : Cursor}

/-- Where a slot would start, a word can start. -/
def IsReady (m : Matcher) (cursor : Cursor) : Prop :=
  ((m.settle cursor).skip m.orthography.isSeparator).rest ≠ [] →
    ((m.settle cursor).skip m.orthography.isSeparator).FollowsGap m.orthography

theorem isReady_of_followsGap (follows : cursor.FollowsGap m.orthography) : m.IsReady cursor := by
  have settled : (m.settle cursor).FollowsGap m.orthography := by
    rw [settle]
    split
    · exact .skip (fun _ => Orthography.isSpace_or_isInputPunctuation)
        (.inl (.skip (fun _ => .inr) (.inl follows)))
    · exact follows
  exact fun _ => .skip (fun _ => Orthography.isSpace_or_isInputPunctuation) (.inl settled)

theorem isReady_of_isWordBoundary (spacing : m.orthography.hasWordSpacing = true)
    (boundary : m.orthography.isWordBoundary (m.settle cursor) = true) :
    m.IsReady (m.settle cursor) := by
  intro ahead
  rw [settle_settle] at ahead ⊢
  refine .skip (fun _ => Orthography.isSpace_or_isInputPunctuation) ?_
  simp only [Orthography.isWordBoundary, spacing, Bool.not_true, Bool.false_or,
    Bool.or_eq_true] at boundary
  refine boundary.imp (fun before c head => ?_) fun after => ?_
  · rw [head] at before
    exact Orthography.isSpace_or_isInputPunctuation before
  · cases eq : (m.settle cursor).rest with
    | nil => simp [Cursor.skip, eq] at ahead
    | cons c rest => simpa [eq] using after

/-- After a break a word can start. -/
theorem isReady_of_isBreak (spacing : m.orthography.hasWordSpacing = true) {part : Part}
    {passage : Passage} (broken : part.isBreak = true)
    (member : passage ∈ m.passages part (m.settle cursor)) : m.IsReady passage.next := by
  cases part with
  | letter c | slot name | group optional alternatives => simp [isBreak] at broken
  | space =>
    simp only [passages] at member
    split at member
    · next space =>
      rw [List.mem_singleton.1 member]
      exact isReady_of_followsGap (.skip (fun _ => .inl) (.inr space))
    · split at member
      · next boundary =>
        rw [List.mem_singleton.1 member]
        exact isReady_of_isWordBoundary spacing boundary
      · simp at member
  | boundary =>
    simp only [passages] at member
    split at member
    · next boundary =>
      rw [List.mem_singleton.1 member]
      exact isReady_of_isWordBoundary spacing boundary
    · simp at member

/-- What a slot after a break captures starts with a word. -/
theorem Run.startsWord (spacing : m.orthography.hasWordSpacing = true) {slots : List PlacedSlot}
    {number : Nat} {name : List Char} (marked : slots[number]? = some ⟨name, true⟩)
    {parts : List PlacedPart} {captures : List SlotCapture} (run : m.Run parts cursor captures)
    (fits : Fits slots parts)
    (ready : ∀ placed, parts.head? = some placed → placed.afterBreak = true → m.IsReady cursor) :
    ∀ capture ∈ captures, capture.number = number →
      capture.span.StartsWord m.orthography cursor.text := by
  -- Where the parts start with one that a break comes before, the place is ready for a word.
  induction run with
  | done _ => simp
  | pass member _ _ ih =>
    have same := (passage_goes_on member).1
    rw [text_settle] at same
    exact same ▸ ih fits.tail fun next head broken =>
      isReady_of_isBreak spacing (fits.isBreak_of_afterBreak head broken) member
  | choose member _ ih =>
    obtain ⟨spliced, unbroken⟩ := fits.choose member
    rw [← m.text_settle]
    refine ih spliced fun next head broken => ?_
    simp [unbroken next head] at broken
  | drop _ ih =>
    rw [← m.text_settle]
    refine ih fits.tail fun next head broken => ?_
    exact absurd (fits.isBreak_of_afterBreak head broken) (by simp [isBreak])
  | @capture here afterBreak slot rest cursor start taken value captures starts tried took _ ih =>
    have same : start.text = cursor.text := by rw [starts, Cursor.text_skip, text_settle]
    have others := ih fits.tail fun next head broken =>
      absurd (fits.isBreak_of_afterBreak head broken) (by simp [isBreak])
    rw [Cursor.text_forward, same] at others
    refine List.forall_mem_cons.2 ⟨fun counted => ?_, others⟩
    obtain ⟨after, whole⟩ := exists_text_eq_of_tried tried
    have broken : afterBreak = true := by
      have found := fits.getElem?_eq
      rw [show here = number from counted, marked] at found
      cases found
      rfl
    have ahead : start.rest ≠ [] := by
      intro nothing
      rw [nothing] at tried
      have empty := List.prefix_nil.1 (prefix_of_mem_candidates tried)
      simp [empty, capture?, Orthography.trimEnd] at took
    have follows := ready _ rfl broken
    rw [IsReady, ← starts] at follows
    refine ⟨start.before.reverse, after, same ▸ whole, byteLength_reverse _, fun c last => ?_⟩
    rw [List.getLast?_reverse] at last
    exact follows ahead c last

/-- What a slot captures starts with a word if an optional group stands right before it, or has
whitespace between it and the slot, whatever signs are dropped there. -/
theorem startsWord_of_compile {language : Language} (written : m.orthography = .ofLanguage language)
    (spacing : m.orthography.hasWordSpacing = true) {phrase : String} {pattern : Pattern}
    {before gap after : List Char} (compiled : Template.compile m.orthography phrase = .ok pattern)
    (layout : phrase.toList = before ++ ']' :: gap ++ '{' :: after)
    (dropped : ∀ c ∈ gap, m.orthography.isSpace c = true ∨
      m.orthography.isPatternPunctuation c = true)
    (parted : gap = [] ∨ ∃ c ∈ gap, m.orthography.isSpace c = true) :
    (∃ name, (slotNamesOfAll pattern.parts)[before.count '{']? = some name) ∧
    m.EachCapture pattern.parts (before.count '{') fun text capture =>
      capture.span.StartsWord m.orthography text := by
  obtain ⟨name, marked⟩ : ∃ name,
      (placedSlotsOfAll false pattern.parts)[before.count '{']? = some ⟨name, true⟩ := by
    rw [written] at spacing compiled dropped parted
    exact Template.getElem?_placedSlots_of_compile spacing compiled layout dropped parted
  refine ⟨⟨name, ?_⟩, .of_run fun text captures run => ?_⟩
  · rw [← map_name_placedSlotsOfAll false, List.getElem?_map, marked]
    rfl
  · refine run.startsWord spacing marked (Fits.ofParts pattern.parts) fun placed head broken => ?_
    exact isReady_of_followsGap (by simp [Cursor.FollowsGap, Cursor.atStart])

end Matcher

namespace Model

/-- The comma is dropped, and the space before it keeps the group from the word. -/
theorem startsWord_of_compile_comma :
    ∃ pattern found,
      (new "en-US" .standard).matcher.orthography = .ofLanguage .english ∧
      (new "en-US" .standard).matcher.orthography.hasWordSpacing = true ∧
      Template.compile (new "en-US" .standard).matcher.orthography "click [on] ,{app}" =
        .ok pattern ∧
      "click [on] ,{app}".toList =
        "click [on".toList ++ ']' :: " ,".toList ++ '{' :: "app\x7d".toList ∧
      (∀ c ∈ " ,".toList, (new "en-US" .standard).matcher.orthography.isSpace c = true ∨
        (new "en-US" .standard).matcher.orthography.isPatternPunctuation c = true) ∧
      (∃ c ∈ " ,".toList, (new "en-US" .standard).matcher.orthography.isSpace c = true) ∧
      (new "en-US" .standard).matcher.matchText pattern.parts "click onedrive".toList = some found ∧
      found.captures = [("app", ⟨"onedrive", .any⟩)] ∧
      (slotNamesOfAll pattern.parts)["click [on".toList.count '{']? = some "app".toList ∧
      (new "en-US" .standard).matcher.EachCapture pattern.parts ("click [on".toList.count '{')
        fun text capture =>
          capture.span.StartsWord (new "en-US" .standard).matcher.orthography text := by
  have seen : (Template.compile (new "en-US" .standard).matcher.orthography "click [on] ,{app}").map
      (fun pattern =>
        (((new "en-US" .standard).matcher.matchText pattern.parts "click onedrive".toList).map
          Match.captures, (slotNamesOfAll pattern.parts)["click [on".toList.count '{']?)) =
        .ok (some [("app", ⟨"onedrive", .any⟩)], some "app".toList) := by
    decide +kernel
  obtain ⟨pattern, compiled, matched⟩ := exists_of_map_eq_ok seen
  obtain ⟨matched, named⟩ := Prod.mk.inj matched
  obtain ⟨found, matched, captures⟩ := Option.map_eq_some_iff.1 matched
  have written : (new "en-US" .standard).matcher.orthography = .ofLanguage .english := rfl
  have spacing : (new "en-US" .standard).matcher.orthography.hasWordSpacing = true := rfl
  have layout : "click [on] ,{app}".toList =
      "click [on".toList ++ ']' :: " ,".toList ++ '{' :: "app\x7d".toList := by
    decide +kernel
  have gap : " ,".toList = [' ', ','] := by decide +kernel
  have blank : (new "en-US" .standard).matcher.orthography.isSpace ' ' = true := by decide +kernel
  have comma : (new "en-US" .standard).matcher.orthography.isPatternPunctuation ',' = true := by
    decide +kernel
  have dropped : ∀ c ∈ " ,".toList,
      (new "en-US" .standard).matcher.orthography.isSpace c = true ∨
        (new "en-US" .standard).matcher.orthography.isPatternPunctuation c = true := by
    rw [gap]
    exact List.forall_mem_cons.2 ⟨.inl blank, List.forall_mem_singleton.2 (.inr comma)⟩
  have parted : ∃ c ∈ " ,".toList,
      (new "en-US" .standard).matcher.orthography.isSpace c = true :=
    ⟨' ', gap ▸ List.mem_cons_self .., blank⟩
  exact ⟨pattern, found, written, spacing, compiled, layout, dropped, parted, matched, captures, named,
    (Matcher.startsWord_of_compile written spacing compiled layout dropped (.inr parted)).2⟩

/-- Where a dropped sign alone stands between the group and the slot, the group takes the start of
the slot's word. -/
theorem exists_capture_inside_word :
    ∃ pattern found captures capture,
      Template.compile (new "en-US" .standard).matcher.orthography "[on],{app}" = .ok pattern ∧
      (new "en-US" .standard).matcher.orthography.isPatternPunctuation ',' = true ∧
      (new "en-US" .standard).matcher.matchText pattern.parts "onedrive".toList = some found ∧
      found.captures = [("app", ⟨"edrive", .any⟩)] ∧
      (new "en-US" .standard).matcher.Run (PlacedPart.ofParts pattern.parts)
        (.atStart "onedrive".toList) captures ∧
      SlotCapture.recorded captures = found.captures ∧ capture ∈ captures ∧ capture.number = 0 ∧
      ¬capture.span.StartsWord (new "en-US" .standard).matcher.orthography "onedrive".toList := by
  have compiled : Template.compile (new "en-US" .standard).matcher.orthography "[on],{app}" =
      .ok ⟨"[on],{app}", [.group true [[.letter 'o', .letter 'n']], .slot "app".toList]⟩ := by
    rfl
  have seen : ((new "en-US" .standard).matcher.matchText
      [.group true [[.letter 'o', .letter 'n']], .slot "app".toList] "onedrive".toList).map
        Match.captures = some [("app", ⟨"edrive", .any⟩)] := by
    decide +kernel
  obtain ⟨found, matched, captured⟩ := Option.map_eq_some_iff.1 seen
  have slot : (new "en-US" .standard).matcher.Run [⟨0, false, .slot "app".toList⟩]
      ⟨['n', 'o'], "edrive".toList⟩ [⟨0, ⟨"app".toList, 2, "edrive".toList⟩, ⟨"edrive", .any⟩⟩] :=
    @Matcher.Run.capture _ 0 false "app".toList [] ⟨['n', 'o'], "edrive".toList⟩ _ "edrive".toList
      ⟨"edrive", .any⟩ [] rfl (by decide +kernel) (by decide +kernel) (.done (by decide +kernel))
  have run : (new "en-US" .standard).matcher.Run (PlacedPart.ofParts
      [.group true [[.letter 'o', .letter 'n']], .slot "app".toList]) (.atStart "onedrive".toList)
      [⟨0, ⟨"app".toList, 2, "edrive".toList⟩, ⟨"edrive", .any⟩⟩] :=
    .choose (List.mem_singleton_self _)
      (.pass (List.mem_singleton_self _) rfl (.pass (List.mem_singleton_self _) rfl slot))
  refine ⟨_, found, _, _, compiled, by decide +kernel, matched, captured, run, captured.symm,
    List.mem_singleton_self _, rfl, ?_⟩
  rintro ⟨before, after, whole, length, gap⟩
  rw [List.append_assoc] at whole
  have split := splitAt?_eq_some_iff.2 ⟨whole, length⟩
  have taken : splitAt? "onedrive".toList 2 = some (['o', 'n'], "edrive".toList) := by
    decide +kernel
  have same : ['o', 'n'] = before := (Prod.mk.inj (Option.some.inj (taken.symm.trans split))).1
  have letter : ¬((new "en-US" .standard).matcher.orthography.isSpace 'n' = true ∨
      (new "en-US" .standard).matcher.orthography.isInputPunctuation 'n' = true) := by
    decide +kernel
  exact letter (gap 'n' (same ▸ rfl))

end Model

end Phrasebook
