import Phrasebook.Proofs.TemplateItems

/-! Templates that compile.

A phrase compiles exactly when it is a sequence of well-formed items with a slot
or a letter in it. The names of the pattern's slots are those of the items, and
the position of a fault is that of the character at fault.
-/

set_option autoImplicit false

namespace Phrasebook

open Text Part

namespace Template

open Progress

section

variable {o : Orthography} {phrase : String}

theorem compile_eq_ok_iff {pattern : Pattern} :
    compile o phrase = .ok pattern ↔
      ∃ progress, read o {} 0 (trim phrase.toList) = .ok progress ∧ progress.slot = none ∧
        progress.groups = [] ∧ progress.hasContent = true ∧
        pattern = ⟨phrase, progress.current.reverse⟩ := by
  unfold compile
  simp only
  cases read o {} 0 (trim phrase.toList) with
  | error fault => simp
  | ok progress =>
    obtain ⟨groups, current, pending, started, content, slot⟩ := progress
    cases slot with
    | some found => simp [missing?]
    | none =>
      cases groups with
      | cons top outer => simp [missing?]
      | nil =>
        cases content with
        | false => simp [missing?]
        | true => simp [missing?, eq_comm (b := pattern)]

/-- Where a fault is reported, reading has met it or has left something open. -/
theorem of_compile_eq_fault {fault : TemplateFault} {source : String} {position : Nat}
    (failed : compile o phrase = .error (.fault fault source position)) :
    source = String.ofList (trim phrase.toList) ∧
      (read o {} 0 (trim phrase.toList) = .error (fault, position) ∨
        ∃ progress, read o {} 0 (trim phrase.toList) = .ok progress ∧
          missing? progress = some (fault, position)) := by
  unfold compile at failed
  simp only at failed
  split at failed
  · next met eq =>
    cases failed
    exact ⟨rfl, .inl eq⟩
  · next progress eq =>
    split at failed
    · next lacking missing =>
      cases failed
      exact ⟨rfl, .inr ⟨progress, eq, missing⟩⟩
    · split at failed
      · simp at failed
      · simp at failed

end

/-- What is left of a text when the sequence of items at its front has ended. -/
def EndsSequence (rest : List Char) : Prop :=
  ∀ c, rest.head? = some c → c = '|' ∨ ∃ optional, c = closer optional

theorem mem_signs_iff {c : Char} :
    c ∈ signs ↔ c = '{' ∨ c = '}' ∨ (∃ optional, c = opener optional) ∨
      c = '|' ∨ ∃ optional, c = closer optional := by
  simp only [signs, List.mem_cons, List.not_mem_nil, or_false, Bool.exists_bool, opener, closer]
  grind

section

variable {language : Language} {final : Progress}

theorem exists_inner_of_read {o : Orthography} (closed : final.slot = none) {text : List Char}
    {progress : Progress} {start position : Nat} {name : List Char}
    (inside : progress.slot = some (start, name))
    (reading : read o progress position text = .ok final) :
    ∃ inner rest, text = inner ++ '}' :: rest ∧ (∀ c ∈ inner, c ∉ signs) ∧
      isBlankText (name.reverse ++ inner) = false := by
  induction text generalizing progress position name with
  | nil =>
    -- The text has ended inside the slot.
    cases reading
    simp [inside] at closed
  | cons c rest ih =>
    rw [read_cons, readChar_of_inside inside, readInSlot] at reading
    split at reading
    · next close =>
      subst close
      simp only at reading
      split at reading
      · simp [Except.bind] at reading
      · next named =>
        refine ⟨[], rest, rfl, by simp, ?_⟩
        rw [trim_eq_nil_iff, Bool.not_eq_true] at named
        simpa using named
    · next other =>
      split at reading
      · simp [Except.bind] at reading
      · next single =>
        split at reading
        · simp [Except.bind] at reading
        · next plain =>
          obtain ⟨inner, after, rfl, solid, named⟩ := ih rfl reading
          refine ⟨c :: inner, after, rfl, ?_, by simpa using named⟩
          intro d member
          rcases List.mem_cons.1 member with rfl | member
          · simp_all [signs]
          · exact solid d member

/-- A text that is read to its end starts with items, wherever it is read. -/
def StartsWithItems (language : Language) (final : Progress) (text : List Char) : Prop :=
  ∀ (progress : Progress) (position : Nat), progress.slot = none →
    read (.ofLanguage language) progress position text = .ok final →
    ∃ items rest, text = Item.textOfAll items ++ rest ∧
      (∀ item ∈ items, item.IsValid (.ofLanguage language)) ∧ EndsSequence rest

/-- A text that is read to its end inside a group closes the group. -/
theorem exists_alternatives_of_read (shut : final.groups = []) (text : List Char)
    (each : ∀ shorter : List Char, shorter.length ≤ text.length →
      StartsWithItems language final shorter)
    {progress : Progress} {position : Nat} (outside : progress.slot = none) {top : OpenGroup}
    {outer : List OpenGroup} (open_ : progress.groups = top :: outer)
    (reading : read (.ofLanguage language) progress position text = .ok final) :
    ∃ alternatives rest,
      text = Item.textOfAlternatives alternatives ++ closer top.optional :: rest ∧
      alternatives ≠ [] ∧
      ∀ alternative ∈ alternatives, ∀ item ∈ alternative, item.IsValid (.ofLanguage language) := by
  obtain ⟨items, rest, whole, valid, stops⟩ := each text (Nat.le_refl _) _ _ outside reading
  obtain ⟨next, same, passed⟩ := runs_textOfAll valid outside position rest
  rw [whole, same] at reading
  have inGroup := passed.groups.trans open_
  cases rest with
  | nil =>
    -- The text has ended, and the group is still open.
    cases reading
    simp [shut] at inGroup
  | cons c after =>
    have shorter : after.length < text.length := by simp [whole]; omega
    rw [read_cons, readChar_of_outside passed.slot] at reading
    rcases stops c rfl with rfl | ⟨optional, rfl⟩
    · rw [readOutside_bar, nextAlternative?, groups_settleSpace, inGroup] at reading
      obtain ⟨alternatives, left, rfl, nonempty, others⟩ := exists_alternatives_of_read shut after
        (fun text bound => each text (Nat.le_of_lt (Nat.lt_of_le_of_lt bound shorter)))
        (by simpa using passed.slot) rfl reading
      refine ⟨items :: alternatives, left, ?_, by simp, ?_⟩
      · obtain ⟨first, others, rfl⟩ := List.exists_cons_of_ne_nil nonempty
        rw [whole, Item.textOfAlternatives]
        simp
      · intro alternative member
        rcases List.mem_cons.1 member with rfl | member
        · exact valid
        · exact others alternative member
    · rw [readOutside_closer, readCloser, closeGroup?, groups_settleSpace, inGroup] at reading
      by_cases kind : top.optional = optional
      · refine ⟨[items], after, ?_, by simp, by simpa using valid⟩
        rw [whole, Item.textOfAlternatives, kind]
      · simp [kind, Except.bind] at reading
termination_by text.length

/-- The first character of a text that is read to its end starts an item, unless
it ends the sequence. -/
theorem exists_item_of_read (closed : final.slot = none) (shut : final.groups = []) {c : Char}
    {text : List Char}
    (each : ∀ shorter : List Char, shorter.length ≤ text.length →
      StartsWithItems language final shorter)
    (goesOn : ¬EndsSequence (c :: text)) {progress : Progress} {position : Nat}
    (outside : progress.slot = none)
    (reading : read (.ofLanguage language) progress position (c :: text) = .ok final) :
    ∃ (item : Item) (rest : List Char), c :: text = item.text ++ rest ∧
      rest.length ≤ text.length ∧ item.IsValid (.ofLanguage language) := by
  have inner : ¬(c = '|' ∨ ∃ optional, c = closer optional) := by
    simpa [EndsSequence] using goesOn
  by_cases sign : c ∈ signs
  · rw [read_cons, readChar_of_outside outside] at reading
    rcases mem_signs_iff.1 sign with rfl | rfl | ⟨optional, rfl⟩ | ends
    · rw [readOutside_openSlot] at reading
      obtain ⟨name, rest, rfl, plain, named⟩ := exists_inner_of_read closed rfl reading
      refine ⟨.slot name, rest, by simp [Item.text], ?_, .slot plain named⟩
      simp
      omega
    · simp [readOutside_closeSlot, Except.bind] at reading
    · rw [readOutside_opener] at reading
      obtain ⟨alternatives, rest, rfl, nonempty, valid⟩ := exists_alternatives_of_read
        shut text each (by simpa [openGroup] using outside) rfl reading
      refine ⟨.group optional alternatives, rest, by simp [Item.text], ?_,
        .group nonempty valid⟩
      simp
      omega
    · exact absurd ends inner
  · by_cases space : (Orthography.ofLanguage language).isSpace c = true
    · exact ⟨.blank c, text, rfl, Nat.le_refl _, .blank space⟩
    · exact ⟨.literal c, text, rfl, Nat.le_refl _, .literal (by simpa using space) sign⟩

theorem startsWithItems (closed : final.slot = none) (shut : final.groups = [])
    (text : List Char) : StartsWithItems language final text := by
  -- What stands inside a group is shorter, though it is not the tail of the text.
  induction size : text.length using Nat.strong_induction_on generalizing text with
  | _ count ih =>
  intro progress position outside reading
  cases text with
  | nil => exact ⟨[], [], rfl, by simp, by simp [EndsSequence]⟩
  | cons c text =>
    have each : ∀ shorter : List Char, shorter.length ≤ text.length →
        StartsWithItems language final shorter := by
      intro shorter bound
      refine ih shorter.length ?_ shorter rfl
      rw [← size, List.length_cons]
      omega
    by_cases ends : EndsSequence (c :: text)
    · exact ⟨[], c :: text, rfl, by simp, ends⟩
    · obtain ⟨item, rest, whole, shorter, valid⟩ :=
        exists_item_of_read closed shut each ends outside reading
      obtain ⟨next, same, passed⟩ := runs_item valid outside position rest
      rw [whole, same] at reading
      obtain ⟨items, left, rfl, others, stops⟩ := each rest shorter _ _ passed.slot reading
      refine ⟨item :: items, left, by rw [whole, Item.textOfAll, List.append_assoc], ?_, stops⟩
      intro other member
      rcases List.mem_cons.1 member with rfl | member
      · exact valid
      · exact others other member

end

/-- A character stands at a byte offset of a text. -/
def StandsAt (text : List Char) (offset : Nat) (c : Char) : Prop :=
  ∃ rest, suffixAt? text offset = some (c :: rest)

theorem standsAt_append (before rest : List Char) (c : Char) :
    StandsAt (before ++ c :: rest) (byteLength before) c :=
  ⟨rest, suffixAt?_append ..⟩

/-- The positions that a progress remembers are those of opening signs. -/
structure Progress.Remembers (source : List Char) (progress : Progress) : Prop where
  slot : ∀ start name, progress.slot = some (start, name) → StandsAt source start '{'
  groups : ∀ group ∈ progress.groups, StandsAt source group.position (opener group.optional)

section

variable {source : List Char} {progress : Progress} {position : Nat} {c : Char}

theorem Progress.Remembers.settleSpace (o : Orthography) (known : progress.Remembers source) :
    (progress.settleSpace o).Remembers source where
  slot start name eq := known.slot start name (by rwa [slot_settleSpace] at eq)
  groups group member := known.groups group (by rwa [groups_settleSpace] at member)

/-- What a step may say: a progress that remembers opening signs, or a fault where
its sign stands. -/
def Sound (source : List Char) : Except (TemplateFault × Nat) Progress → Prop
  | .ok next => next.Remembers source
  | .error (fault, position) => StandsAt source position fault.sign

theorem Progress.Remembers.sound {o : Orthography} {rest : List Char}
    {outcome : Except (TemplateFault × Nat) Progress} (known : progress.Remembers source)
    (here : StandsAt source position c) (step : ReadStep o progress position c rest outcome) :
    Sound source outcome := by
  have settled := known.settleSpace o
  cases step with
  | collect inside _ =>
    refine ⟨fun _ _ eq => ?_, known.groups⟩
    cases eq
    exact known.slot _ _ inside
  | closeSlot _ _ _ => exact ⟨fun _ _ eq => by simp [content] at eq, known.groups⟩
  | blank _ _ => exact ⟨known.slot, known.groups⟩
  | openSlot _ sign =>
    refine ⟨fun _ _ eq => ?_, settled.groups⟩
    cases eq
    exact sign ▸ here
  | openGroup optional _ sign =>
    refine ⟨settled.slot, fun group member => ?_⟩
    rcases List.mem_cons.1 member with rfl | member
    · exact sign ▸ here
    · exact settled.groups group member
  | @closeGroup optional closed _ _ closing =>
    obtain ⟨top, outer, eq, -, rfl⟩ := exists_of_closeGroup? closing
    have kept : ∀ group ∈ outer, StandsAt source group.position (opener group.optional) :=
      fun group member => settled.groups group (eq ▸ List.mem_cons_of_mem _ member)
    -- The mark after the bracket changes nothing that is remembered.
    cases marked : optional && slotFollows rest with
    | false | true => exact ⟨settled.slot, kept⟩
  | bar _ _ starting =>
    obtain ⟨top, outer, eq, rfl⟩ := exists_of_nextAlternative? starting
    refine ⟨settled.slot, fun group member => ?_⟩
    rcases List.mem_cons.1 member with rfl | member
    · exact settled.groups top (eq ▸ List.mem_cons_self ..)
    · exact settled.groups group (eq ▸ List.mem_cons_of_mem _ member)
  | drop _ _ _ _ => exact settled
  | letter _ _ _ _ => exact ⟨settled.slot, settled.groups⟩
  | faultHere sign =>
    rw [sign] at here
    exact here
  | faultInSlot inside sign =>
    have opened := known.slot _ _ inside
    rw [← sign] at opened
    exact opened

theorem sound_read {o : Orthography} {before text : List Char} (whole : source = before ++ text)
    (known : progress.Remembers source) :
    Sound source (read o progress (byteLength before) text) := by
  induction text generalizing progress before with
  | nil => exact known
  | cons c rest ih =>
    have here : StandsAt source (byteLength before) c := whole ▸ standsAt_append before rest c
    have step := known.sound here (readStep_readChar o progress (byteLength before) c rest)
    rw [read_cons]
    revert step
    cases readChar o progress (byteLength before) c rest with
    | error fault => exact id
    | ok next =>
      intro step
      have onward : source = (before ++ [c]) ++ rest := by simp [whole]
      have further := ih onward step
      rw [byteLength_append, byteLength_cons, byteLength_nil, Nat.add_zero] at further
      exact further

/-- Faults are reported where their sign stands. -/
theorem standsAt_of_compile {o : Orthography} {phrase : String} {fault : TemplateFault}
    {reported : String} (failed : compile o phrase = .error (.fault fault reported position)) :
    StandsAt (trim phrase.toList) position fault.sign := by
  have sound : Sound (trim phrase.toList) (read o {} 0 (trim phrase.toList)) :=
    sound_read (List.nil_append _).symm ⟨by simp, by simp⟩
  rcases (of_compile_eq_fault failed).2 with met | ⟨progress, eq, missing⟩
  · rw [met] at sound
    exact sound
  · rw [eq] at sound
    unfold missing? at missing
    cases inside : progress.slot with
    | some found =>
      rw [inside] at missing
      cases missing
      exact sound.slot found.1 found.2 inside
    | none =>
      cases opened : progress.groups with
      | nil => simp [inside, opened] at missing
      | cons top outer =>
        rw [inside, opened] at missing
        cases missing
        exact sound.groups top (opened ▸ List.mem_cons_self ..)

end

/-- The items are well formed and make up the text. -/
structure Item.Spell (o : Orthography) (items : List Item) (text : List Char) : Prop where
  text : textOfAll items = text
  valid : ∀ item ∈ items, item.IsValid o

section

variable {language : Language} {items : List Item} {text : List Char}

theorem exists_read_of_spell (spelled : Item.Spell (.ofLanguage language) items text) :
    ∃ final, read (.ofLanguage language) {} 0 text = .ok final ∧
      Progress.Passes (.ofLanguage language) {} items final := by
  obtain ⟨final, reading, passed⟩ :=
    runs_textOfAll spelled.valid (show ({} : Progress).slot = none from rfl) 0 []
  rw [List.append_nil, spelled.text] at reading
  exact ⟨final, reading, passed⟩

theorem exists_spell_of_read {final : Progress} (closed : final.slot = none)
    (shut : final.groups = []) (reading : read (.ofLanguage language) {} 0 text = .ok final) :
    ∃ items, Item.Spell (.ofLanguage language) items text := by
  obtain ⟨items, rest, whole, valid, stops⟩ :=
    startsWithItems closed shut text {} 0 rfl reading
  obtain ⟨next, same, passed⟩ :=
    runs_textOfAll valid (show ({} : Progress).slot = none from rfl) 0 rest
  rw [whole, same] at reading
  cases rest with
  | nil => exact ⟨items, by simpa using whole.symm, valid⟩
  | cons c after =>
    -- No group is open that a bar or a closer could belong to.
    have unopened := passed.groups
    rw [read_cons, readChar_of_outside passed.slot] at reading
    rcases stops c rfl with rfl | ⟨optional, rfl⟩
    · simp [readOutside_bar, Progress.nextAlternative?, unopened, Except.bind] at reading
    · simp [readOutside_closer, readCloser, Progress.closeGroup?, unopened, Except.bind] at reading

end

/-- A phrase compiles exactly when it is made of items with a slot or a letter in
them; its slots are those of the items, and faults are reported where they stand. -/
theorem compile_iff_spell (language : Language) (phrase : String) :
    ((∃ pattern, compile (.ofLanguage language) phrase = .ok pattern) ↔
      ∃ items, Item.Spell (.ofLanguage language) items (trim phrase.toList) ∧
        Item.hasContentInAll (.ofLanguage language) items = true) ∧
    (∀ pattern items, compile (.ofLanguage language) phrase = .ok pattern →
      Item.Spell (.ofLanguage language) items (trim phrase.toList) →
      pattern.slotNames = (Item.slotNamesOfAll items).eraseDups) ∧
    ∀ fault source position,
      compile (.ofLanguage language) phrase = .error (.fault fault source position) →
      source = String.ofList (trim phrase.toList) ∧
        StandsAt (trim phrase.toList) position fault.sign := by
  refine ⟨⟨?_, ?_⟩, ?_, ?_⟩
  · rintro ⟨pattern, compiled⟩
    obtain ⟨final, reading, closed, shut, content, -⟩ := compile_eq_ok_iff.1 compiled
    obtain ⟨items, spelled⟩ := exists_spell_of_read closed shut reading
    obtain ⟨same, again, passed⟩ := exists_read_of_spell spelled
    cases reading.symm.trans again
    have counted := passed.hasContent
    rw [content] at counted
    exact ⟨items, spelled, by simpa using counted.symm⟩
  · rintro ⟨items, spelled, content⟩
    obtain ⟨final, reading, passed⟩ := exists_read_of_spell spelled
    have started : final.hasContent = true := by rw [passed.hasContent, content, Bool.or_true]
    exact ⟨_, compile_eq_ok_iff.2 ⟨final, reading, passed.slot, passed.groups, started, rfl⟩⟩
  · intro pattern items compiled spelled
    obtain ⟨final, reading, -, -, -, rfl⟩ := compile_eq_ok_iff.1 compiled
    obtain ⟨same, again, passed⟩ := exists_read_of_spell spelled
    cases reading.symm.trans again
    rw [Pattern.slotNames_eq_eraseDups]
    exact congrArg List.eraseDups passed.names
  · intro fault source position failed
    exact ⟨(of_compile_eq_fault failed).1, standsAt_of_compile failed⟩

end Template

end Phrasebook
