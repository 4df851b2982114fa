import Phrasebook.Proofs.SlotNames
import Phrasebook.Proofs.TemplateSteps

/-! The grammar of templates.

A template is a sequence of items: blanks, literal characters, slots in braces,
and groups of alternatives in brackets, which are sequences themselves. Reading
a sequence of items never fails and closes everything that it opens.
-/

set_option autoImplicit false

namespace Phrasebook

open Text Part

namespace Part

theorem slotNamesOfAll_map_ofChar (text : List Char) : slotNamesOfAll (text.map ofChar) = [] := by
  induction text with
  | nil => rfl
  | cons c rest ih =>
    rw [List.map_cons, slotNamesOfAll, ih, ofChar]
    split <;> rfl

end Part

namespace Template

/-- A piece of a template as it is typed. -/
inductive Item where
  | blank (c : Char)
  | literal (c : Char)
  /-- All that stands between the braces. -/
  | slot (inner : List Char)
  | group (optional : Bool) (alternatives : List (List Item))

namespace Item

mutual

def text : Item → List Char
  | blank c | literal c => [c]
  | slot inner => '{' :: inner ++ ['}']
  | group optional alternatives =>
    opener optional :: textOfAlternatives alternatives ++ [closer optional]

def textOfAll : List Item → List Char
  | [] => []
  | item :: rest => item.text ++ textOfAll rest

def textOfAlternatives : List (List Item) → List Char
  | [] => []
  | alternative :: rest =>
    match rest with
    | [] => textOfAll alternative
    | _ :: _ => textOfAll alternative ++ '|' :: textOfAlternatives rest

end

mutual

def slotNames : Item → List (List Char)
  | blank _ | literal _ => []
  | slot inner => [trim inner]
  | group _ alternatives => slotNamesOfAlternatives alternatives

/-- The names in the slots of a sequence, from left to right. -/
def slotNamesOfAll : List Item → List (List Char)
  | [] => []
  | item :: rest => item.slotNames ++ slotNamesOfAll rest

def slotNamesOfAlternatives : List (List Item) → List (List Char)
  | [] => []
  | alternative :: rest => slotNamesOfAll alternative ++ slotNamesOfAlternatives rest

end

mutual

/-- Whether there is a slot or a character that templates do not drop. -/
def hasContent (o : Orthography) : Item → Bool
  | blank _ => false
  | literal c => !o.isPatternPunctuation c
  | slot _ => true
  | group _ alternatives => hasContentInAlternatives o alternatives

def hasContentInAll (o : Orthography) : List Item → Bool
  | [] => false
  | item :: rest => item.hasContent o || hasContentInAll o rest

def hasContentInAlternatives (o : Orthography) : List (List Item) → Bool
  | [] => false
  | alternative :: rest => hasContentInAll o alternative || hasContentInAlternatives o rest

end

/-- The items that a template of a language can have. -/
inductive IsValid (o : Orthography) : Item → Prop where
  | blank {c : Char} : o.isSpace c = true → IsValid o (blank c)
  | literal {c : Char} : o.isSpace c = false → c ∉ signs → IsValid o (literal c)
  | slot {inner : List Char} : (∀ c ∈ inner, c ∉ signs) → isBlankText inner = false →
      IsValid o (slot inner)
  | group {optional : Bool} {alternatives : List (List Item)} : alternatives ≠ [] →
      (∀ alternative ∈ alternatives, ∀ item ∈ alternative, IsValid o item) →
      IsValid o (group optional alternatives)

end Item

theorem not_isSpace_of_mem_signs (language : Language) {c : Char} (sign : c ∈ signs) :
    ¬(Orthography.ofLanguage language).isSpace c = true := by
  have checked : Language.all.all (fun other =>
      signs.all fun d => !(Orthography.ofLanguage other).isSpace d) = true := by
    decide +kernel
  have solid := List.all_eq_true.1 (List.all_eq_true.1 checked language language.mem_all) c sign
  simpa using solid

theorem not_mem_signs_of_isPatternPunctuation {language : Language} {c : Char}
    (sign : (Orthography.ofLanguage language).isPatternPunctuation c = true) : c ∉ signs := by
  have checked : Language.all.all (fun other =>
      signs.all fun d => !(Orthography.ofLanguage other).isPatternPunctuation d) = true := by
    decide +kernel
  intro listed
  have kept := List.all_eq_true.1 (List.all_eq_true.1 checked language language.mem_all) c listed
  simp [sign] at kept

theorem trim_eq_nil_iff {text : List Char} : trim text = [] ↔ isBlankText text = true := by
  rw [trim, List.reverse_eq_nil_iff, List.dropWhile_eq_nil_iff, isBlankText, List.all_eq_true]
  constructor
  · intro blank
    have nothing : text.dropWhile isBlank = [] := by
      cases front : text.dropWhile isBlank with
      | nil => rfl
      | cons c rest =>
        have solid := List.head?_dropWhile_not isBlank text
        rw [front] at solid blank
        simp [blank c (by simp)] at solid
    exact List.dropWhile_eq_nil_iff.1 nothing
  · intro blank c member
    exact blank c ((List.dropWhile_subset _) (List.mem_reverse.1 member))

section

variable {language : Language}

/-! What reading does at each sign. -/

theorem readOutside_openSlot (progress : Progress) (position : Nat) (rest : List Char) :
    readOutside (.ofLanguage language) progress position '{' rest =
      .ok { progress.settleSpace (.ofLanguage language) with slot := some (position, []) } := by
  rw [readOutside, if_neg (not_isSpace_of_mem_signs language (by decide))]
  rfl

theorem readOutside_closeSlot (progress : Progress) (position : Nat) (rest : List Char) :
    readOutside (.ofLanguage language) progress position '}' rest =
      .error (.unexpectedCloser '}', position) := by
  rw [readOutside, if_neg (not_isSpace_of_mem_signs language (by decide))]
  rfl

theorem readOutside_opener (progress : Progress) (position : Nat) (optional : Bool)
    (rest : List Char) :
    readOutside (.ofLanguage language) progress position (opener optional) rest =
      .ok ((progress.settleSpace (.ofLanguage language)).openGroup optional position) := by
  cases optional with
  | false | true =>
    rw [readOutside, if_neg (not_isSpace_of_mem_signs language (by decide))]
    rfl

theorem readOutside_closer (progress : Progress) (position : Nat) (optional : Bool)
    (rest : List Char) :
    readOutside (.ofLanguage language) progress position (closer optional) rest =
      readCloser (progress.settleSpace (.ofLanguage language)) optional position rest := by
  cases optional with
  | false | true =>
    rw [readOutside, if_neg (not_isSpace_of_mem_signs language (by decide))]
    rfl

theorem readOutside_bar (progress : Progress) (position : Nat) (rest : List Char) :
    readOutside (.ofLanguage language) progress position '|' rest =
      match (progress.settleSpace (.ofLanguage language)).nextAlternative? with
      | none => .error (.alternativeOutsideGroup, position)
      | some next => .ok next := by
  rw [readOutside, if_neg (not_isSpace_of_mem_signs language (by decide))]
  rfl

end

/-- Reading a text, whatever follows it, leads to a progress of some kind. -/
def Runs (o : Orthography) (progress : Progress) (text : List Char) (reached : Progress → Prop) :
    Prop :=
  ∀ position rest, ∃ next,
    read o progress position (text ++ rest) = read o next (position + byteLength text) rest ∧
      reached next

namespace Runs

variable {o : Orthography} {progress : Progress} {reached last : Progress → Prop}

theorem nil (holds : reached progress) : Runs o progress [] reached :=
  fun _ _ => ⟨progress, rfl, holds⟩

theorem char {c : Char}
    (step : ∀ position rest, ∃ next, readChar o progress position c rest = .ok next ∧ reached next) :
    Runs o progress [c] reached := by
  intro position rest
  obtain ⟨next, eq, holds⟩ := step position rest
  refine ⟨next, ?_, holds⟩
  rw [List.singleton_append, read_cons, eq]
  rfl

theorem imp {text : List Char} (runs : Runs o progress text reached)
    (weaker : ∀ next, reached next → last next) : Runs o progress text last := by
  intro position rest
  obtain ⟨next, reading, holds⟩ := runs position rest
  exact ⟨next, reading, weaker next holds⟩

theorem append {first second : List Char} (start : Runs o progress first reached)
    (goOn : ∀ next, reached next → Runs o next second last) :
    Runs o progress (first ++ second) last := by
  intro position rest
  obtain ⟨middle, toMiddle, holds⟩ := start position (second ++ rest)
  obtain ⟨next, toNext, holds⟩ := goOn middle holds (position + byteLength first) rest
  refine ⟨next, ?_, holds⟩
  rw [List.append_assoc, toMiddle, toNext, byteLength_append, Nat.add_assoc]

end Runs

namespace Progress

/-- The names of the slots in the innermost open sequence. -/
def innerNames (progress : Progress) : List (List Char) := slotNamesOfAll progress.current.reverse

section

variable (o : Orthography) (progress : Progress)

@[simp] theorem hasContent_settleSpace :
    (progress.settleSpace o).hasContent = progress.hasContent := by
  rw [settleSpace_eq]

@[simp] theorem innerNames_settleSpace :
    (progress.settleSpace o).innerNames = progress.innerNames := by
  rw [settleSpace_eq, innerNames, innerNames, List.reverse_append, reverse_dueSpace,
    slotNamesOfAll_append, dueSpace]
  split <;> simp [slotNamesOfAll, Part.slotNames]

theorem innerNames_content (parts : List Part) :
    (progress.content parts).innerNames = progress.innerNames ++ slotNamesOfAll parts := by
  simp [content, innerNames, slotNamesOfAll_append]

end

/-- What reading items does to a progress: they open nothing that they do not close. -/
structure Passes (o : Orthography) (progress : Progress) (items : List Item) (next : Progress) :
    Prop where
  slot : next.slot = none
  groups : next.groups = progress.groups
  hasContent : next.hasContent = (progress.hasContent || Item.hasContentInAll o items)
  names : next.innerNames = progress.innerNames ++ Item.slotNamesOfAll items

namespace Passes

variable {o : Orthography} {progress next : Progress}

theorem nil (outside : progress.slot = none) : progress.Passes o [] progress where
  slot := outside
  groups := rfl
  hasContent := by simp [Item.hasContentInAll]
  names := by simp [Item.slotNamesOfAll]

theorem cons {item : Item} {items : List Item} {last : Progress}
    (first : progress.Passes o [item] next) (rest : next.Passes o items last) :
    progress.Passes o (item :: items) last where
  slot := rest.slot
  groups := rest.groups.trans first.groups
  hasContent := by
    rw [rest.hasContent, first.hasContent]
    simp [Item.hasContentInAll, Bool.or_assoc]
  names := by
    rw [rest.names, first.names]
    simp [Item.slotNamesOfAll]

end Passes

end Progress

open Progress

section

variable {language : Language}

theorem readChar_of_outside {o : Orthography} {progress : Progress} (outside : progress.slot = none)
    (position : Nat) (c : Char) (rest : List Char) :
    readChar o progress position c rest = readOutside o progress position c rest := by
  rw [readChar, outside]

theorem readChar_of_inside {o : Orthography} {progress : Progress} {start : Nat} {name : List Char}
    (inside : progress.slot = some (start, name)) (position : Nat) (c : Char) (rest : List Char) :
    readChar o progress position c rest = readInSlot progress start name position c := by
  rw [readChar, inside]

theorem runs_blank {progress : Progress} (outside : progress.slot = none) {c : Char}
    (space : (Orthography.ofLanguage language).isSpace c = true) :
    Runs (.ofLanguage language) progress [c]
      (progress.Passes (.ofLanguage language) [.blank c]) := by
  refine .char fun position rest => ?_
  rw [readChar_of_outside outside, readOutside, if_pos space]
  refine ⟨_, rfl, outside, rfl, ?_, ?_⟩
  · simp [Item.hasContentInAll, Item.hasContent]
  · simp [innerNames, Item.slotNamesOfAll, Item.slotNames]

theorem runs_literal {progress : Progress} (outside : progress.slot = none) {c : Char}
    (solid : (Orthography.ofLanguage language).isSpace c = false) (plain : c ∉ signs) :
    Runs (.ofLanguage language) progress [c]
      (progress.Passes (.ofLanguage language) [.literal c]) := by
  refine .char fun position rest => ?_
  rw [readChar_of_outside outside, readOutside_of_not_mem_signs plain, if_neg (by simp [solid])]
  refine ⟨_, rfl, ?_⟩
  split
  · next sign =>
    constructor
    · simpa using outside
    · simp
    · simp [Item.hasContentInAll, Item.hasContent, sign]
    · simp [Item.slotNamesOfAll, Item.slotNames]
  · next kept =>
    constructor
    · simpa [content] using outside
    · simp [content]
    · simp [content, Item.hasContentInAll, Item.hasContent, kept]
    · simp [innerNames_content, slotNamesOfAll_map_ofChar, Item.slotNamesOfAll, Item.slotNames]

/-- Between the braces of a slot characters are only collected. -/
theorem runs_inner {o : Orthography} {progress : Progress} {start : Nat} {name inner : List Char}
    (inside : progress.slot = some (start, name)) (plain : ∀ c ∈ inner, c ∉ signs) :
    Runs o progress inner fun next =>
      next = { progress with slot := some (start, inner.reverse ++ name) } := by
  induction inner generalizing progress name with
  | nil =>
    refine .nil ?_
    cases progress
    simp_all
  | cons c rest ih =>
    have collected : Runs o progress [c] fun next =>
        next = { progress with slot := some (start, c :: name) } := by
      refine .char fun position after => ⟨_, ?_, rfl⟩
      have ordinary := plain c (List.mem_cons_self ..)
      simp only [signs, List.mem_cons, not_or] at ordinary
      rw [readChar_of_inside inside, readInSlot, if_neg ordinary.2.1, if_neg ordinary.1,
        if_neg (by simp [ordinary])]
    refine collected.append fun next same => ?_
    subst same
    have longer : ({ progress with slot := some (start, c :: name) } : Progress).slot =
        some (start, c :: name) := rfl
    have further := ih longer fun d member => plain d (List.mem_cons_of_mem _ member)
    simpa using further

/-- A slot is read as the part that its name without blanks around it makes. -/
theorem runs_slot_content {progress : Progress} (outside : progress.slot = none)
    {inner : List Char} (plain : ∀ c ∈ inner, c ∉ signs) (named : isBlankText inner = false) :
    Runs (.ofLanguage language) progress ('{' :: inner ++ ['}']) fun next =>
      next = (progress.settleSpace (.ofLanguage language)).content [.slot (trim inner)] := by
  have settled : { progress.settleSpace (.ofLanguage language) with slot := none } =
      progress.settleSpace (.ofLanguage language) := by
    rw [settleSpace_eq, ← outside]
  have opened : Runs (.ofLanguage language) progress ['{'] fun next =>
      ∃ start, next = { progress.settleSpace (.ofLanguage language) with slot := some (start, []) } := by
    refine .char fun position rest => ?_
    rw [readChar_of_outside outside, readOutside_openSlot]
    exact ⟨_, rfl, position, rfl⟩
  refine (opened.append fun next same => ?_ : Runs _ _ (['{'] ++ (inner ++ ['}'])) _)
  obtain ⟨start, rfl⟩ := same
  refine (runs_inner rfl plain).append fun next same => ?_
  subst same
  refine .char fun position rest => ?_
  have nonblank : ¬trim inner = [] := by simp [trim_eq_nil_iff, named]
  rw [readChar_of_inside rfl, readInSlot, if_pos rfl]
  simp only [List.append_nil, List.reverse_reverse, if_neg nonblank]
  exact ⟨_, rfl, congrArg (content · _) settled⟩

theorem runs_slot {progress : Progress} (outside : progress.slot = none) {inner : List Char}
    (plain : ∀ c ∈ inner, c ∉ signs) (named : isBlankText inner = false) :
    Runs (.ofLanguage language) progress ('{' :: inner ++ ['}'])
      (progress.Passes (.ofLanguage language) [.slot inner]) := by
  refine (runs_slot_content outside plain named).imp fun next same => ?_
  subst same
  refine ⟨?_, ?_, ?_, ?_⟩
  · simpa [content] using outside
  · simp [content]
  · simp [content, Item.hasContentInAll, Item.hasContent]
  · rw [innerNames_content, innerNames_settleSpace]
    simp [slotNamesOfAll, Part.slotNames, Item.slotNamesOfAll, Item.slotNames]

/-- What reading alternatives does in a group: those before the last are finished. -/
structure Progress.Divides (o : Orthography) (progress : Progress) (top : OpenGroup)
    (outer : List OpenGroup) (alternatives : List (List Item)) (next : Progress) : Prop where
  slot : next.slot = none
  hasContent :
    next.hasContent = (progress.hasContent || Item.hasContentInAlternatives o alternatives)
  groups : ∃ finished, next.groups = { top with finished := finished } :: outer ∧
    slotNamesOfAlternatives finished.reverse ++ next.innerNames =
      slotNamesOfAlternatives top.finished.reverse ++ progress.innerNames ++
        Item.slotNamesOfAlternatives alternatives

/-- A bar starts the next alternative of the innermost group. -/
theorem runs_bar {progress : Progress} (outside : progress.slot = none) {top : OpenGroup}
    {outer : List OpenGroup} (open_ : progress.groups = top :: outer) :
    Runs (.ofLanguage language) progress ['|'] fun next =>
      next.slot = none ∧ next.hasContent = progress.hasContent ∧ next.current = [] ∧
        ∃ alternative, slotNamesOfAll alternative = progress.innerNames ∧
          next.groups = { top with finished := alternative :: top.finished } :: outer := by
  refine .char fun position rest => ?_
  rw [readChar_of_outside outside, readOutside_bar, nextAlternative?, groups_settleSpace, open_]
  refine ⟨_, rfl, ?_, ?_, rfl, _, ?_, rfl⟩
  · simpa using outside
  · simp
  · exact innerNames_settleSpace _ _

theorem runs_alternatives {alternatives : List (List Item)} (nonempty : alternatives ≠ [])
    (each : ∀ alternative ∈ alternatives, ∀ {progress : Progress}, progress.slot = none →
      Runs (.ofLanguage language) progress (Item.textOfAll alternative)
        (progress.Passes (.ofLanguage language) alternative))
    {progress : Progress} (outside : progress.slot = none) {top : OpenGroup}
    {outer : List OpenGroup} (open_ : progress.groups = top :: outer) :
    Runs (.ofLanguage language) progress (Item.textOfAlternatives alternatives)
      (progress.Divides (.ofLanguage language) top outer alternatives) := by
  induction alternatives generalizing progress top with
  | nil => exact absurd rfl nonempty
  | cons alternative others ih =>
    have first := each alternative (List.mem_cons_self ..) outside
    cases others with
    | nil =>
      have last : Runs (.ofLanguage language) progress (Item.textOfAll alternative ++ [])
          (progress.Divides (.ofLanguage language) top outer [alternative]) := by
        refine first.append fun next passed => .nil ⟨passed.slot, ?_, top.finished, ?_, ?_⟩
        · rw [passed.hasContent]
          simp [Item.hasContentInAlternatives]
        · rw [passed.groups, open_]
        · rw [passed.names]
          simp [Item.slotNamesOfAlternatives]
      simpa [Item.textOfAlternatives] using last
    | cons second rest =>
      have whole : Item.textOfAlternatives (alternative :: second :: rest) =
          Item.textOfAll alternative ++ (['|'] ++ Item.textOfAlternatives (second :: rest)) := by
        rw [Item.textOfAlternatives]
        rfl
      rw [whole]
      refine first.append fun next passed => ?_
      -- The bar finishes the alternative, and the names go over with it.
      refine (runs_bar passed.slot (passed.groups.trans open_)).append fun started begun => ?_
      obtain ⟨slot, content, empty, written, known, groups⟩ := begun
      have further := ih (by simp) (fun other member => each other (List.mem_cons_of_mem _ member))
        slot groups
      refine further.imp fun final divided => ?_
      obtain ⟨finished, finalGroups, names⟩ := divided.groups
      refine ⟨divided.slot, ?_, finished, finalGroups, ?_⟩
      · rw [divided.hasContent, content, passed.hasContent]
        simp [Item.hasContentInAlternatives, Bool.or_assoc]
      · have fresh : started.innerNames = [] := by simp [innerNames, empty, slotNamesOfAll]
        rw [names, fresh]
        simp [slotNamesOfAlternatives_append, slotNamesOfAlternatives, Item.slotNamesOfAlternatives,
          known.trans passed.names]

/-- A closer of the right kind closes the innermost group. -/
theorem exists_readCloser {progress : Progress} {top : OpenGroup} {outer : List OpenGroup}
    (open_ : progress.groups = top :: outer) (position : Nat) (rest : List Char) :
    ∃ next, readCloser progress top.optional position rest = .ok next ∧
      next.slot = progress.slot ∧ next.groups = outer ∧ next.hasContent = progress.hasContent ∧
      next.innerNames = slotNamesOfAll top.before.reverse ++
        slotNamesOfAlternatives top.finished.reverse ++ progress.innerNames := by
  rw [readCloser, closeGroup?, open_]
  simp only [if_true]
  refine ⟨_, rfl, ?_⟩
  -- The mark of a boundary after the bracket has no name.
  split
  · simp [add, innerNames, slotNamesOfAll_append, slotNamesOfAlternatives_append, slotNamesOfAll,
      slotNamesOfAlternatives, Part.slotNames]
  · simp [innerNames, slotNamesOfAll_append, slotNamesOfAlternatives_append, slotNamesOfAll,
      slotNamesOfAlternatives, Part.slotNames]

theorem runs_group {alternatives : List (List Item)} (nonempty : alternatives ≠ [])
    (each : ∀ alternative ∈ alternatives, ∀ {progress : Progress}, progress.slot = none →
      Runs (.ofLanguage language) progress (Item.textOfAll alternative)
        (progress.Passes (.ofLanguage language) alternative))
    {progress : Progress} (outside : progress.slot = none) (optional : Bool) :
    Runs (.ofLanguage language) progress
      (opener optional :: Item.textOfAlternatives alternatives ++ [closer optional])
      (progress.Passes (.ofLanguage language) [.group optional alternatives]) := by
  have opened : Runs (.ofLanguage language) progress [opener optional] fun next =>
      ∃ position, next =
        (progress.settleSpace (.ofLanguage language)).openGroup optional position := by
    refine .char fun position rest => ?_
    rw [readChar_of_outside outside, readOutside_opener]
    exact ⟨_, rfl, position, rfl⟩
  refine (opened.append fun next same => ?_ : Runs _ _
    ([opener optional] ++ (Item.textOfAlternatives alternatives ++ [closer optional])) _)
  obtain ⟨start, rfl⟩ := same
  have entered : ((progress.settleSpace (.ofLanguage language)).openGroup optional start).slot =
      none := by
    simpa [openGroup] using outside
  have divided := runs_alternatives nonempty each entered rfl
  refine divided.append fun next inside => .char fun position rest => ?_
  obtain ⟨finished, groups, names⟩ := inside.groups
  rw [readChar_of_outside inside.slot, readOutside_closer]
  have settled := groups_settleSpace (.ofLanguage language) next
  obtain ⟨closed, reading, slot, outer, content, closedNames⟩ :=
    exists_readCloser (settled.trans groups) position rest
  refine ⟨closed, reading, ?_, ?_, ?_, ?_⟩
  · rw [slot, slot_settleSpace, inside.slot]
  · rw [outer, groups_settleSpace]
  · rw [content, hasContent_settleSpace, inside.hasContent]
    simp [openGroup, Item.hasContentInAll, Item.hasContent]
  · rw [closedNames, innerNames_settleSpace, List.append_assoc, names]
    have before := innerNames_settleSpace (.ofLanguage language) progress
    simp only [innerNames] at before ⊢
    simp [openGroup, before, slotNamesOfAlternatives, slotNamesOfAll, Item.slotNamesOfAll,
      Item.slotNames]

/-- Reading a sequence of items that each can be read. -/
theorem runs_items {items : List Item}
    (each : ∀ item ∈ items, ∀ {progress : Progress}, progress.slot = none →
      Runs (.ofLanguage language) progress item.text
        (progress.Passes (.ofLanguage language) [item]))
    {progress : Progress} (outside : progress.slot = none) :
    Runs (.ofLanguage language) progress (Item.textOfAll items)
      (progress.Passes (.ofLanguage language) items) := by
  induction items generalizing progress with
  | nil => exact .nil (.nil outside)
  | cons item rest ih =>
    refine (each item (List.mem_cons_self ..) outside).append fun next passed => ?_
    have further := ih (fun other member => each other (List.mem_cons_of_mem _ member)) passed.slot
    exact further.imp fun final after => passed.cons after

theorem runs_item {item : Item} (valid : item.IsValid (.ofLanguage language))
    {progress : Progress} (outside : progress.slot = none) :
    Runs (.ofLanguage language) progress item.text
      (progress.Passes (.ofLanguage language) [item]) := by
  induction valid generalizing progress with
  | blank space => exact runs_blank outside space
  | literal solid plain => exact runs_literal outside solid plain
  | slot plain named => exact runs_slot outside plain named
  | group nonempty _ ih =>
    refine runs_group nonempty (fun alternative member progress outside => ?_) outside _
    exact runs_items (fun item listed _ outside => ih alternative member item listed outside) outside

/-- Reading well-formed items never fails, and what follows them is read after them. -/
theorem runs_textOfAll {items : List Item}
    (valid : ∀ item ∈ items, item.IsValid (.ofLanguage language)) {progress : Progress}
    (outside : progress.slot = none) :
    Runs (.ofLanguage language) progress (Item.textOfAll items)
      (progress.Passes (.ofLanguage language) items) :=
  runs_items (fun item member _ outside => runs_item (valid item member) outside) outside

end

end Template

end Phrasebook
