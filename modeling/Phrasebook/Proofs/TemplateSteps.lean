import Phrasebook.Proofs.PlainText

/-! What reading one character of a template can do.

`ReadStep` lists the outcomes, with the condition of each. What every outcome
preserves holds of all that is read, without a look at the reading functions.
-/

set_option autoImplicit false

namespace Phrasebook

open Text Part

/-- The character that is at fault. -/
def TemplateFault.sign : TemplateFault → Char
  | unclosedSlot | nestedSlot | emptySlotName => '{'
  | unclosedGroup opener => opener
  | unexpectedCloser closer => closer
  | alternativeOutsideGroup => '|'

namespace Template

namespace Progress

variable {progress next : Progress}

/-- What closing a group does. -/
theorem exists_of_closeGroup? {optional : Bool} (closing : progress.closeGroup? optional = some next) :
    ∃ top outer, progress.groups = top :: outer ∧ top.optional = optional ∧
      next = { progress with
        groups := outer
        current := .group optional (progress.current.reverse :: top.finished).reverse ::
          top.before } := by
  unfold closeGroup? at closing
  split at closing
  · simp at closing
  · next top outer eq =>
    split at closing
    · next kind =>
      cases closing
      exact ⟨top, outer, eq, kind, rfl⟩
    · simp at closing

/-- What starting an alternative does. -/
theorem exists_of_nextAlternative? (starting : progress.nextAlternative? = some next) :
    ∃ top outer, progress.groups = top :: outer ∧
      next = { progress with
        groups := { top with finished := progress.current.reverse :: top.finished } :: outer
        current := [] } := by
  unfold nextAlternative? at starting
  split at starting
  · simp at starting
  · next top outer eq =>
    cases starting
    exact ⟨top, outer, eq, rfl⟩

@[simp] theorem slot_settleSpace (o : Orthography) (progress : Progress) :
    (progress.settleSpace o).slot = progress.slot := by
  rw [settleSpace_eq]

@[simp] theorem groups_settleSpace (o : Orthography) (progress : Progress) :
    (progress.settleSpace o).groups = progress.groups := by
  rw [settleSpace_eq]

end Progress

/-- The outcomes of reading a character that stands at a position, before `rest`. -/
inductive ReadStep (o : Orthography) (progress : Progress) (position : Nat) (c : Char)
    (rest : List Char) : Except (TemplateFault × Nat) Progress → Prop where
  | collect {start : Nat} {name : List Char} : progress.slot = some (start, name) → c ∉ signs →
      ReadStep o progress position c rest (.ok { progress with slot := some (start, c :: name) })
  | closeSlot {start : Nat} {name : List Char} : progress.slot = some (start, name) → c = '}' →
      trim name.reverse ≠ [] →
      ReadStep o progress position c rest
        (.ok ({ progress with slot := none }.content [.slot (trim name.reverse)]))
  | blank : progress.slot = none → o.isSpace c = true →
      ReadStep o progress position c rest (.ok { progress with pendingSpace := true })
  | openSlot : progress.slot = none → c = '{' →
      ReadStep o progress position c rest
        (.ok { progress.settleSpace o with slot := some (position, []) })
  | openGroup (optional : Bool) : progress.slot = none → c = opener optional →
      ReadStep o progress position c rest
        (.ok ((progress.settleSpace o).openGroup optional position))
  | closeGroup {optional : Bool} {closed : Progress} : progress.slot = none →
      c = closer optional → (progress.settleSpace o).closeGroup? optional = some closed →
      ReadStep o progress position c rest
        (.ok (if optional && slotFollows rest then closed.add .boundary else closed))
  | bar {next : Progress} : progress.slot = none → c = '|' →
      (progress.settleSpace o).nextAlternative? = some next →
      ReadStep o progress position c rest (.ok next)
  | drop : progress.slot = none → c ∉ signs → o.isSpace c = false →
      o.isPatternPunctuation c = true →
      ReadStep o progress position c rest (.ok (progress.settleSpace o))
  | letter : progress.slot = none → c ∉ signs → o.isSpace c = false →
      o.isPatternPunctuation c = false →
      ReadStep o progress position c rest
        (.ok ((progress.settleSpace o).content ((lowerChar c).map ofChar)))
  /-- A sign that cannot stand here. -/
  | faultHere {fault : TemplateFault} : c = fault.sign →
      ReadStep o progress position c rest (.error (fault, position))
  /-- A slot that cannot be closed. -/
  | faultInSlot {fault : TemplateFault} {start : Nat} {name : List Char} :
      progress.slot = some (start, name) → fault.sign = '{' →
      ReadStep o progress position c rest (.error (fault, start))

section

variable {o : Orthography} {progress : Progress} {position : Nat} {c : Char} {rest : List Char}

theorem readStep_readInSlot {start : Nat} {name : List Char}
    (inside : progress.slot = some (start, name)) :
    ReadStep o progress position c rest (readInSlot progress start name position c) := by
  unfold readInSlot
  split
  · next close =>
    simp only
    split
    · exact .faultInSlot inside rfl
    · next named => exact .closeSlot inside close named
  · next notClose =>
    split
    · next nested => exact .faultHere nested
    · next notOpen =>
      split
      · exact .faultInSlot inside rfl
      · next plain =>
        refine .collect inside ?_
        rintro member
        rcases List.mem_cons.1 member with open_ | member
        · exact notOpen open_
        · rcases List.mem_cons.1 member with close | member
          · exact notClose close
          · exact plain (List.contains_iff_mem.2 member)

theorem readStep_readCloser {optional : Bool} (outside : progress.slot = none)
    (here : c = closer optional) :
    ReadStep o progress position c rest
      (readCloser (progress.settleSpace o) optional position rest) := by
  unfold readCloser
  cases closing : (progress.settleSpace o).closeGroup? optional with
  | none => exact .faultHere here
  | some closed => exact .closeGroup outside here closing

theorem readStep_readOutside (outside : progress.slot = none) :
    ReadStep o progress position c rest (readOutside o progress position c rest) := by
  unfold readOutside
  split
  · next space => exact .blank outside space
  · next solid =>
    rw [Bool.not_eq_true] at solid
    -- One case for each sign of a template, in the order of `readOutside`.
    simp only
    split
    · exact .openSlot outside rfl
    · exact .faultHere rfl
    · exact .openGroup true outside rfl
    · exact .openGroup false outside rfl
    · exact readStep_readCloser outside rfl
    · exact readStep_readCloser outside rfl
    · split
      · exact .faultHere rfl
      · next next starting => exact .bar outside rfl starting
    · have plain : c ∉ signs := by simp_all [signs]
      split
      · next sign => exact .drop outside plain solid sign
      · next kept => exact .letter outside plain solid (by simpa using kept)

/-- Reading a character does one of these things. -/
theorem readStep_readChar (o : Orthography) (progress : Progress) (position : Nat) (c : Char)
    (rest : List Char) :
    ReadStep o progress position c rest (readChar o progress position c rest) := by
  unfold readChar
  split
  · next start name inside => exact readStep_readInSlot inside
  · next outside => exact readStep_readOutside outside

end

end Template

end Phrasebook
