import Mathlib.Data.List.Chain
import Phrasebook.Text.FrenchSpacing

/-! No-break spaces taken out and put back.

A text is typeset if one no-break space stands before each mark and nowhere else. Its spaces
are taken out before matching, and each of `:` `;` `!` `?` gets its space back unless a blank
stands before it. So a text is restored if no blank stands before a no-break space. The other
way round, what is put into a text is always taken out again.
-/

set_option autoImplicit false

namespace Phrasebook.Text.FrenchSpacing

/-- French typography: marks other than at the start, each after one no-break space, and no
such space elsewhere. -/
structure IsTypeset (text : List Char) : Prop where
  paired : text.IsChain fun c next => c = '\u00A0' ↔ next ∈ spacedPunctuation
  head : ∀ c ∈ text.head?, c ∉ spacedPunctuation ∧ c ≠ '\u00A0'
  last : text.getLast? ≠ some '\u00A0'
  narrow : '\u202F' ∉ text

instance (text : List Char) : Decidable (IsTypeset text) :=
  decidable_of_iff
    (text.IsChain (fun c next => c = '\u00A0' ↔ next ∈ spacedPunctuation) ∧
      text.head?.all (fun c => decide (c ∉ spacedPunctuation ∧ c ≠ '\u00A0')) = true ∧
      text.getLast? ≠ some '\u00A0' ∧ '\u202F' ∉ text) (by
    simp only [Option.all_eq_true, decide_eq_true_eq]
    exact ⟨fun ⟨paired, head, last, narrow⟩ => ⟨paired, head, last, narrow⟩,
      fun typeset => ⟨typeset.paired, typeset.head, typeset.last, typeset.narrow⟩⟩)

/-- Letters, and marks with the no-break space before them. -/
inductive Spaced : List Char → Prop where
  | nil : Spaced []
  | letter {c : Char} {rest : List Char} : c ∉ spacedPunctuation → c ∉ noBreakSpaces →
      Spaced rest → Spaced (c :: rest)
  | mark {c : Char} {rest : List Char} : c ∈ spacedPunctuation → Spaced rest →
      Spaced ('\u00A0' :: c :: rest)

variable {text rest : List Char} {c : Char}

theorem not_mem_noBreakSpaces (mark : c ∈ spacedPunctuation) : c ∉ noBreakSpaces := by
  have apart : spacedPunctuation.all (fun c => !noBreakSpaces.contains c) = true := by decide
  simpa using List.all_eq_true.1 apart c mark

theorem mem_noBreakSpaces_iff : c ∈ noBreakSpaces ↔ c = '\u00A0' ∨ c = '\u202F' := by
  simp [noBreakSpaces]

theorem mem_spacedPunctuation_iff : c ∈ spacedPunctuation ↔ c ∈ highPunctuation ∨ c = '»' := by
  simp [highPunctuation, spacedPunctuation, or_assoc]

/-- A typeset text, or one that goes on with a no-break space, is made of letters and marks. -/
theorem spaced_of_isChain {text : List Char}
    (paired : text.IsChain fun c next => c = '\u00A0' ↔ next ∈ spacedPunctuation)
    (head : ∀ c ∈ text.head?, c ∉ spacedPunctuation) (last : text.getLast? ≠ some '\u00A0')
    (narrow : '\u202F' ∉ text) : Spaced text := by
  induction size : text.length using Nat.strong_induction_on generalizing text with
  | _ count ih =>
    cases text with
    | nil => exact .nil
    | cons c rest =>
      obtain ⟨next, others⟩ := List.isChain_cons.1 paired
      rw [List.length_cons] at size
      by_cases space : c = '\u00A0'
      · subst space
        cases rest with
        | nil => exact absurd rfl last
        | cons mark rest =>
          have isMark : mark ∈ spacedPunctuation := (next mark rfl).1 rfl
          have solid : mark ≠ '\u00A0' := fun same =>
            not_mem_noBreakSpaces isMark (mem_noBreakSpaces_iff.2 (.inl same))
          obtain ⟨after, others⟩ := List.isChain_cons.1 others
          rw [List.length_cons] at size
          refine .mark isMark (ih _ (by omega) others ?_ ?_ ?_ rfl)
          · exact fun d first listed => solid ((after d first).2 listed)
          · intro ends
            exact last (by simp [List.getLast?_cons, ends])
          · exact fun member => narrow (by simp [member])
      · have letter : c ∉ noBreakSpaces := by
          rw [mem_noBreakSpaces_iff, not_or]
          exact ⟨space, fun same => narrow (by simp [same])⟩
        refine .letter (head c rfl) letter (ih _ (by omega) others ?_ ?_ ?_ rfl)
        · exact fun d first listed => space ((next d first).2 listed)
        · intro ends
          exact last (by simp [List.getLast?_cons, ends])
        · exact fun member => narrow (by simp [member])

theorem IsTypeset.spaced (typeset : IsTypeset text) : Spaced text :=
  spaced_of_isChain typeset.paired (fun c first => (typeset.head c first).1) typeset.last
    typeset.narrow

theorem remove_letter (letter : c ∉ noBreakSpaces) (rest : List Char) :
    remove (c :: rest) = c :: remove rest := by
  simp [remove, letter]

theorem remove_mark (mark : c ∈ spacedPunctuation) (rest : List Char) :
    remove ('\u00A0' :: c :: rest) = c :: remove rest := by
  have space : noBreakSpaces.contains '\u00A0' = true := by decide
  rw [remove, space, List.head?_cons, Option.any_some, List.contains_iff_mem.2 mark]
  exact remove_letter (not_mem_noBreakSpaces mark) rest

theorem restoreAfter_letter (letter : c ∉ highPunctuation) (previous : Option Char) :
    restoreAfter previous (c :: rest) = c :: restoreAfter (some c) rest := by
  simp [restoreAfter, letter]

/-- What of letters and marks is restored. -/
theorem restoreAfter_remove_eq_iff (spaced : Spaced text) (plain : '»' ∉ text)
    (previous : Option Char) :
    restoreAfter previous (remove text) = text ↔
      (∀ next ∈ text.head?, next = '\u00A0' → previous.any (fun p => !isBlank p) = true) ∧
        text.IsChain fun c next => next = '\u00A0' → isBlank c = false := by
  induction spaced generalizing previous with
  | nil => simp [remove, restoreAfter]
  | @letter c rest unmarked letter _ ih =>
    have low : c ∉ highPunctuation := fun high => unmarked (mem_spacedPunctuation_iff.2 (.inl high))
    have solid : c ≠ '\u00A0' := fun same => letter (mem_noBreakSpaces_iff.2 (.inl same))
    rw [remove_letter letter, restoreAfter_letter low, List.cons.injEq,
      ih (fun member => plain (List.mem_cons_of_mem _ member)), List.isChain_cons]
    simp [solid]
  | @mark c rest mark _ ih =>
    have high : c ∈ highPunctuation :=
      (mem_spacedPunctuation_iff.1 mark).resolve_right fun same => plain (by simp [same])
    have solid : c ≠ '\u00A0' := fun same =>
      not_mem_noBreakSpaces mark (mem_noBreakSpaces_iff.2 (.inl same))
    have onward := ih (fun member => plain (by simp [member])) (some c)
    rw [remove_mark mark, restoreAfter, List.contains_iff_mem.2 high, Bool.true_and,
      List.isChain_cons, List.isChain_cons]
    split
    · next blank => simp [onward, solid, blank]
    · next blank => simp [solid, blank]

/-- A typeset text without closing quotes comes back exactly if no blank stands before any of its
no-break spaces. -/
theorem restore_remove_eq_iff (typeset : IsTypeset text) (plain : '»' ∉ text) :
    restore (remove text) = text ↔
      text.IsChain fun c next => next = '\u00A0' → isBlank c = false := by
  rw [restore, restoreAfter_remove_eq_iff typeset.spaced plain]
  exact and_iff_right fun c first same => absurd same (typeset.head c first).2

/-- Marks one after the other. -/
theorem restore_remove_eq_iff_really :
    restore (remove "vraiment\u00A0?\u00A0! oui\u00A0: non".toList) =
      "vraiment\u00A0?\u00A0! oui\u00A0: non".toList :=
  (restore_remove_eq_iff (by decide) (by decide)).2 (by decide)

/-- A space that follows another blank is not put back, nor is one before a closing quote. -/
theorem restore_remove_ne :
    (IsTypeset "a \u00A0: b".toList ∧
      restore (remove "a \u00A0: b".toList) ≠ "a \u00A0: b".toList) ∧
    IsTypeset "oui\u00A0» dit il".toList ∧
      restore (remove "oui\u00A0» dit il".toList) ≠ "oui\u00A0» dit il".toList := by
  decide

/-- A text without no-break spaces has none to take out. -/
theorem remove_eq_self (none : ∀ c ∈ text, c ∉ noBreakSpaces) : remove text = text := by
  induction text with
  | nil => rfl
  | cons c rest ih =>
    obtain ⟨first, others⟩ := List.forall_mem_cons.1 none
    rw [remove_letter first, ih others]

theorem isBlank_of_mem_noBreakSpaces (space : c ∈ noBreakSpaces) : isBlank c = true := by
  rcases mem_noBreakSpaces_iff.1 space with rfl | rfl <;> decide

/-- Nothing is put in right after a blank. -/
theorem head?_restoreAfter_of_isBlank (blank : isBlank c = true) (rest : List Char) :
    (restoreAfter (some c) rest).head? = rest.head? := by
  cases rest with
  | nil => rfl
  | cons d rest => simp [restoreAfter, blank]

/-- Taking spaces out gives the same, whether some were put in before or not. -/
theorem remove_restoreAfter (previous : Option Char) (text : List Char) :
    remove (restoreAfter previous text) = remove text := by
  induction text generalizing previous with
  | nil => rfl
  | cons c rest ih =>
    have kept : remove (c :: restoreAfter (some c) rest) = remove (c :: rest) := by
      by_cases space : c ∈ noBreakSpaces
      · rw [remove, remove, head?_restoreAfter_of_isBlank (isBlank_of_mem_noBreakSpaces space), ih]
      · rw [remove_letter space, remove_letter space, ih]
    rw [restoreAfter]
    split
    · next inserted =>
      have high : c ∈ highPunctuation :=
        List.contains_iff_mem.1 (Bool.and_eq_true_iff.1 inserted).1
      have mark : c ∈ spacedPunctuation := mem_spacedPunctuation_iff.2 (.inl high)
      rw [remove_mark mark, ← remove_letter (not_mem_noBreakSpaces mark), kept]
    · exact kept

/-- Once spaces are put in, none is missing. -/
theorem restoreAfter_restoreAfter (previous : Option Char) (text : List Char) :
    restoreAfter previous (restoreAfter previous text) = restoreAfter previous text := by
  induction text generalizing previous with
  | nil => rfl
  | cons c rest ih =>
    rw [restoreAfter]
    split
    · next inserted =>
      -- The mark has a blank before it now, whatever stood there.
      have settled :
          ¬(highPunctuation.contains c && (some '\u00A0').any fun p => !isBlank p) = true := by
        rw [show ((some '\u00A0').any fun p => !isBlank p) = false by decide, Bool.and_false]
        exact Bool.false_ne_true
      rw [restoreAfter_letter (by decide), restoreAfter, if_neg settled, ih]
    · next settled => rw [restoreAfter, if_neg settled, ih]

/-- Putting spaces into a text that has none can be taken back, and putting them in twice is
putting them in once. -/
theorem remove_restore_and_restore_restore (text : List Char) :
    ('\u00A0' ∉ text → '\u202F' ∉ text → remove (restore text) = text) ∧
      restore (restore text) = restore text := by
  refine ⟨fun wide narrow => ?_, restoreAfter_restoreAfter none text⟩
  rw [restore, remove_restoreAfter]
  refine remove_eq_self fun c member space => ?_
  rcases mem_noBreakSpaces_iff.1 space with rfl | rfl
  · exact wide member
  · exact narrow member

/-- Marks at the start, after a space, and one after the other. -/
theorem remove_restore_really :
    remove (restore "! oui : vraiment?!".toList) = "! oui : vraiment?!".toList ∧
      restore "! oui : vraiment?!".toList = "! oui : vraiment\u00A0?\u00A0!".toList ∧
      restore "! oui : vraiment\u00A0?\u00A0!".toList = "! oui : vraiment\u00A0?\u00A0!".toList := by
  have spaced : restore "! oui : vraiment?!".toList = "! oui : vraiment\u00A0?\u00A0!".toList := by
    decide
  have twice := (remove_restore_and_restore_restore "! oui : vraiment?!".toList).2
  rw [spaced] at twice
  exact ⟨(remove_restore_and_restore_restore _).1 (by decide) (by decide), spaced, twice⟩

end Phrasebook.Text.FrenchSpacing
