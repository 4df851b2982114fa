import Mathlib.Data.List.TakeWhile
import Phrasebook.Proofs.Casing
import Phrasebook.Proofs.Leaves

/-! Compiling a phrase without template signs.

Such a phrase is read character by character into letters and spaces, with
nothing to remember but whether a space is due.
-/

set_option autoImplicit false

namespace Phrasebook

open Text Part

namespace Template

/-- The signs that structure a template. -/
def signs : List Char := ['{', '}', '[', ']', '(', ')', '|']

/-- The space that is due before a letter or a sign. -/
def dueSpace (o : Orthography) (started pending : Bool) : List Part :=
  if started && pending && o.hasWordSpacing then [space] else []

/-- The parts of a text without template signs: `started` once a letter has been
read, `pending` after whitespace. -/
def literal (o : Orthography) (started pending : Bool) : List Char → List Part
  | [] => []
  | c :: rest =>
    if o.isSpace c then literal o started true rest
    else
      dueSpace o started pending ++
        if o.isPatternPunctuation c then literal o started false rest
        else (lowerChar c).map ofChar ++ literal o true false rest

variable {o : Orthography}

theorem reverse_dueSpace (o : Orthography) (started pending : Bool) :
    (dueSpace o started pending).reverse = dueSpace o started pending := by
  unfold dueSpace
  split <;> rfl

theorem settleSpace_eq (o : Orthography) (progress : Progress) :
    progress.settleSpace o =
      { progress with
        pendingSpace := false
        current := dueSpace o progress.started progress.pendingSpace ++ progress.current } := by
  obtain ⟨groups, current, pending, started, hasContent, slot⟩ := progress
  cases pending <;> cases started <;> cases spacing : o.hasWordSpacing <;>
    simp [Progress.settleSpace, Progress.add, dueSpace, spacing]

/-- A character other than the template signs is only a character. -/
theorem readOutside_of_not_mem_signs {progress : Progress} {position : Nat} {c : Char}
    {rest : List Char} (plain : c ∉ signs) :
    readOutside o progress position c rest =
      .ok (if o.isSpace c then { progress with pendingSpace := true }
        else if o.isPatternPunctuation c then progress.settleSpace o
        else (progress.settleSpace o).content ((lowerChar c).map ofChar)) := by
  unfold readOutside
  by_cases blank : o.isSpace c = true
  · rw [if_pos blank, if_pos blank]
  · rw [if_neg blank, if_neg blank]
    split <;> first | exact absurd (by decide) plain | (split <;> rfl)

theorem exists_read (progress : Progress) (position : Nat) {text : List Char}
    (plain : ∀ c ∈ text, c ∉ signs) (outside : progress.slot = none) :
    ∃ final, read o progress position text = .ok final ∧
      final.slot = none ∧ final.groups = progress.groups ∧
      final.current.reverse = progress.current.reverse ++
        literal o progress.started progress.pendingSpace text := by
  induction text generalizing progress position with
  | nil => exact ⟨progress, rfl, outside, rfl, by simp [literal]⟩
  | cons c rest ih =>
    have later : ∀ d ∈ rest, d ∉ signs := fun d member => plain d (List.mem_cons_of_mem _ member)
    have step : readChar o progress position c rest = readOutside o progress position c rest := by
      rw [readChar, outside]
    rw [read_cons, step, readOutside_of_not_mem_signs (plain c (List.mem_cons_self ..)), literal]
    split
    · exact ih _ _ later outside
    · rw [settleSpace_eq]
      split
      · obtain ⟨final, reading, slot, groups, current⟩ :=
          ih { progress with
            pendingSpace := false
            current := dueSpace o progress.started progress.pendingSpace ++ progress.current }
            (position + c.utf8Size) later outside
        refine ⟨final, reading, slot, groups, ?_⟩
        rw [current, List.reverse_append, reverse_dueSpace, List.append_assoc]
      · obtain ⟨final, reading, slot, groups, current⟩ :=
          ih ({ progress with
            pendingSpace := false
            current := dueSpace o progress.started progress.pendingSpace ++ progress.current
            }.content ((lowerChar c).map ofChar)) (position + c.utf8Size) later outside
        refine ⟨final, reading, slot, groups, ?_⟩
        rw [current]
        simp [Progress.content, reverse_dueSpace]

theorem mem_literal {started pending : Bool} {text : List Char} {part : Part}
    (member : part ∈ literal o started pending text) :
    part = space ∨ ∃ c ∈ text, ∃ d ∈ lowerChar c, part = ofChar d := by
  induction text generalizing started pending with
  | nil => simp [literal] at member
  | cons c rest ih =>
    have later : ∀ {begun wordDue : Bool}, part ∈ literal o begun wordDue rest →
        part = space ∨ ∃ e ∈ c :: rest, ∃ d ∈ lowerChar e, part = ofChar d := by
      intro begun wordDue inside
      refine (ih inside).imp_right fun written => ?_
      obtain ⟨e, listed, d, lowered, eq⟩ := written
      exact ⟨e, List.mem_cons_of_mem _ listed, d, lowered, eq⟩
    unfold literal at member
    split at member
    · exact later member
    · rcases List.mem_append.1 member with dueHere | member
      · unfold dueSpace at dueHere
        split at dueHere
        · exact .inl (List.mem_singleton.1 dueHere)
        · simp at dueHere
      · split at member
        · exact later member
        · rcases List.mem_append.1 member with written | member
          · obtain ⟨d, lowered, rfl⟩ := List.mem_map.1 written
            exact .inr ⟨c, List.mem_cons_self .., d, lowered, rfl⟩
          · exact later member

/-- Before the first letter whitespace leaves nothing due. -/
theorem literal_pending (pending : Bool) (text : List Char) :
    literal o false pending text = literal o false false text := by
  cases text with
  | nil => rfl
  | cons c rest => simp only [literal, dueSpace, Bool.false_and]

theorem literal_append_of_isSpace (started pending : Bool) (text : List Char) {blanks : List Char}
    (space : ∀ c ∈ blanks, o.isSpace c = true) :
    literal o started pending (text ++ blanks) = literal o started pending text := by
  induction text generalizing started pending with
  | nil =>
    rw [List.nil_append, literal]
    induction blanks generalizing pending with
    | nil => rfl
    | cons c rest ih =>
      rw [literal, if_pos (space c (List.mem_cons_self ..))]
      exact ih (fun d member => space d (List.mem_cons_of_mem _ member)) true
  | cons c rest ih => simp only [List.cons_append, literal, ih]

theorem literal_append_left_of_isSpace {blanks : List Char} (pending : Bool)
    (space : ∀ c ∈ blanks, o.isSpace c = true) (text : List Char) :
    literal o false pending (blanks ++ text) = literal o false false text := by
  induction blanks generalizing pending with
  | nil => exact literal_pending pending text
  | cons c rest ih =>
    rw [List.cons_append, literal, if_pos (space c (List.mem_cons_self ..))]
    exact ih true fun d member => space d (List.mem_cons_of_mem _ member)

theorem literal_trim (text : List Char) :
    literal o false false (trim text) = literal o false false text := by
  have space : ∀ c, isBlank c = true → o.isSpace c = true := fun c blank =>
    (o.isSpace_iff c).2 (.inr blank)
  -- Blanks at the front leave nothing due, and blanks at the end are never written.
  have front : literal o false false text = literal o false false (text.dropWhile isBlank) := by
    have blanks : ∀ c ∈ text.takeWhile isBlank, o.isSpace c = true := fun c member =>
      space c (List.mem_takeWhile_imp member)
    have split := literal_append_left_of_isSpace false blanks (text.dropWhile isBlank)
    rwa [List.takeWhile_append_dropWhile] at split
  have back : ∀ c ∈ ((text.dropWhile isBlank).reverse.takeWhile isBlank).reverse,
      o.isSpace c = true := fun c member =>
    space c (List.mem_takeWhile_imp (List.mem_reverse.1 member))
  have split := literal_append_of_isSpace false false (trim text) back
  rw [trim, append_dropped, ← front] at split
  exact split.symm

theorem mem_of_mem_trim {text : List Char} {c : Char} (member : c ∈ trim text) : c ∈ text := by
  have inside : c ∈ (text.dropWhile isBlank).reverse :=
    (List.dropWhile_subset _) (List.mem_reverse.1 member)
  exact (List.dropWhile_subset _) (List.mem_reverse.1 inside)

/-- A phrase without template signs compiles to its literal parts. -/
theorem parts_of_compile {phrase : String} {pattern : Pattern}
    (plain : ∀ c ∈ phrase.toList, c ∉ signs) (compiled : compile o phrase = .ok pattern) :
    pattern.parts = literal o false false phrase.toList := by
  have inside : ∀ c ∈ trim phrase.toList, c ∉ signs := fun c member =>
    plain c (mem_of_mem_trim member)
  obtain ⟨final, reading, -, -, current⟩ := exists_read (o := o) {} 0 inside rfl
  unfold compile at compiled
  simp only [reading] at compiled
  split at compiled
  · simp at compiled
  · split at compiled
    · cases compiled
      rw [← literal_trim]
      exact current
    · simp at compiled

end Template

end Phrasebook
