import Phrasebook.Proofs.Casing
import Phrasebook.Proofs.Expansion
import Phrasebook.Template.Compile

/-! The leaves of a pattern: its parts other than groups, at any depth.

Expanding groups only picks leaves, so what holds of every leaf of a pattern
holds of every part of its expansions. Compiling adds leaves one character at a
time; `forall_leaves_of_compile` says which leaves a compiled pattern can have.
-/

set_option autoImplicit false

namespace Phrasebook

open Text

namespace Part

mutual

def leaves : Part → List Part
  | group _ alternatives => leavesOfAlternatives alternatives
  | letter c => [letter c]
  | space => [space]
  | boundary => [boundary]
  | slot name => [slot name]

/-- The leaves of a sequence of parts, from left to right. -/
def leavesOfAll : List Part → List Part
  | [] => []
  | part :: rest => part.leaves ++ leavesOfAll rest

def leavesOfAlternatives : List (List Part) → List Part
  | [] => []
  | alternative :: rest => leavesOfAll alternative ++ leavesOfAlternatives rest

end

theorem leaves_of_isPlain {part : Part} (plain : part.isPlain = true) : part.leaves = [part] := by
  cases part with
  | group optional alternatives => simp [isPlain] at plain
  | letter c | space | boundary | slot name => simp [leaves]

theorem mem_leavesOfAll {parts : List Part} {leaf : Part} :
    leaf ∈ leavesOfAll parts ↔ ∃ part ∈ parts, leaf ∈ part.leaves := by
  induction parts with
  | nil => simp [leavesOfAll]
  | cons part rest ih => simp [leavesOfAll, ih]

theorem mem_leavesOfAlternatives {alternatives : List (List Part)} {leaf : Part} :
    leaf ∈ leavesOfAlternatives alternatives ↔
      ∃ alternative ∈ alternatives, leaf ∈ leavesOfAll alternative := by
  induction alternatives with
  | nil => simp [leavesOfAlternatives]
  | cons alternative rest ih => simp [leavesOfAlternatives, ih]

theorem leavesOfAll_append (first second : List Part) :
    leavesOfAll (first ++ second) = leavesOfAll first ++ leavesOfAll second := by
  induction first with
  | nil => rfl
  | cons part rest ih => simp [leavesOfAll, ih]

theorem leavesOfAll_of_plain {parts : List Part} (plain : ∀ part ∈ parts, part.isPlain = true) :
    leavesOfAll parts = parts := by
  induction parts with
  | nil => rfl
  | cons part rest ih =>
    rw [leavesOfAll, leaves_of_isPlain (plain part (List.mem_cons_self ..)),
      ih fun other member => plain other (List.mem_cons_of_mem _ member)]
    rfl

theorem Expands.leaves_subset {parts others : List Part} (step : Expands parts others) :
    leavesOfAll others ⊆ leavesOfAll parts := by
  induction step with
  | choose member =>
    intro leaf picked
    rw [leavesOfAll_append, List.mem_append] at picked
    rw [leavesOfAll, leaves, List.mem_append]
    exact picked.imp_left fun inside => mem_leavesOfAlternatives.2 ⟨_, member, inside⟩
  | drop => exact List.subset_append_right ..
  | @after part parts others _ _ ih =>
    exact List.append_subset.2 ⟨List.subset_append_left .., fun leaf member =>
      List.mem_append_right _ (ih member)⟩

/-- Every part of an expansion is a leaf of the pattern. -/
theorem IsExpansion.subset_leaves {parts expansion : List Part}
    (expanded : IsExpansion parts expansion) : expansion ⊆ leavesOfAll parts := by
  -- The expansion is its own leaves, and no step has added any.
  obtain ⟨steps, plain⟩ := expanded
  rw [← leavesOfAll_of_plain plain]
  clear plain
  induction steps with
  | refl => exact List.Subset.refl _
  | tail _ step ih => exact List.Subset.trans step.leaves_subset ih

end Part

open Part

namespace Template

/-- Read one character, with the characters that follow it. -/
def readChar (o : Orthography) (progress : Progress) (position : Nat) (c : Char)
    (rest : List Char) : Except (TemplateFault × Nat) Progress :=
  match progress.slot with
  | some (start, name) => readInSlot progress start name position c
  | none => readOutside o progress position c rest

theorem read_cons (o : Orthography) (progress : Progress) (position : Nat) (c : Char)
    (rest : List Char) :
    read o progress position (c :: rest) =
      (readChar o progress position c rest).bind fun next =>
        read o next (position + c.utf8Size) rest := by
  rw [read, readChar]
  cases progress.slot <;> rfl

/-- What every character preserves, a template preserves. -/
theorem read_preserves {o : Orthography} {holds : Progress → Prop}
    (preserved : ∀ progress position c rest next, holds progress →
      readChar o progress position c rest = .ok next → holds next)
    {progress final : Progress} {position : Nat} {text : List Char} (start : holds progress)
    (reading : read o progress position text = .ok final) : holds final := by
  induction text generalizing progress position with
  | nil =>
    cases reading
    exact start
  | cons c rest ih =>
    rw [read_cons] at reading
    cases step : readChar o progress position c rest with
    | error fault => simp [step, Except.bind] at reading
    | ok next =>
      rw [step] at reading
      exact ih (preserved progress position c rest next start step) reading

def OpenGroup.leaves (group : OpenGroup) : List Part :=
  leavesOfAll group.before ++ leavesOfAlternatives group.finished

namespace Progress

/-- The leaves that have been read, in no particular order. -/
def leaves (progress : Progress) : List Part :=
  leavesOfAll progress.current ++ progress.groups.flatMap OpenGroup.leaves

theorem leaves_add (progress : Progress) (part : Part) :
    (progress.add part).leaves = part.leaves ++ progress.leaves := by
  simp [leaves, add, leavesOfAll]

theorem leaves_openGroup (progress : Progress) (optional : Bool) (position : Nat) :
    (progress.openGroup optional position).leaves = progress.leaves := by
  simp [leaves, openGroup, OpenGroup.leaves, leavesOfAll, leavesOfAlternatives]

variable {leaf : Part}

theorem mem_leaves_content {progress : Progress} {parts : List Part} :
    leaf ∈ (progress.content parts).leaves ↔
      leaf ∈ leavesOfAll parts ∨ leaf ∈ progress.leaves := by
  simp [leaves, content, leavesOfAll_append, mem_leavesOfAll]

theorem mem_leaves_closeGroup? {progress closed : Progress} {optional : Bool}
    (closing : progress.closeGroup? optional = some closed) :
    leaf ∈ closed.leaves ↔ leaf ∈ progress.leaves := by
  unfold closeGroup? at closing
  split at closing
  · simp at closing
  · next top outer groups =>
    split at closing
    · cases closing
      simp only [leaves, groups, OpenGroup.leaves, Part.leaves, leavesOfAll, List.flatMap_cons,
        List.mem_append, mem_leavesOfAll, mem_leavesOfAlternatives, List.mem_reverse,
        List.mem_cons, exists_eq_or_imp, or_assoc, or_left_comm]
    · simp at closing

theorem mem_leaves_nextAlternative? {progress next : Progress}
    (starting : progress.nextAlternative? = some next) :
    leaf ∈ next.leaves ↔ leaf ∈ progress.leaves := by
  unfold nextAlternative? at starting
  split at starting
  · simp at starting
  · next top outer groups =>
    cases starting
    simp only [leaves, groups, OpenGroup.leaves, leavesOfAll, leavesOfAlternatives,
      List.flatMap_cons, List.mem_append, mem_leavesOfAll, List.mem_reverse, List.not_mem_nil,
      false_or, or_assoc, or_left_comm]

theorem mem_leaves_settleSpace {o : Orthography} {progress : Progress}
    (member : leaf ∈ (progress.settleSpace o).leaves) :
    leaf = space ∧ o.hasWordSpacing = true ∨ leaf ∈ progress.leaves := by
  unfold settleSpace at member
  split at member
  · next flushed =>
    rw [leaves_add, List.mem_append] at member
    simp only [Bool.and_eq_true] at flushed
    exact member.imp_left fun written => ⟨by simpa [Part.leaves] using written, flushed.1.2⟩
  · exact .inr member

end Progress

end Template

/-- The leaves that a compiled template can have. Its letters are neither
whitespace nor signs that templates drop. -/
def Part.IsCompiled (o : Orthography) : Part → Prop
  | .letter c => o.isSpace c = false ∧ o.isPatternPunctuation c = false
  | .space => o.hasWordSpacing = true
  | .boundary | .slot _ => True
  | .group .. => False

theorem Part.isPlain_of_isCompiled {o : Orthography} {part : Part} (kind : part.IsCompiled o) :
    part.isPlain = true := by
  cases part with
  | letter c | space | boundary | slot name => rfl
  | group optional alternatives => exact kind.elim

namespace Template

open Progress

variable {language : Language} {leaf : Part}

/-- Lowering turns a character into letters of the same kind. -/
theorem isCompiled_ofChar {c d : Char} (solid : (Orthography.ofLanguage language).isSpace c = false)
    (kept : (Orthography.ofLanguage language).isPatternPunctuation c = false)
    (member : d ∈ lowerChar c) : (ofChar d).IsCompiled (.ofLanguage language) := by
  unfold ofChar
  split
  · trivial
  · constructor
    · apply not_of_mem_lowerChar _ solid member
      exact fun _ => Orthography.isCaseless_of_isSpace language
    · apply not_of_mem_lowerChar _ kept member
      exact fun _ => Orthography.isCaseless_of_isPatternPunctuation language

theorem forall_leaves_readInSlot {o : Orthography} {progress next : Progress} {start position : Nat}
    {name : List Char} {c : Char} (holds : ∀ leaf ∈ progress.leaves, leaf.IsCompiled o)
    (step : readInSlot progress start name position c = .ok next) :
    ∀ leaf ∈ next.leaves, leaf.IsCompiled o := by
  unfold readInSlot at step
  split at step
  · simp only at step
    split at step
    · simp at step
    · cases step
      intro leaf member
      rcases mem_leaves_content.1 member with written | read
      · have captured : leaf = .slot (trim name.reverse) := by simpa [leavesOfAll, Part.leaves] using written
        rw [captured]
        trivial
      · exact holds leaf read
  · split at step
    · simp at step
    · split at step
      · simp at step
      · cases step
        exact holds

theorem forall_leaves_readCloser {o : Orthography} {progress next : Progress} {optional : Bool}
    {position : Nat} {rest : List Char} (holds : ∀ leaf ∈ progress.leaves, leaf.IsCompiled o)
    (step : readCloser progress optional position rest = .ok next) :
    ∀ leaf ∈ next.leaves, leaf.IsCompiled o := by
  unfold readCloser at step
  split at step
  · simp at step
  · next closed closing =>
    have kept : ∀ leaf ∈ closed.leaves, leaf.IsCompiled o := fun leaf member =>
      holds leaf ((mem_leaves_closeGroup? closing).1 member)
    cases step
    split
    · intro leaf member
      rw [leaves_add, List.mem_append] at member
      rcases member with written | read
      · have mark : leaf = boundary := by simpa [Part.leaves] using written
        rw [mark]
        trivial
      · exact kept leaf read
    · exact kept

theorem forall_leaves_readChar {progress next : Progress} {position : Nat} {c : Char}
    {rest : List Char}
    (holds : ∀ leaf ∈ progress.leaves, leaf.IsCompiled (.ofLanguage language))
    (step : readChar (.ofLanguage language) progress position c rest = .ok next) :
    ∀ leaf ∈ next.leaves, leaf.IsCompiled (.ofLanguage language) := by
  unfold readChar at step
  split at step
  · exact forall_leaves_readInSlot holds step
  · unfold readOutside at step
    split at step
    · cases step
      exact holds
    · next solid =>
      have settled : ∀ leaf ∈ (progress.settleSpace (.ofLanguage language)).leaves,
          leaf.IsCompiled (.ofLanguage language) := by
        intro leaf member
        rcases mem_leaves_settleSpace member with ⟨rfl, spacing⟩ | read
        · exact spacing
        · exact holds leaf read
      -- One case for each sign of a template, in the order of `readOutside`.
      simp only at step
      split at step
      · cases step
        exact settled
      · simp at step
      · cases step
        rwa [leaves_openGroup]
      · cases step
        rwa [leaves_openGroup]
      · exact forall_leaves_readCloser settled step
      · exact forall_leaves_readCloser settled step
      · split at step
        · simp at step
        · next starting =>
          cases step
          exact fun leaf member => settled leaf ((mem_leaves_nextAlternative? starting).1 member)
      · split at step
        · cases step
          exact settled
        · next kept =>
          cases step
          intro leaf member
          rcases mem_leaves_content.1 member with written | read
          · obtain ⟨part, listed, inside⟩ := mem_leavesOfAll.1 written
            obtain ⟨d, lowered, rfl⟩ := List.mem_map.1 listed
            have plain : (ofChar d).isPlain = true := by
              unfold ofChar
              split <;> rfl
            rw [leaves_of_isPlain plain, List.mem_singleton] at inside
            subst inside
            exact isCompiled_ofChar (by simpa using solid) (by simpa using kept) lowered
          · exact settled leaf read

/-- Every leaf of a compiled pattern is one that templates can have. -/
theorem forall_leaves_of_compile {phrase : String} {pattern : Pattern}
    (compiled : compile (.ofLanguage language) phrase = .ok pattern) :
    ∀ leaf ∈ leavesOfAll pattern.parts, leaf.IsCompiled (.ofLanguage language) := by
  unfold compile at compiled
  simp only at compiled
  split at compiled
  · simp at compiled
  · next progress reading =>
    split at compiled
    · simp at compiled
    · split at compiled
      · cases compiled
        have final : ∀ leaf ∈ progress.leaves, leaf.IsCompiled (.ofLanguage language) :=
          read_preserves (fun _ _ _ _ _ => forall_leaves_readChar)
            (by simp [Progress.leaves, leavesOfAll]) reading
        intro leaf member
        refine final leaf (List.mem_append_left _ ?_)
        simpa [mem_leavesOfAll] using member
      · simp at compiled

end Template

end Phrasebook
