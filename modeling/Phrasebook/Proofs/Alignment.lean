import Mathlib.Data.List.Forall2
import Phrasebook.Proofs.NormalText
import Phrasebook.Proofs.Runs

/-! A text against a pattern, run by run.

The characters have to be the same one after the other. The run of separators
before each of them has to fit the spaces that the pattern has there: some
separator for a space, and for no space nothing or a run that begins with
punctuation.
-/

set_option autoImplicit false

namespace Phrasebook

open Text

namespace Orthography

/-- Whether a run of separators between two characters fits the spaces that a
pattern has there. -/
def Fits (o : Orthography) (spaces run : List Char) : Prop :=
  if spaces = [] then run = [] ∨ run.head?.any o.isInputPunctuation = true else run ≠ []

/-- Where a word starts or ends, spaces need no separator. -/
def FitsAt (o : Orthography) (anchored : Bool) (spaces run : List Char) : Prop :=
  o.Fits spaces run ∨ anchored = true ∧ spaces ≠ []

/-- The same character after a fitting run. -/
def Agrees (o : Orthography) (wanted found : Spaced) : Prop :=
  wanted.char = found.char ∧ o.Fits wanted.run found.run

/-- The characters of a pattern and of a text agree. Only the first run may be
anchored. -/
def Aligned (o : Orthography) (anchored : Bool) : List Spaced → List Spaced → Prop
  | [], [] => True
  | wanted :: others, found :: rest =>
    wanted.char = found.char ∧ o.FitsAt anchored wanted.run found.run ∧
      List.Forall₂ o.Agrees others rest
  | _, _ => False

variable {o : Orthography} {anchored : Bool}

/-- A separator is whitespace or punctuation. -/
theorem isInputPunctuation_of_isSeparator {c : Char} (separator : o.isSeparator c = true)
    (other : o.isSpace c = false) : o.isInputPunctuation c = true := by
  have solid : c ∉ o.whitespace := by
    intro listed
    rw [(o.isSpace_iff c).2 (.inl listed)] at other
    simp at other
  exact (o.isInputPunctuation_iff c).2 ⟨((o.isSeparator_iff c).1 separator).resolve_left solid, solid⟩

theorem fitsAt_false {spaces run : List Char} :
    o.FitsAt false spaces run ↔ o.Fits spaces run := by
  simp [FitsAt]

theorem fitsAt_nil_nil : o.FitsAt anchored [] [] := by
  simp [FitsAt, Fits]

theorem fitsAt_of_anchored {spaces : List Char} (present : spaces ≠ []) (run : List Char) :
    o.FitsAt true spaces run :=
  .inr ⟨rfl, present⟩

theorem fitsAt_true_nil (spaces : List Char) : o.FitsAt true spaces [] := by
  by_cases empty : spaces = []
  · rw [empty]
    exact fitsAt_nil_nil
  · exact fitsAt_of_anchored empty []

theorem fitsAt_of_ne_nil {spaces run : List Char} (wide : spaces ≠ []) (present : run ≠ []) :
    o.FitsAt anchored spaces run := by
  left
  rw [Fits, if_neg wide]
  exact present

/-- Punctuation fits whatever the pattern has. -/
theorem fitsAt_of_punctuation (spaces : List Char) {run : List Char}
    (sign : run.head?.any o.isInputPunctuation = true) : o.FitsAt anchored spaces run := by
  left
  unfold Fits
  split
  · exact .inr sign
  · intro empty
    simp [empty] at sign

theorem aligned_false_iff {wanted found : List Spaced} :
    o.Aligned false wanted found ↔ List.Forall₂ o.Agrees wanted found := by
  cases wanted <;> cases found <;> simp [Aligned, Agrees, fitsAt_false, and_assoc]

theorem aligned_nil_iff {found : List Spaced} : o.Aligned anchored [] found ↔ found = [] := by
  cases found <;> simp [Aligned]

theorem aligned_cons_iff {wanted found : Spaced} {others rest : List Spaced} :
    o.Aligned anchored (wanted :: others) (found :: rest) ↔
      wanted.char = found.char ∧ o.FitsAt anchored wanted.run found.run ∧
        o.Aligned false others rest := by
  rw [aligned_false_iff]
  rfl

theorem aligned_append (characters : List Char) {wanted found : List Spaced}
    (aligned : o.Aligned false wanted found) :
    o.Aligned false (characters.map (Spaced.mk []) ++ wanted)
      (characters.map (Spaced.mk []) ++ found) := by
  induction characters with
  | nil => exact aligned
  | cons c rest ih => exact aligned_cons_iff.2 ⟨rfl, fitsAt_nil_nil, ih⟩

/-- Longer first runs change nothing where they fit as the shorter ones do. -/
theorem aligned_modifyHead_iff {anchored' : Bool} {spaces run : List Char}
    {wanted found : List Spaced}
    (same : ∀ first next, wanted.head? = some first → found.head? = some next →
      (o.FitsAt anchored (spaces ++ first.run) (run ++ next.run) ↔
        o.FitsAt anchored' first.run next.run)) :
    o.Aligned anchored (wanted.modifyHead (.after spaces)) (found.modifyHead (.after run)) ↔
      o.Aligned anchored' wanted found := by
  cases wanted with
  | nil => cases found <;> simp [Aligned]
  | cons first others =>
    cases found with
    | nil => simp [Aligned]
    | cons next rest =>
      have heads := same first next rfl rfl
      simp [Aligned, Spaced.after, heads]

theorem aligned_modifyHead_right_iff {anchored' : Bool} {run : List Char}
    {wanted found : List Spaced}
    (same : ∀ first next, wanted.head? = some first → found.head? = some next →
      (o.FitsAt anchored first.run (run ++ next.run) ↔ o.FitsAt anchored' first.run next.run)) :
    o.Aligned anchored wanted (found.modifyHead (.after run)) ↔
      o.Aligned anchored' wanted found := by
  have wide : o.Aligned anchored (wanted.modifyHead (.after [])) (found.modifyHead (.after run)) ↔
      o.Aligned anchored' wanted found := aligned_modifyHead_iff same
  rwa [Spaced.after_nil, List.modifyHead_id, id] at wide

theorem forall₂_agrees_iff {wanted found : List Spaced} :
    List.Forall₂ o.Agrees wanted found ↔
      wanted.map Spaced.char = found.map Spaced.char ∧
        List.Forall₂ o.Fits (wanted.map Spaced.run) (found.map Spaced.run) := by
  induction wanted generalizing found with
  | nil => cases found <;> simp
  | cons first others ih =>
    cases found with
    | nil => simp
    | cons next rest =>
      simp only [List.forall₂_cons, Agrees, ih, List.map_cons, List.cons.injEq]
      constructor
      · rintro ⟨⟨char, run⟩, chars, runs⟩
        exact ⟨⟨char, chars⟩, run, runs⟩
      · rintro ⟨⟨char, chars⟩, run, runs⟩
        exact ⟨⟨char, run⟩, chars, runs⟩

/-- At the start of a text that begins with no whitespace any first run will do. -/
theorem aligned_true_iff {wanted : List Spaced} {text : List Char} (normal : o.IsNormal text) :
    o.Aligned true wanted (spaced o.isSeparator text) ↔
      wanted.map Spaced.char = (spaced o.isSeparator text).map Spaced.char ∧
        List.Forall₂ o.Fits (wanted.map Spaced.run).tail
          ((spaced o.isSeparator text).map Spaced.run).tail := by
  cases found : spaced o.isSeparator text with
  | nil => cases wanted <;> simp [Aligned]
  | cons next rest =>
    cases wanted with
    | nil => simp [Aligned]
    | cons first others =>
      have fits : o.FitsAt true first.run next.run := by
        have head : (spaced o.isSeparator text).head? = some next := by simp [found]
        cases start : next.run.head? with
        | none =>
          rw [List.head?_eq_none_iff.1 start]
          exact fitsAt_true_nil first.run
        | some c =>
          obtain ⟨ahead, separator⟩ := head?_of_head?_run head start
          apply fitsAt_of_punctuation
          rw [start, Option.any_some]
          exact isInputPunctuation_of_isSeparator separator (normal.head c ahead)
      simp only [aligned_cons_iff, aligned_false_iff, forall₂_agrees_iff, fits, true_and, List.map_cons,
        List.cons.injEq, List.tail_cons, and_assoc]

end Orthography

end Phrasebook
