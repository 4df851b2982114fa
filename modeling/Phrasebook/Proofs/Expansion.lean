import Mathlib.Logic.Relation
import Phrasebook.Proofs.Passages

/-! Groups stand for their alternatives.

An expansion of a pattern has one alternative in the place of each group, or
nothing in the place of an optional one. A pattern matches a text exactly when
one of its expansions does, and with the captures and bytes of that expansion.
-/

set_option autoImplicit false

namespace Phrasebook

namespace Part

/-- Replace the leftmost group by one of its alternatives, or by nothing if it is
optional. -/
inductive Expands : List Part → List Part → Prop where
  | choose {optional : Bool} {alternatives : List (List Part)} {alternative rest : List Part} :
      alternative ∈ alternatives →
      Expands (group optional alternatives :: rest) (alternative ++ rest)
  | drop {alternatives : List (List Part)} {rest : List Part} :
      Expands (group true alternatives :: rest) rest
  | after {part : Part} {parts others : List Part} : part.isPlain = true →
      Expands parts others → Expands (part :: parts) (part :: others)

/-- What is left when no group is. -/
def IsExpansion (parts expansion : List Part) : Prop :=
  Relation.ReflTransGen Expands parts expansion ∧ ∀ part ∈ expansion, part.isPlain = true

/-- Each replacement leaves a smaller pattern. -/
theorem Expands.sizeOf_lt {parts others : List Part} (step : Expands parts others) :
    sizeOf others < sizeOf parts := by
  induction step with
  | @choose optional alternatives alternative rest member =>
    have split := Matcher.sizeOf_append_parts alternative rest
    have smaller := List.sizeOf_lt_of_mem member
    simp only [List.cons.sizeOf_spec, group.sizeOf_spec]
    omega
  | drop =>
    simp only [List.cons.sizeOf_spec, group.sizeOf_spec]
    omega
  | after _ _ ih =>
    simp only [List.cons.sizeOf_spec]
    omega

end Part

namespace Matcher

open Part

variable {m : Matcher}

/-- Where a pattern fails, it fails with any of its groups replaced. -/
theorem matchParts_none_of_expands {parts others : List Part} (step : Expands parts others)
    {cursor : Cursor} (failed : m.matchParts parts cursor = none) :
    m.matchParts others cursor = none := by
  induction step generalizing cursor with
  | choose member =>
    rw [matchParts_group, Option.or_eq_none_iff, List.findSome?_eq_none_iff] at failed
    rw [← matchParts_settle]
    exact failed.1 _ member
  | drop =>
    rw [matchParts_group, Option.or_eq_none_iff] at failed
    rw [← matchParts_settle]
    exact failed.2
  | after plain _ ih =>
    rw [matchParts_cons m plain, List.findSome?_eq_none_iff] at failed ⊢
    intro passage member
    rw [Option.map_eq_none_iff]
    exact ih (Option.map_eq_none_iff.1 (failed passage member))

/-- Where a pattern with groups matches, it matches in the same way with one of
them replaced. -/
theorem exists_expands {parts : List Part} {cursor : Cursor} {found : Match}
    (matched : m.matchParts parts cursor = some found) :
    (∀ part ∈ parts, part.isPlain = true) ∨
      ∃ others, Expands parts others ∧ m.matchParts others cursor = some found := by
  induction parts generalizing cursor found with
  | nil => exact .inl (by simp)
  | cons part rest ih =>
    cases part with
    | group optional alternatives =>
      right
      rw [matchParts_group, Option.or_eq_some_iff] at matched
      rcases matched with chosen | ⟨_, omitted⟩
      · obtain ⟨alternative, member, eq⟩ := List.exists_of_findSome?_eq_some chosen
        exact ⟨alternative ++ rest, .choose member, by rw [← matchParts_settle, eq]⟩
      · split at omitted
        · next present =>
          subst present
          exact ⟨rest, .drop, by rw [← matchParts_settle, omitted]⟩
        · simp at omitted
    | letter c | space | boundary | slot name =>
      rw [matchParts_cons m rfl, List.findSome?_eq_some_iff] at matched
      -- The group is in the rest, which the first passage that succeeds has matched.
      obtain ⟨before, passage, after, split, eq, earlier⟩ := matched
      obtain ⟨later, tail, rfl⟩ := Option.map_eq_some_iff.1 eq
      rcases ih tail with plain | ⟨others, step, same⟩
      · exact .inl (by simpa [Part.isPlain] using plain)
      · right
        refine ⟨_, .after rfl step, ?_⟩
        rw [matchParts_cons m rfl, List.findSome?_eq_some_iff]
        refine ⟨before, passage, after, split, by rw [same]; rfl, fun other member => ?_⟩
        -- The passages that failed with the group fail without it, so the first that
        -- succeeds is still the same one.
        have failed := Option.map_eq_none_iff.1 (earlier other member)
        rw [matchParts_none_of_expands step failed]
        rfl

/-- Where a pattern matches, one of its expansions matches in the same way. -/
theorem exists_isExpansion {cursor : Cursor} {found : Match} (parts : List Part)
    (matched : m.matchParts parts cursor = some found) :
    ∃ expansion, IsExpansion parts expansion ∧ m.matchParts expansion cursor = some found := by
  rcases exists_expands matched with plain | ⟨others, step, same⟩
  · exact ⟨parts, ⟨.refl, plain⟩, matched⟩
  · have smaller := step.sizeOf_lt
    obtain ⟨expansion, ⟨steps, plain⟩, eq⟩ := exists_isExpansion others same
    exact ⟨expansion, ⟨.head step steps, plain⟩, eq⟩
termination_by sizeOf parts

theorem matchParts_none_of_steps {parts expansion : List Part}
    (steps : Relation.ReflTransGen Expands parts expansion) {cursor : Cursor}
    (failed : m.matchParts parts cursor = none) : m.matchParts expansion cursor = none := by
  induction steps with
  | refl => exact failed
  | tail _ step ih => exact matchParts_none_of_expands step ih

/-- A pattern fails exactly when all its expansions fail, and when it matches, one
of its expansions gives the same match. -/
theorem matchText_expansions (m : Matcher) (parts : List Part) (text : List Char) :
    (m.matchText parts text = none ↔
      ∀ expansion, IsExpansion parts expansion → m.matchText expansion text = none) ∧
    ∀ found, m.matchText parts text = some found →
      ∃ expansion, IsExpansion parts expansion ∧ m.matchText expansion text = some found := by
  refine ⟨⟨fun failed expansion expanded => matchParts_none_of_steps expanded.1 failed,
    fun failed => ?_⟩, fun found matched => exists_isExpansion parts matched⟩
  cases matched : m.matchText parts text with
  | none => rfl
  | some found =>
    obtain ⟨expansion, expanded, eq⟩ := exists_isExpansion parts matched
    exact eq.symm.trans (failed expansion expanded)

end Matcher

end Phrasebook
