import Mathlib.Data.List.Forall2
import Phrasebook.Model

/-! Models that registrations can reach.

A reachable model starts empty in some language; its options may be set, intents
and entities registered, and intents removed, in any order. Every pattern in it
is what its phrase compiles to.
-/

set_option autoImplicit false

namespace Phrasebook

open Text Numeral

theorem exists_of_map_eq_ok {ε α β : Type} {result : Except ε α} {f : α → β} {value : β}
    (mapped : result.map f = .ok value) : ∃ found, result = .ok found ∧ f found = value := by
  cases result with
  | error error => simp [Except.map] at mapped
  | ok found => exact ⟨found, rfl, Except.ok.inj mapped⟩

theorem exists_of_bind_eq_ok {ε α β : Type} {result : Except ε α} {next : α → Except ε β} {value : β}
    (bound : result.bind next = .ok value) :
    ∃ found, result = .ok found ∧ next found = .ok value := by
  cases result with
  | error error => simp [Except.bind] at bound
  | ok found => exact ⟨found, rfl, bound⟩

namespace Dictionary

variable {α : Type}

/-- A value after a change was there before, or is the change of what was there. -/
theorem mem_values_alter {dictionary : Dictionary α} {name : String} {change : Option α → α}
    {value : α} (member : value ∈ (dictionary.alter name change).values) :
    value ∈ dictionary.values ∨
      ∃ present, (∀ old, present = some old → old ∈ dictionary.values) ∧
        value = change present := by
  obtain ⟨entries, sorted⟩ := dictionary
  simp only [values, alter] at member ⊢
  clear sorted
  induction entries with
  | nil =>
    have same : value = change none := by simpa [alterEntries] using member
    exact .inr ⟨none, by simp, same⟩
  | cons head rest ih =>
    unfold alterEntries at member
    split at member
    · rcases List.mem_cons.1 member with same | inside
      · exact .inr ⟨none, by simp, same⟩
      · exact .inl inside
    · split at member
      · rcases List.mem_cons.1 member with same | inside
        · exact .inr ⟨some head.2, by simp, same⟩
        · exact .inl (List.mem_cons_of_mem _ inside)
      · rcases List.mem_cons.1 member with same | inside
        · exact .inl (same ▸ List.mem_cons_self ..)
        · rcases ih inside with kept | ⟨present, known, same⟩
          · exact .inl (List.mem_cons_of_mem _ kept)
          · exact .inr ⟨present, fun old eq => List.mem_cons_of_mem _ (known old eq), same⟩

theorem values_alter_empty (name : String) (change : Option α → α) :
    ((empty : Dictionary α).alter name change).values = [change none] := rfl

theorem mem_values_erase {dictionary : Dictionary α} {name : String} {value : α}
    (member : value ∈ (dictionary.erase name).values) : value ∈ dictionary.values := by
  obtain ⟨entry, kept, rfl⟩ := List.mem_map.1 member
  exact List.mem_map.2 ⟨entry, (List.mem_filter.1 kept).1, rfl⟩

end Dictionary

namespace Intent

theorem mem_patterns_addPatterns {intent : Intent} {patterns : List Pattern} {pattern : Pattern}
    (member : pattern ∈ (intent.addPatterns patterns).patterns) :
    pattern ∈ intent.patterns ∨ pattern ∈ patterns := by
  induction patterns generalizing intent with
  | nil => exact .inl member
  | cons first rest ih =>
    rcases ih member with inside | inside
    · unfold addPattern at inside
      split at inside
      · exact .inl inside
      · rcases List.mem_append.1 inside with present | added
        · exact .inl present
        · exact .inr (List.mem_singleton.1 added ▸ List.mem_cons_self ..)
    · exact .inr (List.mem_cons_of_mem _ inside)

end Intent

namespace Model

theorem forall₂_of_compileAll {o : Orthography} {phrases : List String} {patterns : List Pattern}
    (compiled : compileAll o phrases = .ok patterns) :
    List.Forall₂ (fun phrase pattern => Template.compile o phrase = .ok pattern)
      phrases patterns := by
  unfold compileAll at compiled
  induction phrases generalizing patterns with
  | nil =>
    cases compiled
    exact .nil
  | cons phrase rest ih =>
    rw [List.mapM_cons] at compiled
    cases first : Template.compile o phrase with
    | error error => simp [first, bind, Except.bind] at compiled
    | ok pattern =>
      cases others : rest.mapM (Template.compile o) with
      | error error => simp [first, others, bind, Except.bind] at compiled
      | ok tail =>
        have whole : pattern :: tail = patterns := by
          simpa [first, others, bind, Except.bind, pure, Except.pure] using compiled
        subst whole
        exact .cons first (ih others)

theorem exists_of_compileAll_singleton {o : Orthography} {phrase : String}
    {patterns : List Pattern} (compiled : compileAll o [phrase] = .ok patterns) :
    ∃ pattern, patterns = [pattern] ∧ Template.compile o phrase = .ok pattern := by
  obtain ⟨pattern, rest, first, others, rfl⟩ :=
    List.forall₂_cons_left_iff.1 (forall₂_of_compileAll compiled)
  rw [List.forall₂_nil_left_iff.1 others]
  exact ⟨pattern, rfl, first⟩

theorem exists_of_mem_compiled {o : Orthography} {phrases : List String} {patterns : List Pattern}
    (compiled : List.Forall₂ (fun phrase pattern => Template.compile o phrase = .ok pattern)
      phrases patterns) {pattern : Pattern} (member : pattern ∈ patterns) :
    ∃ phrase ∈ phrases, Template.compile o phrase = .ok pattern := by
  induction compiled with
  | nil => simp at member
  | cons first _ ih =>
    rcases List.mem_cons.1 member with rfl | inside
    · exact ⟨_, List.mem_cons_self .., first⟩
    · obtain ⟨phrase, listed, eq⟩ := ih inside
      exact ⟨phrase, List.mem_cons_of_mem _ listed, eq⟩

/-- A pattern keeps the phrase that it was compiled from. -/
theorem phrase_of_compile {o : Orthography} {phrase : String} {pattern : Pattern}
    (compiled : Template.compile o phrase = .ok pattern) : pattern.phrase = phrase := by
  unfold Template.compile at compiled
  simp only at compiled
  split at compiled
  · simp at compiled
  · split at compiled
    · simp at compiled
    · split at compiled
      · cases compiled
        rfl
      · simp at compiled

/-- What registrations and removals can make of an empty model. -/
inductive Reachable : Model → Prop where
  | new (tag : String) (numbers : Registry) : Reachable (new tag numbers)
  | withOptions {model : Model} (options : MatchOptions) : Reachable model →
      Reachable (model.withOptions options)
  | addIntent {model next : Model} {id : String} {phrases : List String} : Reachable model →
      model.addIntent id phrases = .ok next → Reachable next
  | addEntity {model next : Model} {entity : Entity} : Reachable model →
      model.addEntity entity = .ok next → Reachable next
  | removeIntent {model : Model} (id : String) : Reachable model →
      Reachable (model.removeIntent id).1

/-- Each result is what a pattern of an intent makes of the input. -/
theorem exists_of_mem_findMatches {model : Model} {input : String} {result : MatchResult}
    (member : result ∈ model.findMatches input) :
    ∃ intent ∈ model.intents.values, ∃ pattern ∈ intent.patterns, ∃ found,
      model.matcher.matchText pattern.parts (model.normalize input) = some found ∧
      result = ⟨intent.id, pattern.phrase, found.captures, intent.priority, found.bytes⟩ := by
  obtain ⟨intent, listed, member⟩ := List.mem_flatMap.1 member
  obtain ⟨pattern, present, eq⟩ := List.mem_filterMap.1 member
  obtain ⟨found, matched, rfl⟩ := Option.map_eq_some_iff.1 eq
  exact ⟨intent, listed, pattern, present, found, matched, rfl⟩

/-- What adding an intent can do. -/
theorem exists_of_addIntent {model next : Model} {id : String} {phrases : List String}
    (added : model.addIntent id phrases = .ok next) :
    isBlankText id.toList = false ∧
      ∃ patterns, compileAll model.orthography phrases = .ok patterns ∧
        next = { model with
          intents := model.intents.alter id fun present =>
            (present.getD ⟨id, 0, []⟩).addPatterns patterns } := by
  unfold addIntent at added
  split at added
  · simp at added
  · next named =>
    cases compiled : compileAll model.orthography phrases with
    | error error => simp [compiled] at added
    | ok patterns =>
      rw [compiled] at added
      cases added
      exact ⟨by simpa using named, patterns, rfl, rfl⟩

theorem eq_of_addEntity {model next : Model} {entity : Entity}
    (added : model.addEntity entity = .ok next) :
    isBlankText entity.name.toList = false ∧
      next = { model with
        entities := model.entities.insert entity.name
          (entity.bind model.orthography model.numbers) } := by
  unfold addEntity at added
  split at added
  · simp at added
  · next named =>
    cases added
    exact ⟨by simpa using named, rfl⟩

theorem Reachable.exists_language {model : Model} (reachable : Reachable model) :
    ∃ language, model.orthography = .ofLanguage language := by
  induction reachable with
  | new tag numbers =>
    refine ⟨(Language.ofTag? tag.toList).getD .english, ?_⟩
    simp only [Model.new, Orthography.ofTag]
  | withOptions options _ ih => exact ih
  | addIntent _ added ih =>
    obtain ⟨-, patterns, _, rfl⟩ := exists_of_addIntent added
    exact ih
  | addEntity _ added ih =>
    rw [(eq_of_addEntity added).2]
    exact ih
  | removeIntent id _ ih => exact ih

/-- Every pattern of an intent is what its phrase compiles to. -/
theorem Reachable.compile_eq {model : Model} (reachable : Reachable model) :
    ∀ intent ∈ model.intents.values, ∀ pattern ∈ intent.patterns,
      Template.compile model.orthography pattern.phrase = .ok pattern := by
  induction reachable with
  | new tag numbers => simp [Model.new, Dictionary.values, Dictionary.empty]
  | withOptions options _ ih => exact ih
  | @addIntent model next id phrases _ added ih =>
    obtain ⟨-, patterns, compiled, rfl⟩ := exists_of_addIntent added
    intro intent member pattern listed
    -- Either another intent, or the changed one with old and new patterns.
    rcases Dictionary.mem_values_alter member with kept | ⟨present, known, rfl⟩
    · exact ih intent kept pattern listed
    · rcases Intent.mem_patterns_addPatterns listed with old | new
      · cases present with
        | none => simp at old
        | some before => exact ih before (known before rfl) pattern old
      · obtain ⟨phrase, _, eq⟩ := exists_of_mem_compiled (forall₂_of_compileAll compiled) new
        rw [phrase_of_compile eq, eq]
  | addEntity _ added ih =>
    rw [(eq_of_addEntity added).2]
    exact ih
  | removeIntent id _ ih =>
    exact fun intent member => ih intent (Dictionary.mem_values_erase member)

end Model

end Phrasebook
