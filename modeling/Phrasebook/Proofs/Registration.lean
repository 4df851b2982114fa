import Phrasebook.Proofs.NormalText
import Phrasebook.Proofs.Reachable
import Phrasebook.Request

/-! What a model keeps, whatever is asked of it.

Intents and entities stand under their own names, the patterns of an intent are compiled
from their phrases and differ, and the phrases of a list are in normal form and in order.
Each request keeps this, and one that fails stores nothing.
-/

set_option autoImplicit false

namespace Phrasebook

open Text Numeral

namespace Dictionary

variable {α : Type}

/-- Each name has one entry at most. -/
theorem mem_entries_iff {dictionary : Dictionary α} {name : String} {value : α} :
    (name, value) ∈ dictionary.entries ↔ dictionary.get? name = some value := by
  obtain ⟨entries, sorted⟩ := dictionary
  simp only [get?]
  -- Names increase along the entries, so that none comes again.
  induction entries with
  | nil => simp
  | cons head rest ih =>
    obtain ⟨above, tail⟩ := List.pairwise_cons.1 sorted
    by_cases same : head.1 = name
    · rw [List.find?_cons_of_pos (by simpa using same), List.mem_cons, Option.map_some,
        Option.some.injEq]
      constructor
      · rintro (rfl | later)
        · rfl
        · exact absurd (same ▸ above _ later) (String.lt_irrefl _)
      · rintro rfl
        exact .inl (Prod.ext same.symm rfl)
    · rw [List.find?_cons_of_neg (by simpa using same), ← ih tail, List.mem_cons]
      refine or_iff_right fun first => same ?_
      rw [← first]

theorem alterEntries_alterEntries (name : String) (first second : Option α → α)
    (entries : List (String × α)) :
    alterEntries name second (alterEntries name first entries) =
      alterEntries name (fun present => second (some (first present))) entries := by
  have self : ¬name < name := String.lt_irrefl name
  induction entries with
  | nil => rw [alterEntries, alterEntries, alterEntries, if_neg self, if_pos rfl]
  | cons entry rest ih =>
    rw [alterEntries, alterEntries]
    split
    · rw [alterEntries, if_neg self, if_pos rfl]
    · next notLess =>
      split
      · rw [alterEntries, if_neg self, if_pos rfl]
      · next other => rw [alterEntries, if_neg notLess, if_neg other, ih]

/-- Two changes of a value are one. -/
theorem alter_alter (dictionary : Dictionary α) (name : String) (first second : Option α → α) :
    (dictionary.alter name first).alter name second =
      dictionary.alter name fun present => second (some (first present)) := by
  simp only [alter, Dictionary.mk.injEq]
  exact alterEntries_alterEntries name first second dictionary.entries

end Dictionary

section Phrases

variable {phrase other : String} {phrases : List String}

theorem mem_insertPhrase : other ∈ insertPhrase phrase phrases ↔ other = phrase ∨ other ∈ phrases := by
  induction phrases with
  | nil => simp [insertPhrase]
  | cons first rest ih =>
    unfold insertPhrase
    split
    · exact List.mem_cons
    · split
      · next same => simp [same]
      · rw [List.mem_cons, ih, List.mem_cons]
        exact or_left_comm

theorem increasing_insertPhrase (increasing : phrases.Pairwise (· < ·)) :
    (insertPhrase phrase phrases).Pairwise (· < ·) := by
  induction phrases with
  | nil => simp [insertPhrase]
  | cons first rest ih =>
    obtain ⟨above, tail⟩ := List.pairwise_cons.1 increasing
    unfold insertPhrase
    split
    · next less =>
      refine List.pairwise_cons.2 ⟨fun other member => ?_, increasing⟩
      rcases List.mem_cons.1 member with rfl | later
      · exact less
      · exact String.lt_trans less (above other later)
    · next notLess =>
      split
      · exact increasing
      · next different =>
        refine List.pairwise_cons.2 ⟨fun other member => ?_, ih tail⟩
        rcases mem_insertPhrase.1 member with rfl | later
        · exact Classical.byContradiction fun notAbove =>
            different (String.le_antisymm notAbove notLess)
        · exact above other later

theorem mem_sortPhrases : other ∈ sortPhrases phrases ↔ other ∈ phrases := by
  induction phrases with
  | nil => rfl
  | cons first rest ih =>
    rw [show sortPhrases (first :: rest) = insertPhrase first (sortPhrases rest) from rfl,
      mem_insertPhrase, ih, List.mem_cons]

theorem increasing_sortPhrases (phrases : List String) : (sortPhrases phrases).Pairwise (· < ·) := by
  induction phrases with
  | nil => exact .nil
  | cons first rest ih => exact increasing_insertPhrase ih

end Phrases

/-- An entity with a name, whose phrases are normal forms, each once and in order. -/
structure Entity.IsSound (o : Orthography) (entity : Entity) : Prop where
  named : isBlankText entity.name.toList = false
  normal : ∀ phrase ∈ entity.phrases,
    phrase ≠ "" ∧ String.ofList (o.normalizePhrase phrase.toList) = phrase
  increasing : entity.phrases.Pairwise (· < ·)
  greed : entity.greed = (entity.phrases.map fun phrase => o.countWords phrase.toList).max?.getD 0

/-- An intent with a name, whose patterns are compiled from their phrases and have different written
forms. -/
structure Intent.IsSound (o : Orthography) (intent : Intent) : Prop where
  named : isBlankText intent.id.toList = false
  compiled : ∀ pattern ∈ intent.patterns, Template.compile o pattern.phrase = .ok pattern
  distinct : (intent.patterns.map Pattern.normalized).Nodup

/-- Intents and entities of one language are sound and stand under their own names. -/
structure Model.IsSound (model : Model) : Prop where
  spoken : ∃ language, model.orthography = .ofLanguage language
  intents : ∀ id intent, (id, intent) ∈ model.intents.entries →
    intent.id = id ∧ intent.IsSound model.orthography
  entities : ∀ name entity, (name, entity) ∈ model.entities.entries →
    entity.name = name ∧ entity.IsSound model.orthography

namespace Entity

theorem normal_of_mem_normalizePhrases {language : Language} {phrases : List String} {phrase : String}
    (member : phrase ∈ normalizePhrases (.ofLanguage language) phrases) :
    phrase ≠ "" ∧
      String.ofList ((Orthography.ofLanguage language).normalizePhrase phrase.toList) = phrase := by
  obtain ⟨listed, filled⟩ := List.mem_filter.1 (mem_sortPhrases.1 member)
  obtain ⟨source, -, rfl⟩ := List.mem_map.1 listed
  refine ⟨by simpa [String.isEmpty_iff] using filled, ?_⟩
  rw [String.toList_ofList, Orthography.normalizePhrase_normalizePhrase]

theorem longestPhrase_eq (o : Orthography) (phrases : List String) :
    longestPhrase o phrases =
      (phrases.map fun phrase => o.countWords phrase.toList).max?.getD 0 := by
  unfold longestPhrase
  cases phrases.map fun phrase => o.countWords phrase.toList with
  | nil => rfl
  | cons first rest =>
    show rest.foldl max (max 0 first) = rest.foldl max first
    rw [Nat.zero_max]

/-- Binding to a language makes an entity sound. -/
theorem isSound_bind (language : Language) (numbers : Registry) {entity : Entity}
    (named : isBlankText entity.name.toList = false) :
    (entity.bind (.ofLanguage language) numbers).IsSound (.ofLanguage language) := by
  obtain ⟨name, extractor⟩ := entity
  cases extractor with
  | list mode phrases greed =>
    exact ⟨named, fun phrase => normal_of_mem_normalizePhrases, increasing_sortPhrases _,
      longestPhrase_eq _ _⟩
  | any | integer => exact ⟨named, by simp [bind, Entity.phrases], .nil, rfl⟩

end Entity

namespace Intent

variable {o : Orthography} {intent : Intent}

theorem id_addPattern (intent : Intent) (pattern : Pattern) :
    (intent.addPattern pattern).id = intent.id := by
  unfold addPattern
  split <;> rfl

theorem IsSound.addPattern (sound : intent.IsSound o) {pattern : Pattern}
    (compiled : Template.compile o pattern.phrase = .ok pattern) :
    (intent.addPattern pattern).IsSound o := by
  unfold Intent.addPattern
  split
  · exact sound
  · next fresh =>
    refine ⟨sound.named, ?_, ?_⟩
    · exact List.forall_mem_append.2 ⟨sound.compiled, List.forall_mem_singleton.2 compiled⟩
    · rw [List.map_append, List.map_singleton, List.nodup_append]
      refine ⟨sound.distinct, by simp, ?_⟩
      intro written listed other same
      obtain ⟨present, member, rfl⟩ := List.mem_map.1 listed
      rw [List.mem_singleton.1 same]
      intro equal
      exact fresh (List.any_eq_true.2 ⟨present, member, beq_iff_eq.2 equal⟩)

theorem IsSound.addPatterns (sound : intent.IsSound o) {patterns : List Pattern}
    (compiled : ∀ pattern ∈ patterns, Template.compile o pattern.phrase = .ok pattern) :
    (intent.addPatterns patterns).IsSound o := by
  induction patterns generalizing intent with
  | nil => exact sound
  | cons pattern rest ih =>
    obtain ⟨first, others⟩ := List.forall_mem_cons.1 compiled
    exact ih (sound.addPattern first) others

theorem id_addPatterns (intent : Intent) (patterns : List Pattern) :
    (intent.addPatterns patterns).id = intent.id := by
  induction patterns generalizing intent with
  | nil => rfl
  | cons pattern rest ih => exact (ih _).trans (intent.id_addPattern pattern)

end Intent

namespace Model

variable {model next : Model}

theorem isSound_new (tag : String) (numbers : Registry) : (new tag numbers).IsSound := by
  refine ⟨Reachable.exists_language (.new tag numbers), fun _ _ listed => ?_, fun _ _ listed => ?_⟩
  · simp [new, Dictionary.empty] at listed
  · simp [new, Dictionary.empty] at listed

theorem IsSound.addIntent (sound : model.IsSound) {id : String} {phrases : List String}
    (added : model.addIntent id phrases = .ok next) : next.IsSound := by
  obtain ⟨named, patterns, compiled, rfl⟩ := exists_of_addIntent added
  refine ⟨sound.spoken, fun other intent listed => ?_, sound.entities⟩
  rw [Dictionary.mem_entries_iff, Dictionary.get?_alter] at listed
  split at listed
  · next same =>
    subst same
    cases listed
    have each : ∀ pattern ∈ patterns,
        Template.compile model.orthography pattern.phrase = .ok pattern := by
      intro pattern member
      obtain ⟨phrase, -, eq⟩ := exists_of_mem_compiled (forall₂_of_compileAll compiled) member
      rw [phrase_of_compile eq, eq]
    rw [Intent.id_addPatterns]
    cases present : model.intents.get? other with
    | none =>
      have fresh : Intent.IsSound model.orthography ⟨other, 0, []⟩ :=
        ⟨named, by simp, List.nodup_nil⟩
      exact ⟨rfl, fresh.addPatterns each⟩
    | some before =>
      obtain ⟨own, before⟩ := sound.intents _ _ (Dictionary.mem_entries_iff.2 present)
      exact ⟨own, before.addPatterns each⟩
  · exact sound.intents other intent (Dictionary.mem_entries_iff.2 listed)

theorem IsSound.addEntity (sound : model.IsSound) {entity : Entity}
    (added : model.addEntity entity = .ok next) : next.IsSound := by
  obtain ⟨language, spoken⟩ := sound.spoken
  obtain ⟨named, rfl⟩ := eq_of_addEntity added
  refine ⟨sound.spoken, sound.intents, fun other present listed => ?_⟩
  rw [Dictionary.mem_entries_iff, Dictionary.get?_insert] at listed
  split at listed
  · next same =>
    cases listed
    rw [spoken]
    exact ⟨same.symm, Entity.isSound_bind language model.numbers named⟩
  · exact sound.entities other present (Dictionary.mem_entries_iff.2 listed)

theorem IsSound.removeIntent (sound : model.IsSound) (id : String) :
    (model.removeIntent id).1.IsSound := by
  refine ⟨sound.spoken, fun other intent listed => ?_, sound.entities⟩
  exact sound.intents other intent (List.mem_filter.1 listed).1

end Model

namespace Request

open Model

theorem mapM_compile (model : Model) (phrases : List String) :
    phrases.mapM compile model =
      match compileAll model.orthography phrases with
      | .ok patterns => .ok patterns model
      | .error error => .error (.template error) model := by
  unfold compileAll
  induction phrases with
  | nil => rfl
  | cons phrase rest ih =>
    have here : (get : Steps Model) model = .ok model model := rfl
    rw [List.mapM_cons, List.mapM_cons]
    simp only [bind, EStateM.bind, compile, here, Except.bind]
    cases Template.compile model.orthography phrase with
    | error error => rfl
    | ok pattern =>
      simp only [pure, EStateM.pure, ih]
      cases rest.mapM (Template.compile model.orthography) with
      | error error => rfl
      | ok patterns => rfl

theorem alterIntent_altered (model : Model) (id : String) (first : Option Intent → Intent)
    (change : Intent → Intent) :
    alterIntent id change { model with intents := model.intents.alter id first } =
      .ok () { model with
        intents := model.intents.alter id fun present => change (first present) } := by
  show EStateM.Result.ok () { model with
    intents := (model.intents.alter id first).alter id fun present =>
      change (present.getD ⟨id, 0, []⟩) } = _
  rw [Dictionary.alter_alter]
  rfl

theorem storePatterns_eq (model : Model) (id : String) (patterns : List Pattern) :
    storePatterns id patterns model = .ok () { model with
      intents := model.intents.alter id fun present =>
        (present.getD ⟨id, 0, []⟩).addPatterns patterns } := by
  -- The patterns are stored one by one in what has been stored before.
  have general : ∀ first : Option Intent → Intent,
      patterns.forM (fun pattern => alterIntent id fun intent => intent.addPattern pattern)
          { model with intents := model.intents.alter id first } =
        .ok () { model with
          intents := model.intents.alter id fun present =>
            (first present).addPatterns patterns } := by
    induction patterns with
    | nil => exact fun _ => rfl
    | cons pattern rest ih =>
      intro first
      show (alterIntent id fun intent => intent.addPattern pattern).bind
        (fun _ => rest.forM fun pattern => alterIntent id fun intent => intent.addPattern pattern) _ = _
      rw [EStateM.bind, alterIntent_altered]
      exact ih fun present => (first present).addPattern pattern
  exact general fun present => present.getD ⟨id, 0, []⟩

/-- Step by step, an intent is registered as it is at once. -/
theorem perform_addIntent (model : Model) (id : String) (phrases : List String) :
    (addIntent id phrases).perform model =
      match model.addIntent id phrases with
      | .ok next => .ok true next
      | .error error => .error error model := by
  unfold Model.addIntent
  simp only [perform]
  split
  · rfl
  · simp only [bind, EStateM.bind, pure, EStateM.pure, mapM_compile]
    cases compileAll model.orthography phrases with
    | error error => rfl
    | ok patterns => simp only [storePatterns_eq]

theorem perform_addEntity (model : Model) (entity : Entity) :
    (addEntity entity).perform model =
      match model.addEntity entity with
      | .ok next => .ok true next
      | .error error => .error error model := by
  unfold Model.addEntity
  simp only [perform]
  split
  · rfl
  · rfl

theorem perform_removeIntent (model : Model) (id : String) :
    (removeIntent id).perform model =
      .ok (model.removeIntent id).2 (model.removeIntent id).1 := rfl

/-- A request that fails stores nothing. -/
theorem eq_of_perform_error {request : Request} {model after : Model} {error : ModelError}
    (failed : request.perform model = .error error after) : after = model := by
  cases request with
  | addIntent id phrases =>
    rw [perform_addIntent] at failed
    split at failed <;> cases failed
    rfl
  | addEntity entity =>
    rw [perform_addEntity] at failed
    split at failed <;> cases failed
    rfl
  | removeIntent id => cases failed

theorem isSound_of_perform_ok {request : Request} {model after : Model} {answer : Bool}
    (sound : model.IsSound) (done : request.perform model = .ok answer after) : after.IsSound := by
  cases request with
  | addIntent id phrases =>
    rw [perform_addIntent] at done
    split at done
    · next added =>
      cases done
      exact sound.addIntent added
    · cases done
  | addEntity entity =>
    rw [perform_addEntity] at done
    split at done
    · next added =>
      cases done
      exact sound.addEntity added
    · cases done
  | removeIntent id =>
    rw [perform_removeIntent] at done
    cases done
    exact sound.removeIntent id

theorem isSound_apply {model : Model} (sound : model.IsSound) (request : Request) :
    (apply model request).IsSound := by
  unfold apply
  split
  · next done => exact isSound_of_perform_ok sound done
  · next failed => rwa [eq_of_perform_error failed]

/-- Whatever is asked of it, a model stays sound. -/
theorem isSound_applyAll {model : Model} (sound : model.IsSound) (requests : List Request) :
    (applyAll model requests).IsSound := by
  induction requests generalizing model with
  | nil => exact sound
  | cons request rest ih => exact ih (isSound_apply sound request)

/-- After any requests to a new model of any language it is sound, and a request that fails then
leaves all intents and entities as they were. -/
theorem isSound_and_unchanged (tag : String) (numbers : Registry) (requests : List Request) :
    (applyAll (.new tag numbers) requests).IsSound ∧
      ∀ request error after,
        perform request (applyAll (.new tag numbers) requests) = .error error after →
          after.intents = (applyAll (.new tag numbers) requests).intents ∧
            after.entities = (applyAll (.new tag numbers) requests).entities := by
  refine ⟨isSound_applyAll (isSound_new tag numbers) requests, fun request error after failed => ?_⟩
  rw [eq_of_perform_error failed]
  exact ⟨rfl, rfl⟩

/-- A group that is not closed refuses the phrase before it, too. -/
theorem unchanged_after_unclosed_group :
    ∃ model error after,
      model = applyAll (.new "en" .standard) [.addIntent "go" ["go", "Go!", "run"],
        .addEntity (.list "city" .strict ["new  York", "Rome", "ROME "])] ∧
      perform (.addIntent "go" ["stop", "[now"]) model = .error error after ∧
      after.intents = model.intents ∧ after.entities = model.entities := by
  generalize made : applyAll (.new "en" .standard) [.addIntent "go" ["go", "Go!", "run"],
    .addEntity (.list "city" .strict ["new  York", "Rome", "ROME "])] = model
  have failed : (model.addIntent "go" ["stop", "[now"]).toBool = false := by
    rw [← made]
    decide +kernel
  cases refused : model.addIntent "go" ["stop", "[now"] with
  | ok next =>
    rw [refused] at failed
    cases failed
  | error error =>
    have failing : perform (.addIntent "go" ["stop", "[now"]) model = .error error model := by
      rw [perform_addIntent, refused]
    refine ⟨model, error, model, rfl, failing, ?_⟩
    subst made
    exact (isSound_and_unchanged _ _ _).2 _ _ _ failing

end Request

end Phrasebook
