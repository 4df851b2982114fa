import Phrasebook.Proofs.RegistrationOrder
import Phrasebook.Proofs.SlotNames

/-! What a registration does not touch.

Matching asks for the entities of a pattern's own slots and for no others, so an entity
concerns only the patterns that name its class. The results of an intent are its own: they
do not depend on which other intents there are.
-/

set_option autoImplicit false

namespace Phrasebook

open Text Part

namespace Matcher

variable {m : Matcher} {entity? : String → Option Entity}

/-- Matchers that differ in their entities pass a part alike, if they agree on its class. -/
theorem passages_congr {part : Part}
    (agree : ∀ name ∈ part.slotNames, entity? (slotClass name) = m.entity? (slotClass name))
    (cursor : Cursor) :
    ({ m with entity? := entity? } : Matcher).passages part cursor = m.passages part cursor := by
  cases part with
  | slot name =>
    have same : ({ m with entity? := entity? } : Matcher).entityOf name = m.entityOf name := by
      simp only [entityOf, agree name (List.mem_singleton_self name)]
    simp only [passages, captures, candidates, capture?, same]
  | letter c | space | boundary | group optional alternatives => rfl

/-- The entities of other classes have no part in a match. -/
theorem matchParts_congr {parts : List Part}
    (agree : ∀ name ∈ slotNamesOfAll parts, entity? (slotClass name) = m.entity? (slotClass name))
    (cursor : Cursor) :
    ({ m with entity? := entity? } : Matcher).matchParts parts cursor =
      m.matchParts parts cursor := by
  -- An alternative is matched together with the rest, so the induction is on the size.
  induction size : sizeOf parts using Nat.strongRecOn generalizing parts cursor with
  | ind bound ih =>
    subst size
    cases parts with
    | nil =>
      rw [matchParts_nil, matchParts_nil]
      rfl
    | cons part rest =>
      obtain ⟨here, later⟩ := List.forall_mem_append.1 agree
      have further := fun next => ih _ (by simp only [List.cons.sizeOf_spec]; omega) later next rfl
      cases part with
      | group optional alternatives =>
        have chosen : ∀ alternative ∈ alternatives,
            ({ m with entity? := entity? } : Matcher).matchParts (alternative ++ rest)
                (m.settle cursor) =
              m.matchParts (alternative ++ rest) (m.settle cursor) := by
          intro alternative member
          have inside := fun name listed =>
            here name ((slotNames_sublist_of_mem member).subset listed)
          have agreed := List.forall_mem_append.2 ⟨inside, later⟩
          rw [← slotNamesOfAll_append] at agreed
          refine ih _ ?_ agreed _ rfl
          have smaller := List.sizeOf_lt_of_mem member
          have split := sizeOf_append_parts alternative rest
          simp only [List.cons.sizeOf_spec, group.sizeOf_spec]
          omega
        rw [matchParts_group, matchParts_group, further]
        congr 1
        rw [← List.head?_filterMap, ← List.head?_filterMap]
        exact congrArg _ (List.filterMap_congr chosen)
      | letter c | space | boundary | slot name =>
        rw [matchParts_cons _ rfl, matchParts_cons _ rfl]
        simp only [further]
        exact congrArg _ (passages_congr here (m.settle cursor))

end Matcher

namespace Dictionary

variable {α : Type}

theorem filter_alterEntries (name : String) (change : Option α → α) (entries : List (String × α)) :
    (alterEntries name change entries).filter (fun entry => entry.1 != name) =
      entries.filter fun entry => entry.1 != name := by
  induction entries with
  | nil => simp [alterEntries]
  | cons head rest ih =>
    unfold alterEntries
    split
    · simp
    · split
      · next same => simp [same]
      · simp only [List.filter_cons, ih]

end Dictionary

namespace Model

open Numeral

variable {model : Model}

theorem Reachable.isSound (reachable : Reachable model) : model.IsSound := by
  induction reachable with
  | new tag numbers => exact isSound_new tag numbers
  | withOptions options _ ih => exact ⟨ih.spoken, ih.intents, ih.entities⟩
  | addIntent _ added ih => exact ih.addIntent added
  | addEntity _ added ih => exact ih.addEntity added
  | removeIntent id _ ih => exact ih.removeIntent id

theorem intentId_of_mem_matchesOf {m : Matcher} {intent : Intent} {text : List Char}
    {result : MatchResult} (member : result ∈ matchesOf m intent text) :
    result.intentId = intent.id := by
  obtain ⟨pattern, -, found⟩ := List.mem_filterMap.1 member
  obtain ⟨_, -, rfl⟩ := Option.map_eq_some_iff.1 found
  rfl

/-- The results for all intents but one come from the entries under other names. -/
theorem filter_findMatches (sound : model.IsSound) (id input : String) :
    (model.findMatches input).filter (fun result => result.intentId != id) =
      (model.intents.entries.filter fun entry => entry.1 != id).flatMap fun entry =>
        matchesOf model.matcher entry.2 (model.normalize input) := by
  have named : ∀ entry ∈ model.intents.entries, entry.2.id = entry.1 :=
    fun entry listed => (sound.intents entry.1 entry.2 listed).1
  unfold findMatches Dictionary.values
  rw [List.flatMap_map]
  generalize model.intents.entries = entries at named
  induction entries with
  | nil => rfl
  | cons entry rest ih =>
    obtain ⟨own, others⟩ := List.forall_mem_cons.1 named
    have results : ∀ result ∈ matchesOf model.matcher entry.2 (model.normalize input),
        (result.intentId != id) = (entry.1 != id) := by
      intro result member
      rw [intentId_of_mem_matchesOf member, own]
    rw [List.flatMap_cons, List.filter_append, ih others, List.filter_congr results,
      List.filter_cons]
    cases entry.1 != id <;> simp

end Model

namespace Request

open Model

variable {model : Model}

/-- Other intents have the results that they had. -/
theorem filter_findMatches_withIntents {intents : Dictionary Intent} {id : String}
    (sound : model.IsSound) (after : ({ model with intents := intents } : Model).IsSound)
    (kept : (intents.entries.filter fun entry => entry.1 != id) =
      model.intents.entries.filter fun entry => entry.1 != id) (input : String) :
    (({ model with intents := intents } : Model).findMatches input).filter
        (fun result => result.intentId != id) =
      (model.findMatches input).filter fun result => result.intentId != id := by
  rw [filter_findMatches after, filter_findMatches sound, kept]
  rfl

/-- An entity concerns only the patterns with a slot of its class, and an intent only its own
results. -/
theorem unaffected_by_apply (reachable : Reachable model) (input : String) :
    (∀ (entity : Entity) (pattern : Pattern),
      (∀ slot ∈ pattern.slotNames, slotClass slot ≠ entity.name) →
      (apply model (.addEntity entity)).matcher.matchText pattern.parts
          ((apply model (.addEntity entity)).normalize input) =
        model.matcher.matchText pattern.parts (model.normalize input)) ∧
    ∀ id request, ((∃ phrases, request = .addIntent id phrases) ∨ request = .removeIntent id) →
      ((apply model request).findMatches input).filter (fun result => result.intentId != id) =
        (model.findMatches input).filter fun result => result.intentId != id := by
  have sound := reachable.isSound
  refine ⟨fun entity pattern apart => ?_, fun id request kind => ?_⟩
  · rcases apply_addEntity model entity with same | stored
    · rw [same]
    · have agree : ∀ name ∈ slotNamesOfAll pattern.parts,
          (model.entities.insert entity.name (entity.bind model.orthography model.numbers)).get?
            (slotClass name) = model.entities.get? (slotClass name) := by
        intro name listed
        rw [Dictionary.get?_insert, if_neg]
        apply apart
        rw [Pattern.slotNames_eq_eraseDups]
        exact List.mem_eraseDups.2 listed
      rw [stored]
      exact Matcher.matchParts_congr (m := model.matcher) agree _
  · have after := isSound_apply sound request
    rcases kind with ⟨phrases, rfl⟩ | rfl
    · rcases apply_addIntent model id phrases with same | ⟨patterns, stored⟩
      · rw [same]
      · rw [stored] at after ⊢
        exact filter_findMatches_withIntents sound after (Dictionary.filter_alterEntries ..) input
    · refine filter_findMatches_withIntents sound after ?_ input
      simp [Dictionary.erase, List.filter_filter]

/-- The slot of an optional group is of the class before the colon, so a list of its whole name
does not concern it; nor does another intent that matches the same input. -/
theorem unaffected_lights :
    ∃ model pattern,
      (Model.new "en-US" .standard).addIntent "on" ["lights on [in {room:here}]"] = .ok model ∧
      Template.compile model.orthography "lights on [in {room:here}]" = .ok pattern ∧
      (∀ slot ∈ pattern.slotNames, slotClass slot ≠ "room:here") ∧
      (apply model (.addEntity (.list "room:here" .strict ["hall"]))).matcher.matchText pattern.parts
          ((apply model (.addEntity (.list "room:here" .strict ["hall"]))).normalize
            "Lights on in the kitchen!") =
        model.matcher.matchText pattern.parts (model.normalize "Lights on in the kitchen!") ∧
      ((apply model (.addIntent "lights" ["lights on {rest}"])).findMatches
          "Lights on in the kitchen!").filter (fun result => result.intentId != "lights") =
        (model.findMatches "Lights on in the kitchen!").filter
          fun result => result.intentId != "lights" := by
  have compiles : (Template.compile (Model.new "en-US" .standard).orthography
      "lights on [in {room:here}]").map (fun pattern =>
        pattern.slotNames.all fun slot => slotClass slot != "room:here") = .ok true := by
    decide +kernel
  obtain ⟨pattern, compiled, named⟩ := exists_of_map_eq_ok compiles
  have apart : ∀ slot ∈ pattern.slotNames, slotClass slot ≠ "room:here" :=
    fun slot listed => bne_iff_ne.1 (List.all_eq_true.1 named slot listed)
  have added : (Model.new "en-US" .standard).addIntent "on" ["lights on [in {room:here}]"] =
      .ok ((Model.new "en-US" .standard).withPatterns "on" [pattern]) := by
    refine addIntent_eq_ok_iff.2 ⟨by decide, [pattern], ?_, rfl⟩
    rw [compileAll, List.mapM_cons, compiled]
    rfl
  obtain ⟨entities, intents⟩ :=
    unaffected_by_apply (.addIntent (.new "en-US" .standard) added) "Lights on in the kitchen!"
  exact ⟨_, pattern, added, compiled, apart, entities (.list "room:here" .strict ["hall"]) pattern apart,
    intents "lights" _ (.inl ⟨_, rfl⟩)⟩

end Request

end Phrasebook
