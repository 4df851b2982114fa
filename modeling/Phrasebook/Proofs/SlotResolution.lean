import Phrasebook.Proofs.SlotRuns
import Phrasebook.Proofs.StrictLists

/-! Which entity a slot refers to.

A registered entity is found under its name until another one of that name is registered. The
name of a slot is trimmed and ends, as far as entities go, at its first colon. So a slot refers to
an entity by its whole name, or by its name and a role after a colon.
-/

set_option autoImplicit false

namespace Phrasebook

open Text Part PlacedPart

namespace Entity

theorem type_bind (o : Orthography) (numbers : Numeral.Registry) (entity : Entity) :
    (entity.bind o numbers).type = entity.type := by
  obtain ⟨name, extractor⟩ := entity
  cases extractor <;> rfl

theorem mode_bind (o : Orthography) (numbers : Numeral.Registry) (entity : Entity) :
    (entity.bind o numbers).mode = entity.mode := by
  obtain ⟨name, extractor⟩ := entity
  cases extractor <;> rfl

end Entity

/-- What a slot of a strict list has captured is one of its phrases, with no-break spaces put back
where that is due. -/
theorem Matcher.Captured.exists_phrase {m : Matcher} {span : CapturedSpan} {value : EntityValue}
    (taken : m.Captured span value) (strict : (m.entityOf span.slot).mode = .strict) :
    ∃ phrase ∈ (m.entityOf span.slot).phrases,
      value.value =
        if m.respaces then String.ofList (FrenchSpacing.restore phrase.toList) else phrase := by
  obtain ⟨parsed, read, written⟩ := taken.parsed
  obtain ⟨-, listed⟩ := (Entity.value?_eq_some_iff strict).1 read
  refine ⟨String.ofList parsed, listed, ?_⟩
  rw [written, String.toList_ofList]
  split <;> rfl

namespace Request

/-- What a model can become before the entity of a name is replaced. -/
inductive Unreplaced (name : String) (model : Model) : Model → Prop where
  | here : Unreplaced name model model
  | request {later : Model} {request : Request} : Unreplaced name model later →
      (∀ entity, request = .addEntity entity → entity.name ≠ name) →
      Unreplaced name model (apply later request)
  | withOptions {later : Model} (options : MatchOptions) : Unreplaced name model later →
      Unreplaced name model (later.withOptions options)

/-- Only another entity of the name takes its place. -/
theorem get?_entities_apply {model : Model} {request : Request} {name : String}
    (kept : ∀ entity, request = .addEntity entity → entity.name ≠ name) :
    (apply model request).entities.get? name = model.entities.get? name := by
  cases request with
  | addIntent id phrases =>
    rcases apply_addIntent model id phrases with same | ⟨patterns, stored⟩
    · rw [same]
    · rw [stored]
      rfl
  | addEntity entity =>
    rcases apply_addEntity model entity with same | stored
    · rw [same]
    · rw [stored, Dictionary.get?_insert, if_neg fun same => kept entity rfl same.symm]
  | removeIntent id => rfl

theorem Unreplaced.get?_entities {name : String} {model later : Model}
    (reached : Unreplaced name model later) :
    later.entities.get? name = model.entities.get? name ∧
      later.orthography = model.orthography := by
  induction reached with
  | here => exact ⟨rfl, rfl⟩
  | request _ kept ih =>
    exact ⟨(get?_entities_apply kept).trans ih.1, (orthography_apply ..).trans ih.2⟩
  | withOptions options _ ih => exact ih

end Request

namespace Model

open Request

/-- An entity that is registered, and not replaced, is what the slots of its name refer to. -/
theorem entityOf_of_addEntity {model next later : Model} {entity : Entity} {name : List Char}
    (added : model.addEntity entity = .ok next) (reached : Unreplaced entity.name next later)
    (classed : slotClass name = entity.name) :
    later.matcher.entityOf name = entity.bind model.orthography model.numbers := by
  have stored : next.entities.get? entity.name =
      some (entity.bind model.orthography model.numbers) := by
    rw [(eq_of_addEntity added).2]
    exact (Dictionary.get?_insert ..).trans (if_pos rfl)
  rw [Matcher.entityOf, classed]
  show ((later.entities.get? entity.name).getD _) = _
  rw [reached.get?_entities.1, stored]
  rfl

/-- A slot whose trimmed name is that of a registered entity, up to a colon, is matched with that
entity, so that a strict list lets none but its own phrases through. -/
theorem resolves_of_addEntity {model next later : Model} {entity : Entity}
    (reachable : Reachable model) (added : model.addEntity entity = .ok next)
    (reached : Unreplaced entity.name next later) {phrase : String} {pattern : Pattern}
    {before name after : List Char}
    (compiled : Template.compile later.orthography phrase = .ok pattern)
    (layout : phrase.toList = before ++ '{' :: name ++ '}' :: after) (plain : '}' ∉ name)
    (classed : slotClass (trim name) = entity.name) :
    (slotNamesOfAll pattern.parts)[before.count '{']? = some (trim name) ∧
    later.matcher.entityOf (trim name) = entity.bind model.orthography model.numbers ∧
    later.matcher.EachCapture pattern.parts (before.count '{') fun _ capture =>
      capture.span.slot = trim name ∧ capture.value.type = entity.type ∧
        (entity.mode = .strict →
          ∃ listed ∈ (entity.bind model.orthography model.numbers).phrases,
            capture.value.value =
              if later.matcher.respaces then String.ofList (FrenchSpacing.restore listed.toList)
              else listed) := by
  obtain ⟨language, spoken⟩ := reachable.exists_language
  have same : later.orthography = model.orthography := by
    rw [reached.get?_entities.2, (eq_of_addEntity added).2]
  have resolved := entityOf_of_addEntity added reached classed
  rw [same, spoken] at compiled
  have numbered := Template.getElem?_slotNames_of_compile compiled layout plain
  refine ⟨numbered, resolved, .of_run fun text captures run capture member number => ?_⟩
  obtain ⟨slot, taken, -⟩ := run.captured (Fits.ofParts pattern.parts) capture member
  rw [← List.getElem?_map, map_name_placedSlotsOfAll, number, numbered] at slot
  have named : capture.span.slot = trim name := (Option.some.inj slot).symm
  refine ⟨named, ?_, fun strict => ?_⟩
  · rw [taken.kind, ← later.matcher.type_entityOf, named, resolved, Entity.type_bind]
  · have listed := taken.exists_phrase (by rw [named, resolved, Entity.mode_bind, strict])
    rwa [named, resolved] at listed

/-- A slot with a role, in a model that has got another entity and an intent since. -/
theorem resolves_of_addEntity_city :
    ∃ next later pattern found,
      Reachable (new "en-US" .standard) ∧
      (new "en-US" .standard).addEntity (.list "City" .strict ["Paris", "New York"]) = .ok next ∧
      Unreplaced "City" next later ∧
      Template.compile later.orthography "fly from { City:from } to {City}" = .ok pattern ∧
      "fly from { City:from } to {City}".toList =
        "fly from ".toList ++ '{' :: " City:from ".toList ++ '}' :: " to {City}".toList ∧
      '}' ∉ " City:from ".toList ∧ slotClass (trim " City:from ".toList) = "City" ∧
      later.matcher.matchText pattern.parts "fly from new york to paris".toList = some found ∧
      found.captures = [("City:from", ⟨"new york", .list⟩), ("City", ⟨"paris", .list⟩)] ∧
      (slotNamesOfAll pattern.parts)["fly from ".toList.count '{']? =
        some (trim " City:from ".toList) ∧
      later.matcher.EachCapture pattern.parts ("fly from ".toList.count '{') fun _ capture =>
        ∃ listed ∈ ((Entity.list "City" .strict ["Paris", "New York"]).bind
            (new "en-US" .standard).orthography .standard).phrases,
          capture.value.value =
            if later.matcher.respaces then String.ofList (FrenchSpacing.restore listed.toList)
            else listed := by
  have seen : ((new "en-US" .standard).addEntity (.list "City" .strict ["Paris", "New York"])).map
      (fun next =>
        let later := applyAll next
          [.addEntity (.list "Day" .basic ["today"]), .addIntent "stay" ["stay {Day}"]]
        ((Template.compile later.orthography "fly from { City:from } to {City}").toOption.bind
          fun pattern =>
            later.matcher.matchText pattern.parts "fly from new york to paris".toList).map
          Match.captures) =
        .ok (some [("City:from", ⟨"new york", .list⟩), ("City", ⟨"paris", .list⟩)]) := by
    decide +kernel
  obtain ⟨next, added, matched⟩ := exists_of_map_eq_ok seen
  obtain ⟨found, matched, captures⟩ := Option.map_eq_some_iff.1 matched
  obtain ⟨pattern, compiles, matched⟩ := Option.bind_eq_some_iff.1 matched
  have reached : Unreplaced "City" next (applyAll next
      [.addEntity (.list "Day" .basic ["today"]), .addIntent "stay" ["stay {Day}"]]) := by
    refine .request (.request .here ?_) (by simp)
    rintro entity same
    cases same
    decide
  have compiled : Template.compile (applyAll next
      [.addEntity (.list "Day" .basic ["today"]), .addIntent "stay" ["stay {Day}"]]).orthography
        "fly from { City:from } to {City}" = .ok pattern := by
    revert compiles
    cases Template.compile _ _ <;> simp [Except.toOption]
  obtain ⟨layout, plain, classed⟩ : "fly from { City:from } to {City}".toList =
        "fly from ".toList ++ '{' :: " City:from ".toList ++ '}' :: " to {City}".toList ∧
      '}' ∉ " City:from ".toList ∧ slotClass (trim " City:from ".toList) = "City" := by
    decide +kernel
  obtain ⟨slot, -, each⟩ :=
    resolves_of_addEntity (.new "en-US" .standard) added reached compiled layout plain classed
  refine ⟨next, _, pattern, found, .new .., added, reached, compiled, layout, plain, classed, matched,
    captures, slot, fun text other matched => ⟨(each text other matched).1, ?_⟩⟩
  intro captures run capture member number
  exact ((each text other matched).2 captures run capture member number).2.2 rfl

/-- A strict list whose own name has a colon in it is not what a slot of that name refers to. -/
theorem exists_entityOf_of_colon :
    ∃ next model result entity,
      (new "en-US" .standard).addEntity (.list "City:from" .strict ["Paris"]) = .ok next ∧
      next.addIntent "go" ["from {City:from}"] = .ok model ∧
      model.entities.get? "City:from" = some entity ∧ entity.mode = .strict ∧
      entity.phrases = ["paris"] ∧
      (model.matcher.entityOf "City:from".toList).type = .any ∧
      result ∈ model.findMatches "from Rome" ∧
      result.entities = [("City:from", ⟨"rome", .any⟩)] := by
  have seen : (((new "en-US" .standard).addEntity (.list "City:from" .strict ["Paris"])).bind
      (·.addIntent "go" ["from {City:from}"])).map (fun model =>
        ((model.findMatches "from Rome").map MatchResult.entities,
          (model.entities.get? "City:from").map fun entity => (entity.mode, entity.phrases),
          (model.matcher.entityOf "City:from".toList).type)) =
        .ok ([[("City:from", ⟨"rome", .any⟩)]], some (.strict, ["paris"]), .any) := by
    decide +kernel
  obtain ⟨model, built, seen⟩ := exists_of_map_eq_ok seen
  obtain ⟨next, added, addedIntent⟩ := exists_of_bind_eq_ok built
  obtain ⟨results, bound, referred⟩ : _ ∧ _ ∧ _ := by simpa only [Prod.mk.injEq] using seen
  obtain ⟨entity, registered, kind⟩ := Option.map_eq_some_iff.1 bound
  obtain ⟨strict, phrases⟩ := Prod.mk.inj kind
  obtain ⟨result, member, entities⟩ := List.mem_map.1 (results ▸ List.mem_singleton_self _)
  exact ⟨next, model, result, entity, added, addedIntent, registered, strict, phrases, referred,
    member, entities⟩

end Model

end Phrasebook
