import Phrasebook.Proofs.RegistrationOrder
import Phrasebook.Proofs.TemplateGrammar
import Phrasebook.Proofs.WordSpans

/-! What strict lists take as values.

A strict list takes only its own phrases. In a slot that stands alone it takes the core of an
input if that is the normal form of one of its phrases. The separators around the core are
not part of a value, so a phrase that has some at its ends in normal form is never found.
-/

set_option autoImplicit false

namespace Phrasebook

open Text

namespace Entity

/-- A strict list makes of a text the phrase that the text collapses to. -/
theorem value?_eq_some_iff {entity : Entity} (strict : entity.mode = .strict)
    {text value : List Char} :
    entity.value? text = some value ↔
      value = collapse text ∧ String.ofList value ∈ entity.phrases := by
  obtain ⟨name, extractor⟩ := entity
  cases extractor with
  | any | integer reader => simp [mode] at strict
  | list mode phrases greed =>
    cases (strict : mode = .strict)
    simp only [value?, Entity.phrases, Option.map_eq_some_iff]
    constructor
    · rintro ⟨phrase, found, rfl⟩
      have written := List.find?_some found
      exact ⟨beq_iff_eq.1 written, by simpa using List.mem_of_find?_eq_some found⟩
    · rintro ⟨rfl, listed⟩
      cases found : phrases.find? fun phrase => phrase.toList == collapse text with
      | some phrase =>
        have written := List.find?_some found
        exact ⟨phrase, rfl, beq_iff_eq.1 written⟩
      | none => simpa using List.find?_eq_none.1 found _ listed

theorem isRequired_of_strict {entity : Entity} (strict : entity.mode = .strict) :
    entity.isRequired = true := by
  obtain ⟨name, extractor⟩ := entity
  cases extractor with
  | any | integer reader => simp [mode] at strict
  | list mode phrases greed =>
    cases (strict : mode = .strict)
    rfl

end Entity

namespace Model

theorem matchesOf_ne_nil_iff {m : Matcher} {intent : Intent} {pattern : Pattern} {text : List Char}
    (single : intent.patterns = [pattern]) :
    matchesOf m intent text ≠ [] ↔ (m.matchText pattern.parts text).isSome = true := by
  rw [matchesOf, single, List.filterMap_cons, List.filterMap_nil]
  cases m.matchText pattern.parts text <;> simp

/-- A value under the name of a strict list is one of its phrases. Only French puts
no-break spaces into the phrase. -/
theorem exists_phrase_of_strict {model : Model} {input name : String} {result : MatchResult}
    {value : EntityValue} {entity : Entity} (member : result ∈ model.findMatches input)
    (captured : (name, value) ∈ result.entities)
    (registered : model.entities.get? (slotClass name.toList) = some entity)
    (strict : entity.mode = .strict) :
    ∃ phrase ∈ entity.phrases,
      value.value =
        if model.orthography.language = .french ∧ model.options.normalizeFrenchSpacing = true then
          String.ofList (FrenchSpacing.restore phrase.toList)
        else phrase := by
  obtain ⟨intent, -, pattern, -, found, matched, rfl⟩ := exists_of_mem_findMatches member
  obtain ⟨spans, accounts⟩ := Matcher.exists_accounts matched
  obtain ⟨span, last, taken⟩ := (accounts.values name value).1 captured
  have named := List.find?_some last
  have entityOf : model.matcher.entityOf span.slot = entity := by
    rw [← String.toList_ofList (l := span.slot), beq_iff_eq.1 named, Matcher.entityOf]
    simp [matcher, registered]
  obtain ⟨parsed, read, written⟩ := taken.parsed
  rw [entityOf] at read
  obtain ⟨-, listed⟩ := (Entity.value?_eq_some_iff strict).1 read
  refine ⟨String.ofList parsed, listed, ?_⟩
  rw [written, String.toList_ofList]
  by_cases french :
      model.orthography.language = .french ∧ model.options.normalizeFrenchSpacing = true
  · rw [if_pos french, if_pos (by simpa [matcher, Orthography.respaces] using french)]
  · rw [if_neg french, if_neg (by simpa [matcher, Orthography.respaces] using french)]

/-- A phrase with capitals, in a slot with a name of its own. -/
theorem exists_phrase_of_strict_answer :
    ∃ model result value entity,
      ((new "fr-FR" .empty).addEntity (.list "mot" .strict ["Oh: oui", "salut"])).bind
        (·.addIntent "dire" ["dis {mot:premier}"]) = .ok model ∧
      result ∈ model.findMatches "Dis oh\u00A0: oui." ∧
      ("mot:premier", value) ∈ result.entities ∧
      model.entities.get? (slotClass "mot:premier".toList) = some entity ∧
      entity.mode = .strict ∧ value.value = "oh\u00A0: oui" ∧
      ∃ phrase ∈ entity.phrases,
        value.value =
          if model.orthography.language = .french ∧
              model.options.normalizeFrenchSpacing = true then
            String.ofList (FrenchSpacing.restore phrase.toList)
          else phrase := by
  have found :
      (((new "fr-FR" .empty).addEntity (.list "mot" .strict ["Oh: oui", "salut"])).bind
        (·.addIntent "dire" ["dis {mot:premier}"])).map
        (fun model =>
          ((model.findMatches "Dis oh\u00A0: oui.").map MatchResult.entities,
            (model.entities.get? (slotClass "mot:premier".toList)).map Entity.mode)) =
        .ok ([[("mot:premier", ⟨"oh\u00A0: oui", .list⟩)]], some .strict) := by
    decide +kernel
  obtain ⟨model, built, seen⟩ := exists_of_map_eq_ok found
  obtain ⟨results, strict⟩ := Prod.mk.inj seen
  obtain ⟨entity, registered, strict⟩ := Option.map_eq_some_iff.1 strict
  obtain ⟨result, member, entities⟩ := List.mem_map.1 (results ▸ List.mem_singleton_self _)
  have captured : ("mot:premier", ⟨"oh\u00A0: oui", .list⟩) ∈ result.entities :=
    entities ▸ List.mem_singleton_self _
  exact ⟨model, result, _, entity, built, member, captured, registered, strict, rfl,
    exists_phrase_of_strict member captured registered strict⟩

/-- A phrase of a list is not what is captured for it when it gets a no-break space back. -/
theorem exists_value_of_no_phrase :
    ∃ model result value entity, Reachable model ∧
      result ∈ model.findMatches "Oh\u00A0: oui" ∧ ("mot", value) ∈ result.entities ∧
      model.entities.get? (slotClass "mot".toList) = some entity ∧ entity.mode = .strict ∧
      value.value ∉ entity.phrases := by
  have found :
      (((new "fr-FR" .empty).addEntity (.list "mot" .strict ["oh: oui"])).bind
        (·.addIntent "dire" ["{mot}"])).map
        (fun model =>
          ((model.findMatches "Oh\u00A0: oui").map MatchResult.entities,
            (model.entities.get? (slotClass "mot".toList)).map
              fun entity => (entity.mode, entity.phrases))) =
        .ok ([[("mot", ⟨"oh\u00A0: oui", .list⟩)]], some (.strict, ["oh: oui"])) := by
    decide +kernel
  obtain ⟨model, built, seen⟩ := exists_of_map_eq_ok found
  obtain ⟨results, bound⟩ := Prod.mk.inj seen
  obtain ⟨entity, registered, kind⟩ := Option.map_eq_some_iff.1 bound
  obtain ⟨strict, phrases⟩ := Prod.mk.inj kind
  obtain ⟨result, member, entities⟩ := List.mem_map.1 (results ▸ List.mem_singleton_self _)
  have captured : ("mot", ⟨"oh\u00A0: oui", .list⟩) ∈ result.entities :=
    entities ▸ List.mem_singleton_self _
  obtain ⟨filled, added, addedIntent⟩ := exists_of_bind_eq_ok built
  refine ⟨model, result, _, entity, .addIntent (.addEntity (.new ..) added) addedIntent, member,
    captured, registered, strict, ?_⟩
  rw [phrases]
  decide

end Model

namespace Matcher

variable {m : Matcher} {name text : List Char}

theorem dropWhile_settle (m : Matcher) (cursor : Cursor) :
    (m.settle cursor).rest.dropWhile m.orthography.isSeparator =
      cursor.rest.dropWhile m.orthography.isSeparator := by
  unfold settle
  split
  · show ((cursor.rest.dropWhile m.orthography.isInputPunctuation).dropWhile
      m.orthography.isSeparator).dropWhile m.orthography.isSeparator = _
    rw [List.dropWhile_idempotent]
    induction cursor.rest with
    | nil => rfl
    | cons c rest ih =>
      rw [List.dropWhile_cons]
      split
      · next sign =>
        rw [ih, List.dropWhile_cons_of_pos (Orthography.isSeparator_of_isInputPunctuation sign)]
      · rfl
  · rfl

theorem isSome_matchParts_nil_iff {cursor : Cursor} :
    (m.matchParts [] cursor).isSome = true ↔
      ∀ c ∈ cursor.rest, m.orthography.isSeparator c = true := by
  rw [matchParts_nil, ← List.dropWhile_eq_nil_iff, ← dropWhile_settle, List.dropWhile_eq_nil_iff]
  simp

/-- A slot that stands alone and needs a value has one that is tried at the first character of
a word and leaves only separators. -/
theorem isSome_matchText_slot_iff (needed : (m.entityOf name).isRequired = true) :
    (m.matchText [.slot name] text).isSome = true ↔
      ∃ taken ∈ m.candidates (m.entityOf name) (text.dropWhile m.orthography.isSeparator),
        (m.capture? (m.entityOf name) taken).isSome = true ∧
          ∀ c ∈ (text.dropWhile m.orthography.isSeparator).drop taken.length,
            m.orthography.isSeparator c = true := by
  have ahead : ((m.settle (.atStart text)).skip m.orthography.isSeparator).rest =
      text.dropWhile m.orthography.isSeparator := m.dropWhile_settle (.atStart text)
  rw [matchText, matchParts_cons m rfl, List.findSome?_isSome_iff]
  simp only [passages, needed, captures, ahead, Bool.not_true, Bool.and_false, Bool.false_eq_true,
    if_false, List.append_nil, List.mem_filterMap, Option.map_eq_some_iff, Option.isSome_map,
    isSome_matchParts_nil_iff]
  constructor
  · rintro ⟨_, ⟨taken, tried, value, took, rfl⟩, rest⟩
    exact ⟨taken, tried, by simp [took], by simpa [Cursor.forward, ahead] using rest⟩
  · rintro ⟨taken, tried, some, rest⟩
    obtain ⟨value, took⟩ := Option.isSome_iff_exists.1 some
    exact ⟨_, ⟨taken, tried, value, took, rfl⟩, by simpa [Cursor.forward, ahead] using rest⟩

theorem isSome_capture?_iff {entity : Entity} (strict : entity.mode = .strict) {taken : List Char} :
    (m.capture? entity taken).isSome = true ↔
      m.orthography.trimEnd taken ≠ [] ∧
        String.ofList (Entity.collapse (m.orthography.trimEnd taken)) ∈ entity.phrases := by
  unfold capture?
  split
  · next empty => simp [empty]
  · next filled =>
    rw [Option.isSome_map, Option.isSome_iff_exists]
    simp only [Entity.value?_eq_some_iff strict]
    simp [filled]

/-- In a slot that stands alone a strict list takes the core of the text or nothing. -/
theorem isSome_matchText_strict_iff (strict : (m.entityOf name).mode = .strict)
    (bounded : ∀ phrase ∈ (m.entityOf name).phrases,
      m.orthography.countWords phrase.toList ≤ (m.entityOf name).greed)
    (spaces : ∀ c ∈ text, m.orthography.isSpace c = true → m.orthography.isSeparator c = true)
    (collapsed : Entity.collapse (m.orthography.core text) = m.orthography.core text) :
    (m.matchText [.slot name] text).isSome = true ↔
      m.orthography.core text ≠ [] ∧
        String.ofList (m.orthography.core text) ∈ (m.entityOf name).phrases := by
  rw [isSome_matchText_slot_iff (Entity.isRequired_of_strict strict)]
  simp only [isSome_capture?_iff strict]
  -- What is tried and leaves only separators is the core, up to separators at its end.
  have trimmed : ∀ taken, taken <+: text.dropWhile m.orthography.isSeparator →
      (∀ c ∈ (text.dropWhile m.orthography.isSeparator).drop taken.length,
        m.orthography.isSeparator c = true) →
      m.orthography.trimEnd taken = m.orthography.core text := by
    rintro taken ⟨rest, whole⟩ ends
    rw [← whole, List.drop_left] at ends
    rw [Orthography.core, ← whole, Orthography.trimEnd_append_separators _ _ ends]
  constructor
  · rintro ⟨taken, tried, ⟨filled, listed⟩, ends⟩
    rw [trimmed taken (prefix_of_mem_candidates tried) ends] at filled listed
    exact ⟨filled, collapsed ▸ listed⟩
  · rintro ⟨filled, listed⟩
    obtain ⟨after, whole, ends⟩ :=
      m.orthography.exists_trimEnd_append (text.dropWhile m.orthography.isSeparator)
    have inside : ∀ c ∈ m.orthography.core text ++ after, m.orthography.isSpace c = true →
        m.orthography.isSeparator c = true := by
      rw [show m.orthography.core text ++ after = _ from whole]
      exact fun c member => spaces c (List.dropWhile_subset _ member)
    have worded : m.orthography.countWords (m.orthography.core text) ≠ 0 := by
      rw [Ne, Orthography.countWords_eq_zero_iff (List.forall_mem_append.1 inside).1]
      intro all
      obtain ⟨c, rest, head⟩ := List.exists_cons_of_ne_nil filled
      have solid := (m.orthography.hasSolidEnds_core text).head c (by rw [head]; rfl)
      rw [all c (by rw [head]; exact List.mem_cons_self ..)] at solid
      simp at solid
    have few := bounded _ listed
    rw [String.toList_ofList] at few
    obtain ⟨taken, tried, rest⟩ := Orthography.exists_mem_grown inside ends worded few
    rw [show m.orthography.core text ++ after = _ from whole] at tried rest
    have same := trimmed taken (Orthography.prefix_of_mem_grown tried) rest
    refine ⟨taken, ?_, ⟨same ▸ filled, ?_⟩, rest⟩
    · rwa [candidates, if_pos (by omega)]
    · rwa [same, collapsed]

end Matcher

namespace Template

/-- A phrase that is a slot and nothing else. -/
def slotPhrase (name : String) : String := "\x7b" ++ name ++ "\x7d"

theorem compile_slotPhrase (language : Language) {name : String}
    (plain : ∀ c ∈ name.toList, c ∉ signs) (named : isBlankText name.toList = false) :
    compile (.ofLanguage language) (slotPhrase name) =
      .ok ⟨slotPhrase name, [.slot (trim name.toList)]⟩ := by
  have text : (slotPhrase name).toList = '{' :: name.toList ++ ['}'] := by
    simp [slotPhrase, String.toList_append]
  have trimmed : trim ('{' :: name.toList ++ ['}']) = '{' :: name.toList ++ ['}'] := by
    have opener : isBlank '{' = false := by decide
    have closer : isBlank '}' = false := by decide
    simp [trim, opener, closer]
  have read : read (.ofLanguage language) {} 0 ('{' :: name.toList ++ ['}']) =
      .ok ((({} : Progress).settleSpace (.ofLanguage language)).content
        [.slot (trim name.toList)]) := by
    have start : ({} : Progress).slot = none := rfl
    obtain ⟨next, reading, rfl⟩ :=
      (runs_slot_content start plain named : Runs (.ofLanguage language) _ _ _) 0 []
    rw [List.append_nil] at reading
    rw [reading]
    rfl
  rw [compile_eq_ok_iff, text, trimmed]
  exact ⟨_, read, rfl, rfl, rfl, rfl⟩

end Template

namespace Entity

open Numeral

theorem mem_phrases_bind_list {o : Orthography} {numbers : Registry} {name value : String}
    {mode : MatchMode} {phrases : List String} :
    value ∈ ((list name mode phrases).bind o numbers).phrases ↔
      value ≠ "" ∧ ∃ phrase ∈ phrases, String.ofList (o.normalizePhrase phrase.toList) = value := by
  show value ∈ normalizePhrases o phrases ↔ _
  rw [normalizePhrases, mem_sortPhrases, List.mem_filter, List.mem_map, and_comm]
  simp

theorem IsSound.countWords_le {o : Orthography} {entity : Entity} (sound : entity.IsSound o)
    {phrase : String} (listed : phrase ∈ entity.phrases) :
    o.countWords phrase.toList ≤ entity.greed := by
  rw [sound.greed]
  exact List.le_max?_getD_of_mem (List.mem_map_of_mem listed)

end Entity

/-- A name that a slot refers to as it is written. -/
structure IsPlainName (name : String) : Prop where
  named : isBlankText name.toList = false
  trimmed : trim name.toList = name.toList
  plain : ∀ c ∈ name.toList, c ∉ Template.signs
  whole : ':' ∉ name.toList

instance (name : String) : Decidable (IsPlainName name) :=
  decidable_of_iff
    (isBlankText name.toList = false ∧ trim name.toList = name.toList ∧
      (name.toList.all fun c => !Template.signs.contains c) = true ∧ ':' ∉ name.toList)
    ⟨fun ⟨named, trimmed, plain, whole⟩ => ⟨named, trimmed, by simpa using plain, whole⟩,
      fun plain => ⟨plain.named, plain.trimmed, by simpa using plain.plain, plain.whole⟩⟩

theorem IsPlainName.slotClass_eq {name : String} (plain : IsPlainName name) :
    slotClass name.toList = name := by
  have kept : name.toList.takeWhile (· != ':') = name.toList := by
    rw [List.takeWhile_eq_self_iff]
    intro c member
    rw [bne_iff_ne]
    rintro rfl
    exact plain.whole member
  rw [slotClass, kept, String.ofList_toList]

namespace Model

/-- The core of an input is the normal form of one of some phrases, and not empty. -/
def HasCoreAmong (model : Model) (phrases : List String) (input : String) : Prop :=
  model.orthography.core (model.normalize input) ≠ [] ∧
    ∃ phrase ∈ phrases, model.orthography.normalizePhrase phrase.toList =
      model.orthography.core (model.normalize input)

/-- A model whose only pattern is a slot for a strict list finds the phrases of the list. -/
theorem findMatches_strict_iff {model : Model} {language : Language} {intent : Intent}
    {written : String} {name : List Char} {entity : Entity}
    (spoken : model.orthography = .ofLanguage language) (only : model.intents.values = [intent])
    (single : intent.patterns = [⟨written, [.slot name]⟩])
    (registered : model.entities.get? (slotClass name) = some entity)
    (strict : entity.mode = .strict) (sound : entity.IsSound model.orthography) (input : String) :
    model.findMatches input ≠ [] ↔
      model.orthography.core (model.normalize input) ≠ [] ∧
        String.ofList (model.orthography.core (model.normalize input)) ∈ entity.phrases := by
  have entityOf : model.matcher.entityOf name = entity := by
    simp [Matcher.entityOf, matcher, registered]
  have normal := model.orthography.isNormal_normalizeInput model.options input.toList
  have collapsed : Entity.collapse (model.orthography.core (model.normalize input)) =
      model.orthography.core (model.normalize input) := by
    rw [Model.normalize, spoken, Orthography.collapse_core_normalizeInput]
  have exactly : (model.matcher.matchText [.slot name] (model.normalize input)).isSome = true ↔ _ :=
    Matcher.isSome_matchText_strict_iff (by rwa [entityOf])
      (by rw [entityOf]; exact fun phrase => sound.countWords_le)
      (normal.forall_isSeparator spoken) collapsed
  rw [entityOf] at exactly
  rw [findMatches, only, List.flatMap_singleton, matchesOf_ne_nil_iff single]
  exact exactly

end Model

namespace Request

open Model Numeral

variable {model : Model} {name id : String}

/-- An entity and an intent that is a slot for it can be registered under plain names. -/
theorem exists_leads_slot {language : Language} (spoken : model.orthography = .ofLanguage language)
    (fresh : model.intents = .empty) {entity : Entity} (plain : IsPlainName entity.name)
    (named : isBlankText id.toList = false) :
    ∃ next : Model,
      Leads [.addEntity entity, .addIntent id [Template.slotPhrase entity.name]] model next ∧
      next.orthography = model.orthography ∧ next.options = model.options ∧
      next.intents.values =
        [⟨id, 0, [⟨Template.slotPhrase entity.name, [.slot entity.name.toList]⟩]⟩] ∧
      next.entities.get? (slotClass entity.name.toList) =
        some (entity.bind model.orthography model.numbers) := by
  have compiled : compileAll model.orthography [Template.slotPhrase entity.name] =
      .ok [⟨Template.slotPhrase entity.name, [.slot entity.name.toList]⟩] := by
    rw [compileAll, List.mapM_cons, spoken, Template.compile_slotPhrase language plain.plain plain.named,
      plain.trimmed]
    rfl
  refine ⟨_, leads_addEntity_cons_iff.2 ⟨plain.named, leads_addIntent_cons_iff.2
    ⟨named, _, compiled, leads_nil_iff.2 rfl⟩⟩, rfl, rfl, ?_, ?_⟩
  · simp only [withPatterns, fresh]
    rfl
  · rw [plain.slotClass_eq]
    exact (Dictionary.get?_insert ..).trans (if_pos rfl)

/-- A strict list and a slot for it can be registered, and an input is matched exactly if its core
is the normal form of a phrase of the list. -/
theorem exists_leads_list (tag : String) (numbers : Registry) (phrases : List String)
    (plain : IsPlainName name) (named : isBlankText id.toList = false) :
    ∃ model,
      Leads [.addEntity (.list name .strict phrases), .addIntent id [Template.slotPhrase name]]
        (.new tag numbers) model ∧
      model.orthography = .ofTag tag.toList ∧ model.options = {} ∧
      ∀ input, model.findMatches input ≠ [] ↔ model.HasCoreAmong phrases input := by
  obtain ⟨language, spoken⟩ := (Reachable.new tag numbers).exists_language
  obtain ⟨model, leads, spelled, options, only, registered⟩ :
      ∃ next, Leads [.addEntity (.list name .strict phrases), .addIntent id [Template.slotPhrase name]]
        (.new tag numbers) next ∧ _ := exists_leads_slot spoken rfl plain named
  have sound : ((Entity.list name .strict phrases).bind model.orthography numbers).IsSound
      model.orthography := by
    rw [spelled, spoken]
    exact Entity.isSound_bind language numbers plain.named
  rw [← spelled] at registered
  refine ⟨model, leads, by rw [spelled, Model.new], options, fun input => ?_⟩
  rw [findMatches_strict_iff (spelled.trans spoken) only rfl registered rfl sound,
    Entity.mem_phrases_bind_list, HasCoreAmong]
  simp only [String.ofList_inj, ne_eq, String.ofList_eq_empty_iff, and_self_left]

/-- In a slot that stands alone a strict list recognizes the inputs whose core is the normal form of
a phrase, and no others. So it recognizes each phrase of its own whose normal form has no separator
at either end and that French spacing makes no difference to. -/
theorem leads_strict_list (tag : String) (numbers : Registry) (phrases : List String)
    (plain : IsPlainName name) (named : isBlankText id.toList = false) :
    ∃ model,
      Leads [.addEntity (.list name .strict phrases), .addIntent id [Template.slotPhrase name]]
        (.new tag numbers) model ∧
      model.orthography = .ofTag tag.toList ∧ model.options = {} ∧
      (∀ input, model.findMatches input ≠ [] ↔ model.HasCoreAmong phrases input) ∧
      ∀ phrase ∈ phrases, model.orthography.normalizePhrase phrase.toList ≠ [] →
        model.orthography.HasSolidEnds (model.orthography.normalizePhrase phrase.toList) →
        model.orthography.normalizePhrase (model.orthography.plain model.options phrase.toList) =
          model.orthography.normalizePhrase phrase.toList →
        model.findMatches phrase ≠ [] := by
  obtain ⟨model, leads, spelled, options, recognized⟩ :=
    exists_leads_list tag numbers phrases plain named
  refine ⟨model, leads, spelled, options, recognized, fun phrase listed filled ends same => ?_⟩
  have normalized : model.normalize phrase = model.orthography.normalizePhrase phrase.toList := by
    rw [← same] at ends ⊢
    rw [Model.normalize]
    rw [spelled, Orthography.ofTag] at ends ⊢
    exact Orthography.normalizeInput_of_hasSolidEnds ends
  rw [recognized, HasCoreAmong, normalized, Orthography.core_of_hasSolidEnds ends]
  exact ⟨filled, phrase, listed, rfl⟩

/-- A phrase with signs inside, as it is and with quotes and no-break spaces. -/
theorem leads_strict_list_meeting :
    ∃ model,
      IsPlainName "heure" ∧ isBlankText "voir".toList = false ∧
      Leads [.addEntity (.list "heure" .strict ["Yahoo!", "Rendez-vous: 10 h"]),
        .addIntent "voir" ["{heure}"]] (.new "fr-FR" .standard) model ∧
      model.findMatches "«\u00A0Rendez-vous\u00A0: 10 h\u00A0»." ≠ [] ∧
      model.findMatches "Rendez-vous: 10 h" ≠ [] := by
  have plain : IsPlainName "heure" := by decide
  obtain ⟨model, leads, spelled, options, recognized, found⟩ :=
    leads_strict_list "fr-FR" .standard ["Yahoo!", "Rendez-vous: 10 h"] plain
      (by decide : isBlankText "voir".toList = false)
  simp only [HasCoreAmong, Model.normalize, spelled, options] at recognized found
  refine ⟨model, plain, by decide, leads, (recognized _).2 ?_, found _ (by simp) ?_ ?_ ?_⟩
  all_goals decide +kernel

/-- A phrase that ends in a sign is never found, although it has letters. -/
theorem leads_strict_list_exclamation :
    ∃ model,
      Leads [.addEntity (.list "site" .strict ["Yahoo!"]), .addIntent "open" ["{site}"]]
        (.new "en-US" .standard) model ∧
      IsPlainName "site" ∧
      (∃ c ∈ "Yahoo!".toList, model.orthography.isSpace c = false ∧
        model.orthography.isInputPunctuation c = false) ∧
      model.findMatches "Yahoo!" = [] := by
  have plain : IsPlainName "site" := by decide
  obtain ⟨model, leads, spelled, options, recognized⟩ :=
    exists_leads_list "en-US" .standard ["Yahoo!"] plain (by decide : isBlankText "open".toList = false)
  refine ⟨model, leads, plain, ⟨'Y', by decide, ?_⟩, ?_⟩
  · rw [spelled]
    decide +kernel
  · simp only [HasCoreAmong, Model.normalize, spelled, options] at recognized
    rw [← not_ne_iff, recognized]
    decide +kernel

end Request

end Phrasebook
