import Phrasebook.Proofs.RegistrationOrder

/-! Building a model from a definition.

Once a definition is valid, nothing but a phrase can stop its registrations: every id and
every name has been looked at. Entities and intents are kept apart, so that a model is the
same in whatever order the two kinds of registrations come.
-/

set_option autoImplicit false

namespace Phrasebook

open Text Numeral

/-- A list that takes the elements of two others, each in its order. -/
inductive Interleaves {α : Type} : List α → List α → List α → Prop where
  | nil : Interleaves [] [] []
  | left {first second whole : List α} (item : α) : Interleaves first second whole →
      Interleaves (item :: first) second (item :: whole)
  | right {first second whole : List α} (item : α) : Interleaves first second whole →
      Interleaves first (item :: second) (item :: whole)

/-- The fault of the first phrase that does not compile. -/
def FirstFault (o : Orthography) (phrases : List String) (fault : TemplateError) : Prop :=
  ∃ before phrase after, phrases = before ++ phrase :: after ∧
    (∀ earlier ∈ before, ∃ pattern, Template.compile o earlier = .ok pattern) ∧
    Template.compile o phrase = .error fault

namespace EntityDefinition

theorem name_entity (definition : EntityDefinition) : definition.entity.name = definition.name := by
  unfold entity
  cases definition.kind <;> rfl

theorem named_of_fault?_eq_none {definition : EntityDefinition} {index : Nat}
    (sound : definition.fault? index = none) : isBlankText definition.name.toList = false := by
  unfold fault? at sound
  split at sound
  · cases sound
  · next named => exact Bool.eq_false_of_not_eq_true named

end EntityDefinition

theorem IntentDefinition.named_of_fault?_eq_none {definition : IntentDefinition} {index : Nat}
    (sound : definition.fault? index = none) : isBlankText definition.id.toList = false := by
  unfold fault? at sound
  split at sound
  · cases sound
  · next named => exact Bool.eq_false_of_not_eq_true named

namespace Definition

variable {definition : Definition}

/-- The phrases of all intents, in order. -/
def phrases (definition : Definition) : List String := definition.intents.flatMap (·.phrases)

def entityRequests (definition : Definition) : List Request :=
  definition.entities.map fun entity => .addEntity entity.entity

def intentRequests (definition : Definition) : List Request :=
  definition.intents.map fun intent => .addIntent intent.id intent.phrases

theorem validate_eq_ok_iff : definition.validate = .ok () ↔ definition.fault? = none := by
  unfold validate
  cases definition.fault? <;> simp

/-- What a valid definition registers has an id or a name. -/
theorem named_of_validate (valid : definition.validate = .ok ()) :
    (∀ intent ∈ definition.intents, isBlankText intent.id.toList = false) ∧
      ∀ entity ∈ definition.entities, isBlankText entity.entity.name.toList = false := by
  obtain ⟨intents, entities⟩ := Option.or_eq_none_iff.1 (validate_eq_ok_iff.1 valid)
  rw [List.findSome?_eq_none_iff] at intents entities
  constructor
  · intro intent member
    obtain ⟨index, placed⟩ := List.getElem?_of_mem member
    exact IntentDefinition.named_of_fault?_eq_none
      (intents (intent, index) (List.mem_zipIdx_iff_getElem?.2 placed))
  · intro entity member
    obtain ⟨index, placed⟩ := List.getElem?_of_mem member
    rw [EntityDefinition.name_entity]
    exact EntityDefinition.named_of_fault?_eq_none
      (entities (entity, index) (List.mem_zipIdx_iff_getElem?.2 placed))

end Definition

namespace Model

variable {model next : Model} {error : ModelError} {fault : TemplateError}

theorem compileAll_cons (o : Orthography) (phrase : String) (rest : List String) :
    compileAll o (phrase :: rest) = (do
      let pattern ← Template.compile o phrase
      let patterns ← compileAll o rest
      pure (pattern :: patterns)) := List.mapM_cons

theorem compileAll_eq_error_iff {o : Orthography} {phrases : List String} :
    compileAll o phrases = .error fault ↔ FirstFault o phrases fault := by
  induction phrases with
  | nil => simp [compileAll, FirstFault, pure, Except.pure]
  | cons phrase rest ih =>
    rw [compileAll_cons]
    cases compiled : Template.compile o phrase with
    | error other =>
      constructor
      · rintro ⟨⟩
        exact ⟨[], phrase, rest, rfl, by simp, compiled⟩
      · rintro ⟨before, failing, after, split, earlier, failed⟩
        cases before with
        | nil =>
          cases split
          cases compiled.symm.trans failed
          rfl
        | cons first before =>
          cases split
          obtain ⟨pattern, succeeded⟩ := earlier phrase List.mem_cons_self
          cases compiled.symm.trans succeeded
    | ok pattern =>
      have later : FirstFault o (phrase :: rest) fault ↔ FirstFault o rest fault := by
        constructor
        · rintro ⟨before, failing, after, split, earlier, failed⟩
          cases before with
          | nil =>
            cases split
            cases compiled.symm.trans failed
          | cons first before =>
            cases split
            exact ⟨before, failing, after, rfl,
              fun phrase member => earlier phrase (List.mem_cons_of_mem _ member), failed⟩
        · rintro ⟨before, failing, after, rfl, earlier, failed⟩
          exact ⟨phrase :: before, failing, after, rfl,
            List.forall_mem_cons.2 ⟨⟨pattern, compiled⟩, earlier⟩, failed⟩
      rw [later, ← ih]
      cases compileAll o rest <;> simp [bind, Except.bind, pure, Except.pure]

theorem exists_of_mem_phrases {o : Orthography} {phrases : List String} {patterns : List Pattern}
    (compiled : compileAll o phrases = .ok patterns) {phrase : String} (member : phrase ∈ phrases) :
    ∃ pattern, Template.compile o phrase = .ok pattern := by
  have each := forall₂_of_compileAll compiled
  clear compiled
  induction each with
  | nil => cases member
  | cons first _ ih =>
    rcases List.mem_cons.1 member with rfl | inside
    · exact ⟨_, first⟩
    · exact ih inside

/-- Some phrase is the first that does not compile, unless all do. -/
theorem exists_firstFault_iff {o : Orthography} {phrases : List String} :
    (∃ fault, FirstFault o phrases fault) ↔
      ¬∀ phrase ∈ phrases, ∃ pattern, Template.compile o phrase = .ok pattern := by
  constructor
  · rintro ⟨fault, before, phrase, after, rfl, -, failed⟩ compile
    obtain ⟨pattern, compiled⟩ := compile phrase (by simp)
    cases failed.symm.trans compiled
  · intro fails
    cases compiled : compileAll o phrases with
    | error fault => exact ⟨fault, compileAll_eq_error_iff.1 compiled⟩
    | ok patterns => exact absurd (fun phrase => exists_of_mem_phrases compiled) fails

theorem compileAll_append_eq_error_iff {o : Orthography} {first second : List String} :
    compileAll o (first ++ second) = .error fault ↔
      compileAll o first = .error fault ∨
        (∃ patterns, compileAll o first = .ok patterns) ∧ compileAll o second = .error fault := by
  unfold compileAll
  rw [List.mapM_append]
  cases first.mapM (Template.compile o) with
  | error other => simp [bind, Except.bind]
  | ok before =>
    cases second.mapM (Template.compile o) <;> simp [bind, Except.bind, pure, Except.pure]

theorem addIntent_eq_error_iff {id : String} {phrases : List String}
    (named : isBlankText id.toList = false) :
    model.addIntent id phrases = .error error ↔
      ∃ fault, compileAll model.orthography phrases = .error fault ∧ error = .template fault := by
  rw [addIntent, if_neg (by simp [named])]
  cases compileAll model.orthography phrases <;> simp [eq_comm]

/-- Intents are registered until a phrase fails, whichever intents the phrases belong to. -/
theorem addIntents_eq_error_iff {intents : List IntentDefinition}
    (named : ∀ intent ∈ intents, isBlankText intent.id.toList = false) :
    intents.foldlM (fun model intent => model.addIntent intent.id intent.phrases) model
        = .error error ↔
      ∃ fault, compileAll model.orthography (intents.flatMap (·.phrases)) = .error fault ∧
        error = .template fault := by
  induction intents generalizing model with
  | nil => simp [compileAll, pure, Except.pure]
  | cons intent rest ih =>
    obtain ⟨first, others⟩ := List.forall_mem_cons.1 named
    rw [List.foldlM_cons, List.flatMap_cons]
    simp only [compileAll_append_eq_error_iff]
    cases added : model.addIntent intent.id intent.phrases with
    | error other =>
      obtain ⟨fault, failed, rfl⟩ := (addIntent_eq_error_iff first).1 added
      simp [bind, Except.bind, failed, eq_comm]
    | ok next =>
      -- A registered intent leaves the language alone: the other phrases compile as before.
      obtain ⟨-, patterns, compiled, rfl⟩ := addIntent_eq_ok_iff.1 added
      rw [show (Except.ok (model.withPatterns intent.id patterns) >>= fun model =>
          rest.foldlM (fun model intent => model.addIntent intent.id intent.phrases) model) =
          rest.foldlM (fun model intent => model.addIntent intent.id intent.phrases)
            (model.withPatterns intent.id patterns) from rfl, ih others]
      simp [compiled, withPatterns]

/-- Entities with names are registered, whatever they are. -/
theorem exists_addEntities (model : Model) {entities : List EntityDefinition}
    (named : ∀ entity ∈ entities, isBlankText entity.entity.name.toList = false) :
    ∃ filled, entities.foldlM (fun model entity => model.addEntity entity.entity) model = .ok filled ∧
      filled.orthography = model.orthography := by
  induction entities generalizing model with
  | nil => exact ⟨model, rfl, rfl⟩
  | cons entity rest ih =>
    obtain ⟨first, others⟩ := List.forall_mem_cons.1 named
    rw [List.foldlM_cons, addEntity, if_neg (by simp [first])]
    exact ih _ others

end Model

namespace Request

open Model

variable {model last : Model} {requests rest first second : List Request} {request : Request}

/-- Registrations one after the other lead to what they make of a model at once. -/
theorem leads_map_iff {α : Type} {ask : α → Request} {register : Model → α → Except ModelError Model}
    (performs : ∀ model item, perform (ask item) model =
      match register model item with
      | .ok next => .ok true next
      | .error error => .error error model) {items : List α} :
    Leads (items.map ask) model last ↔ items.foldlM register model = .ok last := by
  induction items generalizing model with
  | nil => simp [leads_nil_iff, pure, Except.pure]
  | cons item rest ih =>
    rw [List.map_cons, leads_cons_iff, performs, List.foldlM_cons]
    cases register model item with
    | error error => simp [bind, Except.bind]
    | ok next => simp [bind, Except.bind, ih]

theorem leads_append_iff :
    Leads (first ++ second) model last ↔
      ∃ next, Leads first model next ∧ Leads second next last := by
  induction first generalizing model with
  | nil => simp [leads_nil_iff]
  | cons request rest ih =>
    rw [List.cons_append, leads_cons_iff]
    simp only [ih, leads_cons_iff]
    constructor
    · rintro ⟨answer, between, done, next, before, after⟩
      exact ⟨next, ⟨answer, between, done, before⟩, after⟩
    · rintro ⟨next, ⟨answer, between, done, before⟩, after⟩
      exact ⟨answer, between, done, next, before, after⟩

def IsIntent (request : Request) : Prop := ∃ id phrases, request = .addIntent id phrases

def IsEntity (request : Request) : Prop := ∃ entity, request = .addEntity entity

/-- An intent and an entity are registered in one order as in the other. -/
theorem leads_swap_iff {intent entity : Request} (isIntent : intent.IsIntent)
    (isEntity : entity.IsEntity) :
    Leads (intent :: entity :: rest) model last ↔ Leads (entity :: intent :: rest) model last := by
  obtain ⟨id, phrases, rfl⟩ := isIntent
  obtain ⟨entity, rfl⟩ := isEntity
  simp only [leads_addIntent_cons_iff, leads_addEntity_cons_iff]
  constructor
  · rintro ⟨named, patterns, compiled, namedEntity, others⟩
    exact ⟨namedEntity, named, patterns, compiled, others⟩
  · rintro ⟨namedEntity, named, patterns, compiled, others⟩
    exact ⟨named, patterns, compiled, namedEntity, others⟩

/-- An intent can be registered after entities instead of before them. -/
theorem leads_intent_entities_iff {intent : Request} (isIntent : intent.IsIntent)
    (entities : ∀ entity ∈ first, IsEntity entity) :
    Leads (intent :: (first ++ rest)) model last ↔ Leads (first ++ intent :: rest) model last := by
  induction first generalizing model with
  | nil => rfl
  | cons entity others ih =>
    obtain ⟨isEntity, later⟩ := List.forall_mem_cons.1 entities
    rw [List.cons_append, List.cons_append, leads_swap_iff isIntent isEntity, leads_cons_iff,
      leads_cons_iff]
    simp only [ih later]

/-- Entities and intents in any order are registered as all entities and then all intents are. -/
theorem leads_interleaved_iff (interleaved : Interleaves first second requests)
    (entities : ∀ entity ∈ first, IsEntity entity) (intents : ∀ intent ∈ second, IsIntent intent) :
    Leads requests model last ↔ Leads (first ++ second) model last := by
  induction interleaved generalizing model with
  | nil => rfl
  | left entity _ ih =>
    rw [List.cons_append, leads_cons_iff, leads_cons_iff]
    simp only [ih (fun other member => entities other (List.mem_cons_of_mem _ member)) intents]
  | right intent _ ih =>
    obtain ⟨isIntent, later⟩ := List.forall_mem_cons.1 intents
    rw [← leads_intent_entities_iff isIntent entities, leads_cons_iff, leads_cons_iff]
    simp only [ih entities later]

end Request

namespace Model

variable {definition : Definition} {numbers : Registry} {model : Model} {error : ModelError}

theorem ofDefinition_of_validate_error {fault : ConfigError}
    (invalid : definition.validate = .error fault) :
    ofDefinition definition numbers = .error (.definition fault) := by
  rw [ofDefinition, invalid]
  rfl

/-- A valid definition has its entities and then its intents registered. -/
theorem ofDefinition_eq_ok_iff_leads (valid : definition.validate = .ok ()) :
    ofDefinition definition numbers = .ok model ↔
      Request.Leads (definition.entityRequests ++ definition.intentRequests)
        (new definition.language numbers) model := by
  rw [Request.leads_append_iff, Definition.entityRequests, Definition.intentRequests]
  simp only [Request.leads_map_iff fun model (entity : EntityDefinition) =>
      Request.perform_addEntity model entity.entity,
    Request.leads_map_iff fun model (intent : IntentDefinition) =>
      Request.perform_addIntent model intent.id intent.phrases]
  rw [ofDefinition, valid]
  simp only [Except.mapError, bind, Except.bind]
  cases definition.entities.foldlM (fun model entity => model.addEntity entity.entity)
    (new definition.language numbers) <;> simp

/-- Nothing but a phrase fails in a valid definition. -/
theorem ofDefinition_eq_error_iff_of_validate (valid : definition.validate = .ok ()) :
    ofDefinition definition numbers = .error error ↔
      ∃ fault, FirstFault (.ofTag definition.language.toList) definition.phrases fault ∧
        error = .template fault := by
  obtain ⟨intents, entities⟩ := Definition.named_of_validate valid
  obtain ⟨filled, registered, spoken⟩ :=
    exists_addEntities (new definition.language numbers) entities
  have built : ofDefinition definition numbers =
      definition.intents.foldlM (fun model intent => model.addIntent intent.id intent.phrases)
        filled := by
    rw [ofDefinition, valid]
    simp only [Except.mapError, bind, Except.bind, registered]
  have language : filled.orthography = .ofTag definition.language.toList := by rw [spoken, new]
  rw [built, addIntents_eq_error_iff intents, language, Definition.phrases]
  simp only [compileAll_eq_error_iff]

theorem ofDefinition_eq_error_iff :
    ofDefinition definition numbers = .error error ↔
      (∃ fault, definition.validate = .error fault ∧ error = .definition fault) ∨
      definition.validate = .ok () ∧ ∃ fault,
        FirstFault (.ofTag definition.language.toList) definition.phrases fault ∧
          error = .template fault := by
  cases checked : definition.validate with
  | error fault => simp [ofDefinition_of_validate_error checked, eq_comm]
  | ok _ => simp [ofDefinition_eq_error_iff_of_validate checked]

theorem exists_ofDefinition_eq_ok_iff :
    (∃ model, ofDefinition definition numbers = .ok model) ↔
      definition.validate = .ok () ∧ ∀ intent ∈ definition.intents, ∀ phrase ∈ intent.phrases,
        ∃ pattern, Template.compile (.ofTag definition.language.toList) phrase = .ok pattern := by
  have succeeds : (∃ model, ofDefinition definition numbers = .ok model) ↔
      ¬∃ error, ofDefinition definition numbers = .error error := by
    cases ofDefinition definition numbers <;> simp
  rw [succeeds]
  cases checked : definition.validate with
  | error fault => simp [ofDefinition_of_validate_error checked]
  | ok _ =>
    have each : (∀ phrase ∈ definition.phrases, ∃ pattern,
          Template.compile (.ofTag definition.language.toList) phrase = .ok pattern) ↔
        ∀ intent ∈ definition.intents, ∀ phrase ∈ intent.phrases, ∃ pattern,
          Template.compile (.ofTag definition.language.toList) phrase = .ok pattern := by
      simp only [Definition.phrases, List.mem_flatMap]
      exact ⟨fun all intent listed phrase member => all phrase ⟨intent, listed, member⟩,
        fun all phrase ⟨intent, listed, member⟩ => all intent listed phrase member⟩
    rw [← each, ← not_iff_not, not_not, eq_self, true_and, ← exists_firstFault_iff]
    simp only [ofDefinition_eq_error_iff_of_validate checked]
    constructor
    · rintro ⟨_, fault, first, -⟩
      exact ⟨fault, first⟩
    · rintro ⟨fault, first⟩
      exact ⟨_, fault, first, rfl⟩

/-- A definition is built just when it is valid and its phrases compile. Otherwise the first fault
tells why, and that is never an empty id or name. What is built is what its registrations lead
to, in whatever order the two kinds come. -/
theorem ofDefinition_laws (definition : Definition) (numbers : Registry) :
    ((∃ model, ofDefinition definition numbers = .ok model) ↔
      definition.validate = .ok () ∧ ∀ intent ∈ definition.intents, ∀ phrase ∈ intent.phrases,
        ∃ pattern, Template.compile (.ofTag definition.language.toList) phrase = .ok pattern) ∧
    (∀ error, ofDefinition definition numbers = .error error ↔
      (∃ fault, definition.validate = .error fault ∧ error = .definition fault) ∨
      definition.validate = .ok () ∧ ∃ fault,
        FirstFault (.ofTag definition.language.toList) definition.phrases fault ∧
          error = .template fault) ∧
    (∀ error, ofDefinition definition numbers = .error error →
      error ≠ .emptyIntentId ∧ error ≠ .emptyEntityName) ∧
    ∀ model, ofDefinition definition numbers = .ok model → ∀ requests,
      Interleaves definition.entityRequests definition.intentRequests requests →
        Request.Leads requests (new definition.language numbers) model := by
  refine ⟨exists_ofDefinition_eq_ok_iff, fun error => ofDefinition_eq_error_iff,
    fun error failed => ?_, fun model built requests interleaved => ?_⟩
  · rcases ofDefinition_eq_error_iff.1 failed with ⟨fault, -, rfl⟩ | ⟨-, fault, -, rfl⟩
    · exact ⟨ModelError.noConfusion, ModelError.noConfusion⟩
    · exact ⟨ModelError.noConfusion, ModelError.noConfusion⟩
  · have valid := (exists_ofDefinition_eq_ok_iff.1 ⟨model, built⟩).1
    rw [Request.leads_interleaved_iff interleaved, ← ofDefinition_eq_ok_iff_leads valid, built]
    · intro request listed
      obtain ⟨entity, -, rfl⟩ := List.mem_map.1 listed
      exact ⟨_, rfl⟩
    · intro request listed
      obtain ⟨intent, -, rfl⟩ := List.mem_map.1 listed
      exact ⟨_, _, rfl⟩

/-- An id and a name come twice, and the registrations of the two kinds alternate. -/
theorem exists_ofDefinition_lights :
    ∃ definition model requests,
      definition = Definition.mk "en" [⟨"on", ["lights on"]⟩, ⟨"on", ["turn on {room}"]⟩]
        [⟨"room", .list, .strict, ["kitchen"]⟩, ⟨"room", .any, .basic, []⟩] ∧
      requests = [.addIntent "on" ["lights on"], .addEntity (.list "room" .strict ["kitchen"]),
        .addIntent "on" ["turn on {room}"], .addEntity (.any "room")] ∧
      ofDefinition definition .standard = .ok model ∧
      Interleaves definition.entityRequests definition.intentRequests requests ∧
      Request.Leads requests (new "en" .standard) model := by
  generalize same : Definition.mk "en" [⟨"on", ["lights on"]⟩, ⟨"on", ["turn on {room}"]⟩]
    [⟨"room", .list, .strict, ["kitchen"]⟩, ⟨"room", .any, .basic, []⟩] = definition
  have succeeds : (ofDefinition definition .standard).toBool = true := by
    rw [← same]
    decide +kernel
  cases built : ofDefinition definition .standard with
  | error error =>
    rw [built] at succeeds
    cases succeeds
  | ok model =>
    have interleaved : Interleaves definition.entityRequests definition.intentRequests
        [.addIntent "on" ["lights on"], .addEntity (.list "room" .strict ["kitchen"]),
          .addIntent "on" ["turn on {room}"], .addEntity (.any "room")] := by
      subst same
      exact .right _ (.left _ (.right _ (.left _ .nil)))
    have leads := (ofDefinition_laws definition .standard).2.2.2 model built _ interleaved
    refine ⟨definition, model, _, rfl, rfl, built, interleaved, ?_⟩
    subst same
    exact leads

end Model

end Phrasebook
