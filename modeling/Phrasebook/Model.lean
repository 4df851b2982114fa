import Phrasebook.Definition
import Phrasebook.Dictionary
import Phrasebook.Matching
import Phrasebook.Template.Compile

/-! Models: the intents and entities of one language, and what they find in an input. -/

set_option autoImplicit false

namespace Phrasebook

open Text Numeral

structure Intent where
  id : String
  priority : Nat
  patterns : List Pattern
  deriving Repr

namespace Intent

/-- Append a pattern, unless one with the same written form is there. -/
def addPattern (intent : Intent) (pattern : Pattern) : Intent :=
  if intent.patterns.any fun present => present.normalized == pattern.normalized then intent
  else { intent with patterns := intent.patterns ++ [pattern] }

def addPatterns (intent : Intent) (patterns : List Pattern) : Intent :=
  patterns.foldl addPattern intent

end Intent

inductive ModelError where
  | template (error : TemplateError)
  | emptyIntentId
  | emptyEntityName
  | definition (error : ConfigError)
  deriving Repr, DecidableEq

def ModelError.message : ModelError → String
  | template error => "Invalid pattern: " ++ error.message
  | emptyIntentId => "Intent id must not be empty"
  | emptyEntityName => "Entity name must not be empty"
  | definition error => "Model definition error: " ++ error.message

structure Model where
  orthography : Orthography
  numbers : Registry
  options : MatchOptions
  intents : Dictionary Intent
  entities : Dictionary Entity

namespace Model

def new (tag : String) (numbers : Registry) : Model where
  orthography := .ofTag tag.toList
  numbers := numbers
  options := {}
  intents := .empty
  entities := .empty

def withOptions (model : Model) (options : MatchOptions) : Model :=
  { model with options := options }

/-- Compile phrases in order; the first one that fails decides. -/
def compileAll (o : Orthography) (phrases : List String) : Except TemplateError (List Pattern) :=
  phrases.mapM (Template.compile o)

/-- Register phrases of an intent, all or none. They come after the patterns
that the intent already has. -/
def addIntent (model : Model) (id : String) (phrases : List String) : Except ModelError Model :=
  if isBlankText id.toList then .error .emptyIntentId
  else
    match compileAll model.orthography phrases with
    | .error error => .error (.template error)
    | .ok patterns =>
      .ok { model with
        intents := model.intents.alter id fun present =>
          (present.getD ⟨id, 0, []⟩).addPatterns patterns }

/-- Register an entity in place of any entity of the same name. -/
def addEntity (model : Model) (entity : Entity) : Except ModelError Model :=
  if isBlankText entity.name.toList then .error .emptyEntityName
  else
    .ok { model with
      entities := model.entities.insert entity.name (entity.bind model.orthography model.numbers) }

/-- Remove an intent, and say whether there was one. -/
def removeIntent (model : Model) (id : String) : Model × Bool :=
  ({ model with intents := model.intents.erase id }, (model.intents.get? id).isSome)

/-- Build a model from a definition, entities first. -/
def ofDefinition (definition : Definition) (numbers : Registry) : Except ModelError Model := do
  definition.validate.mapError .definition
  let start := new definition.language numbers
  let filled ← definition.entities.foldlM (fun model entity => model.addEntity entity.entity) start
  definition.intents.foldlM (fun model intent => model.addIntent intent.id intent.phrases) filled

def matcher (model : Model) : Matcher where
  orthography := model.orthography
  entity? := model.entities.get?
  respaces := model.orthography.respaces model.options

def normalize (model : Model) (input : String) : List Char :=
  model.orthography.normalizeInput model.options input.toList

/-- The results of one intent for a normalized input, in the order of its patterns. -/
def matchesOf (matcher : Matcher) (intent : Intent) (text : List Char) : List MatchResult :=
  intent.patterns.filterMap fun pattern =>
    (matcher.matchText pattern.parts text).map fun found =>
      { intentId := intent.id
        pattern := pattern.phrase
        entities := found.captures
        priority := intent.priority
        bytesMatched := found.bytes }

def findMatches (model : Model) (input : String) : List MatchResult :=
  model.intents.values.flatMap fun intent =>
    matchesOf model.matcher intent (model.normalize input)

def bestMatch? (model : Model) (input : String) : Option MatchResult :=
  (MatchResult.rank (model.findMatches input)).head?

end Model

end Phrasebook
