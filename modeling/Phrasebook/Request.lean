import Phrasebook.Model

/-! Requests that change a model in place.

A request goes step by step, and what it has stored when it fails stays stored. So an
intent is given its patterns only after all phrases have been compiled.
-/

set_option autoImplicit false

namespace Phrasebook

open Text

inductive Request where
  | addIntent (id : String) (phrases : List String)
  | addEntity (entity : Entity)
  | removeIntent (id : String)
  deriving Repr

namespace Request

/-- Steps on a model, with an answer or an error in the end. -/
abbrev Steps := EStateM ModelError Model

def compile (phrase : String) : Steps Pattern := do
  match Template.compile (← get).orthography phrase with
  | .ok pattern => return pattern
  | .error error => throw (.template error)

/-- Change the intent of an id, which is there from then on. -/
def alterIntent (id : String) (change : Intent → Intent) : Steps Unit :=
  modify fun model => { model with
    intents := model.intents.alter id fun present => change (present.getD ⟨id, 0, []⟩) }

/-- Store the patterns of an intent, which is there even without any. -/
def storePatterns (id : String) (patterns : List Pattern) : Steps Unit := do
  alterIntent id fun intent => intent
  patterns.forM fun pattern => alterIntent id fun intent => intent.addPattern pattern

def storeEntity (entity : Entity) : Steps Unit :=
  modify fun model => { model with
    entities := model.entities.insert entity.name (entity.bind model.orthography model.numbers) }

/-- The answer to a removal is whether there was an intent, and otherwise true. -/
def perform : Request → Steps Bool
  | addIntent id phrases => do
    if isBlankText id.toList then throw .emptyIntentId
    storePatterns id (← phrases.mapM compile)
    return true
  | addEntity entity => do
    if isBlankText entity.name.toList then throw .emptyEntityName
    storeEntity entity
    return true
  | removeIntent id => do
    let present := ((← get).intents.get? id).isSome
    modify fun model => { model with intents := model.intents.erase id }
    return present

/-- The model that a request leaves behind, whether it failed or not. -/
def apply (model : Model) (request : Request) : Model :=
  match request.perform model with
  | .ok _ after | .error _ after => after

def applyAll (model : Model) (requests : List Request) : Model := requests.foldl apply model

end Request

end Phrasebook
