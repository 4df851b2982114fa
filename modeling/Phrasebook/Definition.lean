import Phrasebook.ConfigError
import Phrasebook.Entity

/-! Definitions of models: the intents and entities that a model is built with. -/

set_option autoImplicit false

namespace Phrasebook

open Text

def defaultLanguage : String := "en-US"

structure IntentDefinition where
  id : String
  phrases : List String := []
  deriving Repr, DecidableEq

structure EntityDefinition where
  name : String
  kind : EntityType := .list
  mode : MatchMode := .basic
  /-- Only lists have phrases. -/
  phrases : List String := []
  deriving Repr, DecidableEq

structure Definition where
  language : String := defaultLanguage
  intents : List IntentDefinition := []
  entities : List EntityDefinition := []
  deriving Repr, DecidableEq

namespace EntityDefinition

def entity (definition : EntityDefinition) : Entity :=
  match definition.kind with
  | .list => .list definition.name definition.mode definition.phrases
  | .any => .any definition.name
  | .integer => .integer definition.name

/-- The first fault of the entity at a position of its definition. -/
def fault? (definition : EntityDefinition) (index : Nat) : Option ConfigError :=
  let field (name : String) := "entities[" ++ toString index ++ "]." ++ name
  if isBlankText definition.name.toList then some (.missingField (field "name"))
  else if definition.kind != .list && !definition.phrases.isEmpty then
    some (.invalidValue (field "phrases")
      ("Only list entities take phrases ('" ++ definition.name ++ "')"))
  else if definition.kind != .list && definition.mode == .strict then
    some (.invalidValue (field "mode")
      ("Only list entities can be strict ('" ++ definition.name ++ "')"))
  else none

end EntityDefinition

def IntentDefinition.fault? (definition : IntentDefinition) (index : Nat) : Option ConfigError :=
  if isBlankText definition.id.toList then
    some (.missingField ("intents[" ++ toString index ++ "].id"))
  else none

namespace Definition

/-- The first fault of a definition: intents come before entities. The phrases
are not looked at. -/
def fault? (definition : Definition) : Option ConfigError :=
  (definition.intents.zipIdx.findSome? fun intent => intent.1.fault? intent.2).or
    (definition.entities.zipIdx.findSome? fun entity => entity.1.fault? entity.2)

def validate (definition : Definition) : Except ConfigError Unit :=
  match definition.fault? with
  | some fault => .error fault
  | none => .ok ()

end Definition

end Phrasebook
