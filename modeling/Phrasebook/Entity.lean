import Phrasebook.Normalization
import Phrasebook.Numeral.Registry
import Phrasebook.Text.Quoted
import Phrasebook.Words

/-! Entities: what the slots of a pattern capture.

An entity is bound to a language when it is registered. Binding puts its
phrases into normal form and chooses its number reader.
-/

set_option autoImplicit false

namespace Phrasebook

open Text Numeral

inductive EntityType where
  | list
  | any
  | integer
  deriving Repr, DecidableEq

namespace EntityType

def name : EntityType → String
  | list => "list"
  | any => "any"
  | integer => "prebuilt_integer"

def all : List EntityType := [list, any, integer]

def ofName? (name : String) : Option EntityType := all.find? fun type => type.name == name

end EntityType

inductive MatchMode where
  /-- Any text is a value. -/
  | basic
  /-- Only the phrases of the entity are values. -/
  | strict
  deriving Repr, DecidableEq

namespace MatchMode

def name : MatchMode → String
  | basic => "basic"
  | strict => "strict"

def all : List MatchMode := [basic, strict]

def ofName? (name : String) : Option MatchMode := all.find? fun mode => mode.name == name

end MatchMode

/-- How an entity finds its values. -/
inductive Extractor where
  /-- A list of phrases; one capture spans at most `greed` words. -/
  | list (mode : MatchMode) (phrases : List String) (greed : Nat)
  | any
  | integer (reader : Reader)
  deriving Repr

structure Entity where
  name : String
  extractor : Extractor
  deriving Repr

/-- Put a phrase into a strictly increasing list of phrases. -/
def insertPhrase (phrase : String) : List String → List String
  | [] => [phrase]
  | first :: rest =>
    if phrase < first then phrase :: first :: rest
    else if phrase = first then first :: rest
    else first :: insertPhrase phrase rest

def sortPhrases (phrases : List String) : List String := phrases.foldr insertPhrase []

namespace Entity

def list (name : String) (mode : MatchMode) (phrases : List String) : Entity :=
  ⟨name, .list mode phrases 0⟩

def any (name : String) : Entity := ⟨name, .any⟩

def integer (name : String) : Entity := ⟨name, .integer .silent⟩

def normalizePhrases (o : Orthography) (phrases : List String) : List String :=
  sortPhrases
    ((phrases.map fun phrase => String.ofList (o.normalizePhrase phrase.toList)).filter
      fun phrase => !phrase.isEmpty)

/-- The number of words of the longest phrase. -/
def longestPhrase (o : Orthography) (phrases : List String) : Nat :=
  (phrases.map fun phrase => o.countWords phrase.toList).foldl max 0

def bind (o : Orthography) (numbers : Registry) (entity : Entity) : Entity :=
  { entity with
    extractor :=
      match entity.extractor with
      | .list mode phrases _ =>
        let normalized := normalizePhrases o phrases
        .list mode normalized (longestPhrase o normalized)
      | .any => .any
      | .integer _ => .integer (numbers.readerOrSilent o.language) }

def type (entity : Entity) : EntityType :=
  match entity.extractor with
  | .list .. => .list
  | .any => .any
  | .integer _ => .integer

def mode (entity : Entity) : MatchMode :=
  match entity.extractor with
  | .list mode _ _ => mode
  | .any | .integer _ => .basic

def greed (entity : Entity) : Nat :=
  match entity.extractor with
  | .list _ _ greed => greed
  | .any | .integer _ => 0

/-- Whether a pattern matches only if the entity has a value. -/
def isRequired (entity : Entity) : Bool :=
  match entity.extractor with
  | .list mode _ _ => mode == .strict
  | .any => false
  | .integer _ => true

def phrases (entity : Entity) : List String :=
  match entity.extractor with
  | .list _ phrases _ => phrases
  | .any | .integer _ => []

/-- Lowercase words with single spaces between them. -/
def collapse (text : List Char) : List Char := lower ([' '].intercalate (words isBlank text))

def value? (entity : Entity) (text : List Char) : Option (List Char) :=
  match entity.extractor with
  | .list .strict phrases _ =>
    (phrases.find? fun phrase => phrase.toList == collapse text).map String.toList
  | .list .basic _ _ | .any => some text
  | .integer reader => reader.read? text

def displayType : EntityType → String
  | .list => "List"
  | .any => "Any"
  | .integer => "PrebuiltInteger"

def displayMode : MatchMode → String
  | .basic => "Basic"
  | .strict => "Strict"

/-- The entity as it is displayed, without its phrases. -/
def describe (entity : Entity) : String :=
  "Entity \x7b name: " ++ String.ofList (quoted entity.name.toList) ++
    ", type: " ++ displayType entity.type ++ ", mode: " ++ displayMode entity.mode ++
    ", greed: " ++ toString entity.greed ++ " \x7d"

end Entity

end Phrasebook
