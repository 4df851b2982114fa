import Phrasebook.Definition

/-! Settings of a program that matches phrases. -/

set_option autoImplicit false

namespace Phrasebook

open Text

inductive Environment where
  | development
  | staging
  | production
  deriving Repr, DecidableEq

namespace Environment

def all : List Environment := [development, staging, production]

def name : Environment → String
  | development => "development"
  | staging => "staging"
  | production => "production"

def ofName? (name : String) : Option Environment :=
  all.find? fun environment => environment.name == name

def isProduction (environment : Environment) : Bool := environment == production

/-- Whether settings are checked strictly. -/
def isStrict (environment : Environment) : Bool := environment != development

end Environment

structure MatcherSettings where
  /-- The language of models that name none. -/
  defaultLanguage : String := Phrasebook.defaultLanguage
  normalizeFrenchSpacing : Bool := true
  stripSentenceEnd : Bool := true
  definitionPath : Option String := none
  deriving Repr, DecidableEq

def MatcherSettings.options (settings : MatcherSettings) : MatchOptions where
  normalizeFrenchSpacing := settings.normalizeFrenchSpacing
  stripSentenceEnd := settings.stripSentenceEnd

structure LogSettings where
  level : String := "info"
  json : Bool := false
  deriving Repr, DecidableEq

def logLevels : List String := ["trace", "debug", "info", "warn", "error"]

structure Settings where
  environment : Environment := .development
  matcher : MatcherSettings := {}
  log : LogSettings := {}
  deriving Repr, DecidableEq

namespace Settings

/-- A language that is not supported is a fault only where checks are strict. -/
def matcherFault? (settings : Settings) : Option ConfigError :=
  let tag := trim settings.matcher.defaultLanguage.toList
  if tag = [] then
    some (.invalidValue "matcher.default_language" "Language tag must not be empty")
  else if (Language.ofTag? tag).isNone && settings.environment.isStrict then
    some (.invalidValue "matcher.default_language"
      ("Unsupported language tag '" ++ String.ofList tag ++ "'"))
  else if settings.matcher.definitionPath.any fun path => isBlankText path.toList then
    some (.invalidValue "matcher.definition_path" "Definition path must not be empty when set")
  else none

/-- Levels are compared without regard to letter case. -/
def logFault? (settings : Settings) : Option ConfigError :=
  if logLevels.contains (String.ofList (lower settings.log.level.toList)) then none
  else
    some (.invalidValue "observability.log_level"
      ("Unknown log level '" ++ settings.log.level ++ "', expected one of " ++
        ", ".intercalate logLevels))

def fault? (settings : Settings) : Option ConfigError :=
  settings.matcherFault?.or settings.logFault?

def validate (settings : Settings) : Except ConfigError Unit :=
  match settings.fault? with
  | some fault => .error fault
  | none => .ok ()

end Settings

end Phrasebook
