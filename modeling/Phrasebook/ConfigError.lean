/-! What can be wrong with settings and model definitions. -/

set_option autoImplicit false

namespace Phrasebook

inductive ConfigError where
  | fileNotFound (path : String)
  /-- The text of a file is not in its format, or does not have the expected shape. -/
  | unreadable
  | missingField (field : String)
  | invalidValue (field : String) (reason : String)
  deriving Repr, DecidableEq

def ConfigError.message : ConfigError → String
  | fileNotFound path => "Configuration file not found: " ++ path
  | unreadable => "Failed to parse configuration"
  | missingField field => "Missing required field: " ++ field
  | invalidValue field reason => "Invalid value for " ++ field ++ ": " ++ reason

end Phrasebook
