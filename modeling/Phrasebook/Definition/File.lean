import Phrasebook.Definition.Format
import Phrasebook.FileTree

/-! Definitions in files. -/

set_option autoImplicit false

namespace Phrasebook.Definition

open Text

/-- The format of a file: TOML if its name says so, otherwise YAML. -/
def formatOf (path : String) : Format :=
  if FileTree.extension? path = some "toml" then .toml else .yaml

def load (tree : FileTree) (path : String) : Except ConfigError Definition :=
  match tree.find path with
  | .missing => .error (.fileNotFound path)
  | .directory => .error .unreadable
  | .file content =>
    match Utf8.decode? content with
    | none => .error .unreadable
    | some text => read (formatOf path) text

end Phrasebook.Definition
