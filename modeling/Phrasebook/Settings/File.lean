import Phrasebook.Data.Ini
import Phrasebook.Data.Json
import Phrasebook.Data.Json5
import Phrasebook.Data.Ron
import Phrasebook.Data.Toml
import Phrasebook.Data.Yaml.Typed
import Phrasebook.FileTree
import Phrasebook.Settings.Path

/-! Settings files and their formats. -/

set_option autoImplicit false

namespace Phrasebook.Settings

open Data Text

/-- The formats of settings files, by their file extensions. -/
inductive FileFormat where
  | toml
  | json
  | yaml
  | ini
  | ron
  | json5
  deriving Repr, DecidableEq

namespace FileFormat

def extensions : List (String × FileFormat) :=
  [("toml", .toml), ("json", .json), ("yaml", .yaml), ("yml", .yaml), ("ini", .ini), ("ron", .ron),
    ("json5", .json5)]

def ofExtension? (extension : String) : Option FileFormat := extensions.lookup extension

def parse? : FileFormat → List Char → Option Value
  | .toml => Toml.parse?
  | .json => Json.parse?
  | .yaml => Yaml.typed?
  | .ini => Ini.parse?
  | .ron => Ron.parse?
  | .json5 => Json5.parse?

def entries? (format : FileFormat) (text : List Char) : Option Entries :=
  match format.parse? text with
  | some (.record entries) => some entries
  | _ => none

end FileFormat

/-- The format and content of the file of a name. A name of no file may lack the
extension of one; a file without a known extension does not count. -/
def findFile? (tree : FileTree) (name : String) : Option (FileFormat × List UInt8) :=
  match tree.find name with
  | .file content =>
    ((FileTree.extension? name).bind FileFormat.ofExtension?).map fun format => (format, content)
  | .missing | .directory =>
    FileFormat.extensions.findSome? fun known => do
      match tree.find (← FileTree.withExtension? name known.1) with
      | .file content => some (known.2, content)
      | .missing | .directory => none

/-- The entries of the file of a name. Without such a file, or with a file that
is no text, there are none. -/
def fileLayer? (tree : FileTree) (name : String) : Option Entries :=
  match findFile? tree name with
  | none => some []
  | some (format, content) =>
    match Utf8.decode? content with
    | none => some []
    | some text => format.entries? text

end Phrasebook.Settings
