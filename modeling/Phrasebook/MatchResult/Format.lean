import Phrasebook.Data.Value
import Phrasebook.MatchResult

/-! Match results in structured data. -/

set_option autoImplicit false

namespace Phrasebook

open Data

def natBelow? (limit : Nat) : Value → Option Nat
  | .int value => if 0 ≤ value && value < limit then some value.toNat else none
  | _ => none

def EntityValue.ofValue? (value : Value) : Option EntityValue := do
  let fields ← Value.Dialect.keyed.fields? ["value", "entity_type"] value
  let type (value : Value) : Option EntityType := do
    EntityType.ofName? (← Value.Dialect.keyed.name? (EntityType.all.map EntityType.name) value)
  return {
    value := ← Value.required fields "value" Value.plainText?
    type := ← Value.required fields "entity_type" type }

/-- The captures of a record; a later entry replaces an earlier one of its name. -/
def Captures.ofValue? : Value → Option Captures
  | .record entries =>
    entries.foldrM (fun entry captures => do
      return captures.addIfNew entry.1 (← EntityValue.ofValue? entry.2)) []
  | _ => none

def MatchResult.ofValue? (value : Value) : Option MatchResult := do
  let fields ← Value.Dialect.keyed.fields?
    ["intent_id", "pattern", "entities", "priority", "bytes_matched"] value
  return {
    intentId := ← Value.required fields "intent_id" Value.plainText?
    pattern := ← Value.required fields "pattern" Value.plainText?
    entities := ← Value.required fields "entities" Captures.ofValue?
    priority := ← Value.required fields "priority" (natBelow? UInt32.size)
    bytesMatched := ← Value.required fields "bytes_matched" (natBelow? UInt64.size) }

end Phrasebook
