import Phrasebook.Entity

/-! Results of matching, and the order in which they are preferred. -/

set_option autoImplicit false

namespace Phrasebook

structure EntityValue where
  value : String
  type : EntityType
  deriving Repr, DecidableEq

/-- The values of slots, each name at most once. -/
abbrev Captures := List (String × EntityValue)

namespace Captures

def get? (captures : Captures) (name : String) : Option EntityValue :=
  (captures.find? fun capture => capture.1 == name).map (·.2)

/-- Add the value of a slot, unless a later slot of that name has one. -/
def addIfNew (captures : Captures) (name : String) (value : EntityValue) : Captures :=
  if (captures.get? name).isSome then captures else (name, value) :: captures

def count (captures : Captures) (type : EntityType) : Nat :=
  captures.countP fun capture => capture.2.type == type

theorem get?_addIfNew (captures : Captures) (name query : String) (value : EntityValue) :
    (captures.addIfNew name value).get? query =
      if query = name then some ((captures.get? name).getD value) else captures.get? query := by
  unfold addIfNew
  split
  · next present =>
    obtain ⟨found, eq⟩ := Option.isSome_iff_exists.1 present
    by_cases same : query = name
    · simp [same, eq]
    · simp [same]
  · next absent =>
    have missing : captures.get? name = none := by simpa using absent
    by_cases same : query = name
    · rw [if_pos same, missing, same]
      simp [get?]
    · have other : ¬ name = query := fun equal => same equal.symm
      simp [same, get?, other]

end Captures

structure MatchResult where
  intentId : String
  pattern : String
  entities : Captures
  priority : Nat
  /-- Bytes of the input, separators not counted. -/
  bytesMatched : Nat
  deriving Repr, DecidableEq

namespace MatchResult

def value? (result : MatchResult) (name : String) : Option String :=
  (result.entities.get? name).map EntityValue.value

/-- Compare two results for the same input, the better one first: lower
priority, fewer entities, more integers, more lists, more bytes. -/
def compare (first second : MatchResult) : Ordering :=
  (Ord.compare first.priority second.priority).then <|
  (Ord.compare first.entities.length second.entities.length).then <|
  (Ord.compare (second.entities.count .integer) (first.entities.count .integer)).then <|
  (Ord.compare (second.entities.count .list) (first.entities.count .list)).then <|
  Ord.compare second.bytesMatched first.bytesMatched

/-- Best results first; equally good ones keep their order. -/
def rank (results : List MatchResult) : List MatchResult :=
  results.mergeSort fun first second => first.compare second != .gt

end MatchResult

end Phrasebook
