import Phrasebook.Data.Value

/-! Tables that grow as headers and pairs are read. A key is given a value once. -/

set_option autoImplicit false

namespace Phrasebook.Data.Toml

/-- How a table came to be. -/
inductive Origin where
  /-- A header names the table itself. -/
  | header
  /-- A header names a table inside it. -/
  | implied
  /-- A dotted key of a pair goes through it. -/
  | dotted
  deriving Repr, DecidableEq

inductive Node where
  | value (value : Value)
  | table (origin : Origin) (entries : List (String × Node))
  /-- The tables of an array, of which the last one is open. -/
  | tables (closed : List (List (String × Node))) (last : List (String × Node))
  deriving Repr, Inhabited

abbrev Entries := List (String × Node)

def replace (entries : Entries) (key : String) (node : Node) : Entries :=
  entries.map fun entry => if entry.1 == key then (key, node) else entry

/-- Change the table that a header path leads to, adding the tables that are missing. -/
def alterAt? (change : Entries → Option Entries) : List String → Entries → Option Entries
  | [], entries => change entries
  | key :: path, entries =>
    match entries.lookup key with
    | none => (alterAt? change path []).map fun inner => entries ++ [(key, .table .implied inner)]
    | some (.table origin inner) =>
      (alterAt? change path inner).map fun changed => replace entries key (.table origin changed)
    | some (.tables closed last) =>
      (alterAt? change path last).map fun changed => replace entries key (.tables closed changed)
    | some (.value _) => none

def defineTable? (key : String) (entries : Entries) : Option Entries :=
  match entries.lookup key with
  | none => some (entries ++ [(key, .table .header [])])
  | some (.table .implied inner) => some (replace entries key (.table .header inner))
  | some _ => none

def extendTables? (key : String) (entries : Entries) : Option Entries :=
  match entries.lookup key with
  | none => some (entries ++ [(key, .tables [] [])])
  | some (.tables closed last) => some (replace entries key (.tables (closed ++ [last]) []))
  | some _ => none

/-- Give a value to a key, which may lead through tables that only pairs have made. -/
def insertPair? (value : Value) : List String → Entries → Option Entries
  | [], _ => none
  | [key], entries =>
    match entries.lookup key with
    | none => some (entries ++ [(key, .value value)])
    | some _ => none
  | key :: path, entries =>
    match entries.lookup key with
    | none => (insertPair? value path []).map fun inner => entries ++ [(key, .table .dotted inner)]
    | some (.table .dotted inner) =>
      (insertPair? value path inner).map fun changed => replace entries key (.table .dotted changed)
    | some _ => none

mutual

def Node.toValue : Node → Value
  | .value value => value
  | .table _ entries => .record (entriesToValues entries)
  | .tables closed last => .list (tablesToValues closed ++ [.record (entriesToValues last)])

def entriesToValues : List (String × Node) → List (String × Value)
  | [] => []
  | (key, node) :: rest => (key, node.toValue) :: entriesToValues rest

def tablesToValues : List (List (String × Node)) → List Value
  | [] => []
  | table :: rest => .record (entriesToValues table) :: tablesToValues rest

end

end Phrasebook.Data.Toml
