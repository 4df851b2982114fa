/-! Tries that find the longest vocabulary entry at a position.

A trie is a forest of edges: an edge has a symbol, the value of the entry that
ends there, the forest below it and the sibling edges after it. Entries have
nonempty keys.
-/

set_option autoImplicit false

namespace Phrasebook

inductive Trie (κ α : Type) where
  | empty
  | edge (symbol : κ) (value : Option α) (below : Trie κ α) (siblings : Trie κ α)
  deriving Repr, Inhabited

namespace Trie

variable {κ α : Type} [DecidableEq κ]

/-- The forest with the one entry `key`. -/
def path (value : α) : List κ → Trie κ α
  | [] => empty
  | [symbol] => edge symbol (some value) empty empty
  | symbol :: next :: rest => edge symbol none (path value (next :: rest)) empty

def alter (change : Option α → α) (key : List κ) : Trie κ α → Trie κ α
  | empty => path (change none) key
  | edge symbol value below siblings =>
    match key with
    | [] => edge symbol value below siblings
    | first :: rest =>
      if first = symbol then
        if rest = [] then edge symbol (some (change value)) below siblings
        else edge symbol value (below.alter change rest) siblings
      else edge symbol value below (siblings.alter change (first :: rest))

/-- Store `item`, or merge it into the value that the key already has. -/
def merge {ι : Type} (create : ι → α) (update : α → ι → α) (key : List κ) (item : ι)
    (trie : Trie κ α) : Trie κ α :=
  trie.alter (fun value => value.elim (create item) (update · item)) key

def insert (key : List κ) (value : α) (trie : Trie κ α) : Trie κ α :=
  trie.merge (fun item => item) (fun _ item => item) key value

def ofListWith {ι : Type} (create : ι → α) (update : α → ι → α)
    (entries : List (List κ × ι)) : Trie κ α :=
  entries.foldl (fun trie entry => trie.merge create update entry.1 entry.2) empty

/-- The trie of a list of entries; the last value of a key counts. -/
def ofList (entries : List (List κ × α)) : Trie κ α :=
  entries.foldl (fun trie entry => trie.insert entry.1 entry.2) empty

def size : Trie κ α → Nat
  | empty => 0
  | edge _ value below siblings => (if value.isSome then 1 else 0) + below.size + siblings.size

def isEmpty (trie : Trie κ α) : Bool := trie.size == 0

def get? (key : List κ) : Trie κ α → Option α
  | empty => none
  | edge symbol value below siblings =>
    match key with
    | [] => none
    | first :: rest =>
      if first = symbol then if rest = [] then value else below.get? rest
      else siblings.get? (first :: rest)

/-- Lengths and values of the entries that start the input, shortest first. -/
def starts (input : List κ) : Trie κ α → List (Nat × α)
  | empty => []
  | edge symbol value below siblings =>
    match input with
    | [] => []
    | first :: rest =>
      if first = symbol then
        (value.map fun found => (1, found)).toList ++
          (below.starts rest).map fun found => (found.1 + 1, found.2)
      else siblings.starts (first :: rest)

/-- The longest entry that starts the input. -/
def longest? (input : List κ) (trie : Trie κ α) : Option (Nat × α) :=
  (trie.starts input).getLast?

/-- The longest entry that starts the input and has an accepted length. -/
def longestWhere? (accepts : Nat → Bool) (input : List κ) (trie : Trie κ α) : Option (Nat × α) :=
  (trie.starts input).reverse.find? fun found => accepts found.1

/-- An occurrence of an entry in an input. -/
structure Occurrence (α : Type) where
  start : Nat
  length : Nat
  value : α
  deriving Repr, DecidableEq

def Occurrence.stop (occurrence : Occurrence α) : Nat := occurrence.start + occurrence.length

def startsAt (input : List κ) (position : Nat) (trie : Trie κ α) : List (Occurrence α) :=
  (trie.starts (input.drop position)).map fun found => ⟨position, found.1, found.2⟩

/-- The longest entry at the earliest position, among the `window` positions
from `offset` on, where any entry starts. -/
def find? (input : List κ) (offset window : Nat) (trie : Trie κ α) : Option (Occurrence α) :=
  (List.range' offset (min (offset + window) input.length - offset)).findSome? fun start =>
    (trie.longest? (input.drop start)).map fun found => ⟨start, found.1, found.2⟩

@[simp] theorem get?_empty (key : List κ) : (empty : Trie κ α).get? key = none := rfl

@[simp] theorem get?_nil (trie : Trie κ α) : trie.get? [] = none := by
  cases trie <;> rfl

theorem get?_path (value : α) (key query : List κ) :
    (path value key).get? query = if query = key ∧ key ≠ [] then some value else none := by
  induction key generalizing query with
  | nil => simp [path]
  | cons symbol rest ih =>
    cases query with
    | nil => simp
    | cons first others =>
      cases rest with
      | nil => by_cases same : first = symbol <;> simp [path, get?, same]
      | cons next rest =>
        by_cases same : first = symbol
        · subst same
          by_cases last : others = []
          · simp [path, get?, last]
          · simp [path, get?, last, ih others]
        · simp [path, get?, same]

theorem get?_alter (change : Option α → α) (key query : List κ) (trie : Trie κ α) :
    (trie.alter change key).get? query =
      if query = key ∧ key ≠ [] then some (change (trie.get? key)) else trie.get? query := by
  induction trie generalizing key query with
  | empty => simp [alter, get?_path]
  | edge symbol value below siblings belowIH siblingsIH =>
    cases key with
    | nil => simp [alter]
    | cons first rest =>
      cases query with
      | nil => simp
      | cons head tail =>
        by_cases same : first = symbol
        · subst same
          by_cases last : rest = []
          · subst last
            by_cases equal : head = first
            · subst equal
              by_cases short : tail = [] <;> simp [alter, get?, short]
            · simp [alter, get?, equal]
          · by_cases equal : head = first
            · subst equal
              by_cases short : tail = []
              · simp [alter, get?, last, short, Ne.symm last]
              · simp [alter, get?, last, short, belowIH]
            · simp [alter, get?, last, equal]
        · by_cases equal : head = symbol
          · subst equal
            simp [alter, get?, same, Ne.symm same]
          · simp [alter, get?, same, equal, siblingsIH]

end Trie

end Phrasebook
