import Phrasebook.Data.Yaml.Scanner

/-! Trees of nodes that the tokens of a YAML text describe. -/

set_option autoImplicit false

namespace Phrasebook.Data.Yaml

/-- The tag of a node: what its handle stands for, and the text after the handle. -/
structure Tag where
  handle : List Char
  suffix : List Char
  deriving Repr, DecidableEq

inductive Node where
  | scalar (tag : Option Tag) (isPlain : Bool) (text : List Char)
  | list (items : List Node)
  | record (entries : List (Node × Node))
  /-- A node that refers to a node with a number. -/
  | reference (number : Nat)
  deriving Repr, Inhabited

/-- The root of a document, and the nodes that have numbers. -/
structure Document where
  root : Node
  numbered : List (Nat × Node)

/-- A node that is left out. -/
def Node.absent (edition : Edition) : Node :=
  .scalar none true (if edition = .first then [] else ['~'])

structure Reader where
  edition : Edition
  tokens : List Token
  /-- The anchors so far, the last one first, with the numbers of their nodes. -/
  anchors : List (List Char × Nat) := []
  /-- The nodes with numbers that are complete, the last one first. -/
  numbered : List (Nat × Node) := []
  handles : List (List Char × List Char) := []

abbrev Read := StateT Reader Option

namespace Read

def peek : Read (Option Token) := return (← get).tokens.head?

def skip : Read Unit := modify fun s => { s with tokens := s.tokens.drop 1 }

def isNext (tokens : List Token) : Read Bool := return (← peek).any tokens.contains

def expect (token : Token) : Read Unit := do
  if ← isNext [token] then skip else failure

def absent : Read Node := return Node.absent (← get).edition

def tagOf? (edition : Edition) (handles : List (List Char × List Char))
    (handle suffix : List Char) : Option Tag :=
  match edition with
  | .first =>
    if handle.isEmpty then some ⟨[], suffix⟩
    else
      let defaults := [(['!'], ['!']), (['!', '!'], "tag:yaml.org,2002:".toList)]
      ((handles ++ defaults).lookup handle).map fun meaning => ⟨meaning, suffix⟩
  | .second =>
    match handles.lookup handle with
    | some meaning => some ⟨meaning, suffix⟩
    | none =>
      if handle = ['!', '!'] then some ⟨"tag:yaml.org,2002:".toList, suffix⟩
      else if isClosedHandle handle then none
      else some ⟨handle, suffix⟩

def tag : Read (Option Tag) := do
  match ← peek with
  | some (.tag handle suffix) =>
    skip
    let s ← get
    let tag ← (tagOf? s.edition s.handles handle suffix)
    return some tag
  | _ => return none

/-- An anchor, if one comes next, as the number of its node. In the first edition
a name counts once, so that a number may come again. -/
def anchor : Read (Option Nat) := do
  match ← peek with
  | some (.anchor name) =>
    skip
    let s ← get
    let number := s.anchors.length
    let others := if s.edition = .first then s.anchors.filter (·.1 != name) else s.anchors
    set { s with anchors := (name, number) :: others }
    return some number
  | _ => return none

/-- The anchor and the tag before a node, in any order. -/
def properties : Read (Option Nat × Option Tag) := do
  match ← anchor with
  | some number => return (some number, ← tag)
  | none =>
    let tag ← tag
    let number ← if tag.isSome then anchor else pure none
    return (number, tag)

/-- A node that an alias names. In the second edition it is what has been read of it. -/
def aliased (name : List Char) : Read Node := do
  let s ← get
  let number ← s.anchors.lookup name
  if s.edition = .first then return .reference number
  else return (s.numbered.lookup number).getD (.reference number)

/-- Number a node that is complete, unless a node has the number that has started
after it. Given is how many nodes were complete at its start. -/
def setNumber (number count : Nat) (node : Node) : Read Unit := modify fun s =>
  let inside := s.numbered.take (s.numbered.length - count)
  if inside.any (·.1 == number) then s else { s with numbered := (number, node) :: s.numbered }

mutual

/-- A node. Blocks, and lists in the column of their keys, start in some places only. -/
def node : Nat → Bool → Bool → Read Node
  | 0, _, _ => failure
  | fuel + 1, mayBeBlock, mayBeAtKey => do
    match ← peek with
    | some (.alias name) =>
      skip
      aliased name
    | _ =>
      let (number, tag) ← properties
      let count := (← get).numbered.length
      let content ←
        match ← peek with
        | some (.scalar isPlain text) =>
          skip
          pure (Node.scalar tag isPlain text)
        | some .flowList =>
          skip
          pure (Node.list (← flowItems fuel true))
        | some .flowRecord =>
          skip
          pure (Node.record (← flowEntries fuel true))
        | token =>
          if token == some .dash && mayBeAtKey then pure (Node.list (← itemsAtKey fuel))
          else if token == some .blockList && mayBeBlock then
            skip
            pure (Node.list (← blockItems fuel))
          else if token == some .blockRecord && mayBeBlock then
            skip
            pure (Node.record (← blockEntries fuel))
          else if number.isSome || tag.isSome then pure (Node.scalar tag true [])
          else failure
      if let some number := number then setNumber number count content
      return content

/-- A node, or none before some tokens. -/
def nodeUnless : Nat → List Token → Bool → Bool → Read Node
  | 0, _, _, _ => failure
  | fuel + 1, closers, mayBeBlock, mayBeAtKey => do
    if ← isNext closers then absent else node fuel mayBeBlock mayBeAtKey

/-- The items of a list that stand in the column of its key. -/
def itemsAtKey : Nat → Read (List Node)
  | 0 => failure
  | fuel + 1 => do
    if ← isNext [.dash] then
      skip
      let item ← nodeUnless fuel [.dash, .key, .colon, .blockEnd] true false
      return item :: (← itemsAtKey fuel)
    else return []

def blockItems : Nat → Read (List Node)
  | 0 => failure
  | fuel + 1 => do
    if ← isNext [.blockEnd] then
      skip
      return []
    else
      expect .dash
      let item ← nodeUnless fuel [.dash, .blockEnd] true false
      return item :: (← blockItems fuel)

/-- The entries of a block. In the second edition a key may be left out. -/
def blockEntries : Nat → Read (List (Node × Node))
  | 0 => failure
  | fuel + 1 => do
    if ← isNext [.blockEnd] then
      skip
      return []
    else
      let closers : List Token := [.key, .colon, .blockEnd]
      let key ←
        if ← isNext [.key] then
          skip
          nodeUnless fuel closers true true
        else if (← isNext [.colon]) && (← get).edition == .second then absent
        else failure
      let value ←
        if ← isNext [.colon] then
          skip
          nodeUnless fuel closers true true
        else absent
      return (key, value) :: (← blockEntries fuel)

def flowItems : Nat → Bool → Read (List Node)
  | 0, _ => failure
  | fuel + 1, isFirst => do
    if ← isNext [.flowListEnd] then
      skip
      return []
    else
      if !isFirst then expect .comma
      if ← isNext [.flowListEnd] then
        skip
        return []
      else
        let item ←
          if ← isNext [.key] then
            skip
            pure (Node.record [← flowPair fuel])
          else node fuel false false
        return item :: (← flowItems fuel false)

/-- The only entry of a record without braces. -/
def flowPair : Nat → Read (Node × Node)
  | 0 => failure
  | fuel + 1 => do
    let key ←
      if ← isNext [.colon, .comma, .flowListEnd] then
        skip
        absent
      else node fuel false false
    let value ←
      if ← isNext [.colon] then
        skip
        nodeUnless fuel [.comma, .flowListEnd] false false
      else absent
    return (key, value)

def flowEntries : Nat → Bool → Read (List (Node × Node))
  | 0, _ => failure
  | fuel + 1, isFirst => do
    if ← isNext [.flowRecordEnd] then
      skip
      return []
    else
      if !isFirst then expect .comma
      if ← isNext [.flowRecordEnd] then
        skip
        return []
      else
        let (hasValue, key) ←
          if ← isNext [.key] then
            skip
            pure (true, ← nodeUnless fuel [.colon, .comma, .flowRecordEnd] false false)
          else if (← isNext [.colon]) && (← get).edition == .second then pure (true, ← absent)
          else pure (false, ← node fuel false false)
        let value ←
          if hasValue && (← isNext [.colon]) then
            skip
            nodeUnless fuel [.comma, .flowRecordEnd] false false
          else absent
        return (key, value) :: (← flowEntries fuel false)

end

/-- The directives before a document. A handle and the version are given once. -/
def directives : Nat → Bool → Read Unit
  | 0, _ => failure
  | fuel + 1, hasVersion => do
    match ← peek with
    | some .version =>
      if hasVersion then failure
      skip
      directives fuel true
    | some (.tagHandle handle meaning) =>
      let s ← get
      if s.edition == .first && (s.handles.lookup handle).isSome then failure
      set { s with handles := (handle, meaning) :: s.handles }
      skip
      directives fuel hasVersion
    | _ => pure ()

def isDirective : Option Token → Bool
  | some .version => true
  | some (.tagHandle _ _) => true
  | _ => false

def skipDocumentEnds : Read Unit := modify fun s =>
  { s with tokens := s.tokens.dropWhile (· == .documentEnd) }

/-- The documents of a text. Only the first one, and in the second edition one
after the end of a document, may leave out its start. -/
def documents : Nat → Bool → Read (List Document)
  | 0, _ => failure
  | fuel + 1, mayBeBare => do
    let isSecond : Bool := (← get).edition == .second
    if isSecond || !mayBeBare then skipDocumentEnds
    let next ← peek
    if next.isNone then return []
    else
      let isBare := mayBeBare && !isDirective next && next != some .documentStart
      let nodeFuel := 3 * (← get).tokens.length + 3
      let root ←
        if isBare then node nodeFuel true false
        else do
          directives nodeFuel false
          expect .documentStart
          let after ← peek
          if after.isNone || isDirective after then absent
          else if ← isNext [.documentStart, .documentEnd] then absent
          else node nodeFuel true false
      let isClosed ← isNext [.documentEnd]
      if isClosed then skip
      if isSecond && !isClosed && isDirective (← peek) then failure
      let numbered := (← get).numbered
      modify fun s => { s with handles := [], anchors := [], numbered := [] }
      return ⟨root, numbered⟩ :: (← documents fuel (isSecond && isClosed))

end Read

def documents? (edition : Edition) (source : List Char) : Option (List Document) := do
  let tokens ← tokens? edition source
  let (documents, _) ← (Read.documents (tokens.length + 1) true).run { edition, tokens }
  return documents

end Phrasebook.Data.Yaml
