import Phrasebook.Text.Utf8

/-! Files under one directory, by their paths. -/

set_option autoImplicit false

namespace Phrasebook

/-- Files with their contents; a directory is there if a file is below it. -/
structure FileTree where
  files : List (List String × List UInt8)
  deriving Repr

namespace FileTree

inductive Entry where
  | missing
  | directory
  | file (content : List UInt8)
  deriving Repr

def steps (path : String) : List String :=
  (path.splitOn "/").filter fun step => step != "" && step != "."

def ofList (files : List (String × List UInt8)) : FileTree :=
  ⟨files.map fun file => (steps file.1, file.2)⟩

def isDirectory (tree : FileTree) (place : List String) : Bool :=
  place.isEmpty || tree.files.any fun file => place.isPrefixOf file.1 && file.1 != place

def entryAt (tree : FileTree) (place : List String) : Entry :=
  if tree.isDirectory place then .directory
  else
    match tree.files.lookup place with
    | some content => .file content
    | none => .missing

/-- What steps from a place lead to. Two dots lead to the directory above; above
the whole tree nothing is known but directories. -/
def follow (tree : FileTree) (place : List String) : List String → Entry
  | [] => tree.entryAt place
  | step :: rest =>
    if !tree.isDirectory place then .missing
    else if step = ".." then
      if place.isEmpty then (if rest.all (· == "..") then .directory else .missing)
      else tree.follow place.dropLast rest
    else tree.follow (place ++ [step]) rest

/-- What a path leads to. A path that ends like one of a directory leads to no file. -/
def find (tree : FileTree) (path : String) : Entry :=
  if path.isEmpty then .missing
  else if path.startsWith "/" then (if (steps path).all (· == "..") then .directory else .missing)
  else
    match tree.follow [] (steps path) with
    | .file content =>
      if path.endsWith "/" || path.endsWith "/." then .missing else .file content
    | entry => entry

/-- The part of a file name after its last dot, if anything stands before the dot. -/
def extension? (path : String) : Option String :=
  match (steps path).getLast? with
  | none => none
  | some name =>
    let reversed := name.toList.reverse
    match reversed.dropWhile (· != '.') with
    | _ :: _ :: _ =>
      if name = ".." then none else some (String.ofList (reversed.takeWhile (· != '.')).reverse)
    | _ => none

/-- A path with an extension after its file name, if it has a file name. -/
def withExtension? (path extension : String) : Option String :=
  match (path.splitOn "/").reverse.dropWhile fun step => step == "" || step == "." with
  | [] => none
  | name :: rest =>
    if name = ".." then none
    else some ("/".intercalate ((name ++ "." ++ extension) :: rest).reverse)

end FileTree

end Phrasebook
