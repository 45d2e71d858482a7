/-
A tree of text files held in memory. Directories are there where a file lies
below them, and so is the working directory.
-/
import AclTree.Cli.Environment
import AclTree.File
import AclTree.Path

namespace AclTree.Cli

structure FileTree where
  /-- The names that lead from the root to the working directory. -/
  directory : List String
  /-- Texts by the names that lead to them. -/
  files : List (List String × String)

namespace FileTree

/-- The names in a path. Empty ones, and those that stay in place, are kept. -/
def steps (path : String) : List String := (Path.segments path.toList).map String.ofList

/-- The names in a path that lead anywhere. -/
def names (path : String) : List String := (steps path).filter (· ∉ ["", "."])

/-- The tree of the files with the given paths from a working directory. -/
def ofList (directory : String) (files : List (String × String)) : FileTree :=
  { directory := names directory,
    files := files.map fun (path, text) =>
      (names (Environment.joinPath directory path), text) }

/-- There is a file or directory at the place. -/
def exists? (t : FileTree) (place : List String) : Bool :=
  place.isPrefixOf t.directory || t.files.any fun (file, _) => place.isPrefixOf file

/-- A name takes 255 octets at most. -/
def longestName : Nat := 255

/-- A path takes fewer octets than this. -/
def pathLimit : Nat := 4096

/-- Where a name leads from a place. -/
def step (t : FileTree) (place : List String) (name : String) : Except FileError (List String) :=
  if (t.files.lookup place).isSome then .error .notDirectory
  else if longestName < name.utf8ByteSize then .error .nameTooLong
  else if name = "" ∨ name = "." then .ok place
  else if name = ".." then .ok place.dropLast
  else if t.exists? (place ++ [name]) then .ok (place ++ [name])
  else .error .notFound

/-- The place that a path leads to. -/
def place (t : FileTree) (path : String) : Except FileError (List String) :=
  if path = "" then
    .error .notFound
  else if pathLimit ≤ path.utf8ByteSize then
    .error .nameTooLong
  else
    (steps path).foldlM t.step (if path.toList.head? = some '/' then [] else t.directory)

/-- The text of the file that a path leads to. -/
def read (t : FileTree) (path : String) : Except FileError String := do
  match t.files.lookup (← t.place path) with
  | some text => pure text
  | none => throw .isDirectory

end FileTree
end AclTree.Cli
