/-
Paths of nodes: absolute, the names on the way down separated by slashes, `/`
alone for the root. `normalize` brings a text into that form or says what is
wrong with it; `join` and `split?` add and take off the last name; `depth`
counts the names.
-/

namespace AclTree

/-- What is wrong with a path or with a name. -/
inductive PathError where
  | invalidName (name : String)
  | notAbsolute (path : String)
  | invalidSegment (path : String)
  deriving DecidableEq

namespace PathError

def message : PathError → String
  | invalidName name => "'" ++ name ++ "' is not a valid node name"
  | notAbsolute path => "'" ++ path ++ "' is not absolute"
  | invalidSegment path => "'" ++ path ++ "' has an invalid segment"

end PathError

namespace Path

/-- The path of the root node. -/
def root : String := "/"

/-- The pieces of a text between its slashes, one more than it has slashes. -/
def segments : List Char → List (List Char)
  | [] => [[]]
  | c :: rest =>
    if c = '/' then
      [] :: segments rest
    else
      match segments rest with
      | [] => [[c]]
      | piece :: pieces => (c :: piece) :: pieces

/-- A node's name is not empty, is neither `.` nor `..`, and holds no slash. -/
def isName (name : List Char) : Bool :=
  !name.isEmpty && name != ['.'] && name != ['.', '.'] && !name.contains '/'

def checkName (name : String) : Except PathError Unit :=
  if isName name.toList then .ok () else .error (.invalidName name)

/-- A text without the slash that it may end in. -/
def dropSlash (text : List Char) : List Char :=
  if text.getLast? = some '/' then text.dropLast else text

/-- The normal form of an absolute path: without the slash at its end, unless it is the root, and
made of valid names. -/
def normalize (path : String) : Except PathError String :=
  match path.toList with
  | '/' :: rest =>
    if rest.isEmpty then
      .ok root
    else if (segments (dropSlash rest)).all isName then
      .ok (String.ofList ('/' :: dropSlash rest))
    else
      .error (.invalidSegment path)
  | _ => .error (.notAbsolute path)

/-- The path of the node `name` under `parent`. -/
def join (parent name : String) : String :=
  if parent = root then "/" ++ name else parent ++ "/" ++ name

/-- What stands before and after the last slash of a text. -/
def splitLast : List Char → Option (List Char × List Char)
  | [] => none
  | c :: rest =>
    match splitLast rest with
    | some (before, after) => some (c :: before, after)
    | none => if c = '/' then some ([], rest) else none

/-- The parent's path and the last name. The root has neither, nor has a text without a slash. -/
def split? (path : String) : Option (String × String) :=
  if path = root then
    none
  else
    (splitLast path.toList).map fun (before, after) =>
      (if before.isEmpty then root else String.ofList before, String.ofList after)

/-- How many names lead from the root to a node. -/
def depth (path : String) : Nat :=
  if path = root then 0 else path.toList.count '/'

/-- The path is `bound` or continues it by further names. -/
def isWithin (path bound : String) : Bool :=
  bound == root || path == bound || (bound.toList ++ ['/']).isPrefixOf path.toList

end Path
end AclTree
