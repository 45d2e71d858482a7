/-
A repository of content held in memory: nodes by path, each with its type, its
parent, its children in order and at most one access control list, and the
registry of the privileges it knows. Nodes and privileges are added by changes,
which leave a repository also where they fail (`Repository.Change`).
-/
import AclTree.Guard
import AclTree.Path
import AclTree.PathMap
import AclTree.Privilege.Catalogue

namespace AclTree

/-- Why nodes or privileges could not be added. -/
inductive ContentError where
  | invalidPath (cause : PathError)
  | nodeNotFound (path : String)
  | duplicateNode (path : String)
  | unknownPrivilege (name : String)
  | duplicatePrivilege (name : String)
  /-- A fixture lists a principal on a node without any privilege. -/
  | emptyEntry (principal path : String)
  deriving DecidableEq

namespace ContentError

def message : ContentError → String
  | invalidPath cause => "Invalid node path: " ++ cause.message
  | nodeNotFound path => "Node not found: " ++ path
  | duplicateNode path => "Node already exists: " ++ path
  | unknownPrivilege name => "Unknown privilege: " ++ name
  | duplicatePrivilege name => "Privilege already registered: " ++ name
  | emptyEntry principal path =>
    "Invalid fixture: Entry for '" ++ principal ++ "' on " ++ path ++ " has no privileges"

end ContentError

/-- What a repository keeps of a node. -/
structure Node where
  kind : String
  parent : Option String
  children : List String := []
  policy : Option Acl := none

structure Repository where
  nodes : PathMap Node
  /-- The registered privileges, in the order in which they came. -/
  privileges : List Privilege

/-- One entry as reports show it, by names. -/
structure EntryListing where
  principal : String
  privileges : List String
  deriving DecidableEq

/-- The list bound to one node as reports show it. -/
structure PolicyListing where
  path : String
  kind : String
  entries : List EntryListing
  deriving DecidableEq

namespace PolicyListing

def of (path kind : String) (acl : Acl) : PolicyListing :=
  ⟨path, kind, acl.entries.map fun e => ⟨e.principal.name, e.privilegeNames⟩⟩

end PolicyListing

namespace Repository

/-- The root node alone, and the standard privileges. -/
def initial : Repository :=
  ⟨PathMap.empty.insert Path.root { kind := "rep:root", parent := none }, Privilege.standard⟩

/-! ## Nodes -/

def contains (r : Repository) (path : String) : Bool := r.nodes.contains path

/-- The paths of all nodes, ascending. -/
def paths (r : Repository) : List String := r.nodes.paths

def size (r : Repository) : Nat := r.nodes.size

def node (r : Repository) (path : String) : Except RepositoryError Node :=
  match r.nodes.find? path with
  | some node => .ok node
  | none => .error (.nodeNotFound path)

/-! ## Privileges -/

def findPrivilege? (r : Repository) (name : String) : Option Privilege :=
  r.privileges.find? (·.name == name)

/-- The descriptors of registered names. -/
def resolve (r : Repository) (names : List String) : Except ContentError (List Privilege) :=
  names.mapM fun name =>
    match r.findPrivilege? name with
    | some p => .ok p
    | none => .error (.unknownPrivilege name)

/-! ## Changes -/

/-- A change of a repository. It gives a result or fails, and leaves a repository either way. -/
abbrev Change (α : Type) := ExceptT ContentError (StateM Repository) α

namespace Change

variable {α : Type}

/-- Fails as what was tried has failed. -/
def ofExcept (x : Except ContentError α) : Change α := ExceptT.mk (pure x)

/-- The result of the change, with the repository it leaves if it succeeds. -/
def attempt (c : Change α) (r : Repository) : Except ContentError (α × Repository) :=
  let (result, s) := c.run.run r
  result.map (·, s)

/-- The repository that the change leaves, also if it fails. -/
def left (c : Change α) (r : Repository) : Repository := (c.run.run r).2

/-- Adds a child under `parent`, after the children there are, and gives its path. -/
def addNode (parent name kind : String) : Change String := do
  ofExcept ((Path.checkName name).mapError .invalidPath)
  let parent ← ofExcept ((Path.normalize parent).mapError .invalidPath)
  let path := Path.join parent name
  let r ← get
  if r.contains path then
    throw (.duplicateNode path)
  else if r.contains parent then
    modify fun r => { r with nodes := r.nodes.modify parent fun node =>
      { node with children := node.children ++ [path] } }
    modify fun r => { r with nodes := r.nodes.insert path { kind, parent := some parent } }
    pure path
  else
    throw (.nodeNotFound parent)

/-- Adds the node at an absolute path, whose parent has to be there. -/
def addPath (path kind : String) : Change String := do
  let path ← ofExcept ((Path.normalize path).mapError .invalidPath)
  match Path.split? path with
  | some (parent, name) => addNode parent name kind
  | none => throw (.duplicateNode Path.root)

/-- Registers a descriptor under its name, which has to be new. -/
def register (p : Privilege) : Change Privilege := do
  if Privilege.holds (← get).privileges p.name then
    throw (.duplicatePrivilege p.name)
  else
    modify fun r => { r with privileges := r.privileges ++ [p] }
    pure p

def registerPrivilege (name : String) : Change Privilege := register (.simple name)

/-- Registers an aggregate of privileges that are registered already, so none comes to contain
itself. -/
def registerAggregate (name : String) (constituents : List String) : Change Privilege := do
  let parts ← ofExcept ((← get).resolve constituents)
  register (.aggregate name parts)

end Change

def addNode (r : Repository) (parent name kind : String) :
    Except ContentError (String × Repository) :=
  (Change.addNode parent name kind).attempt r

def addPath (r : Repository) (path kind : String) : Except ContentError (String × Repository) :=
  (Change.addPath path kind).attempt r

def register (r : Repository) (p : Privilege) : Except ContentError (Privilege × Repository) :=
  (Change.register p).attempt r

def registerPrivilege (r : Repository) (name : String) :
    Except ContentError (Privilege × Repository) :=
  (Change.registerPrivilege name).attempt r

def registerAggregate (r : Repository) (name : String) (constituents : List String) :
    Except ContentError (Privilege × Repository) :=
  (Change.registerAggregate name constituents).attempt r

/-! ## Policies -/

/-- The list bound to a node, if one is. -/
def policy (r : Repository) (path : String) : Except RepositoryError (Option Acl) :=
  (r.node path).map (·.policy)

def withPolicy (r : Repository) (path : String) (policy : Option Acl) : Repository :=
  { r with nodes := r.nodes.modify path fun node => { node with policy } }

/-- Binds a list to a node, in place of the one it had. -/
def setPolicy (r : Repository) (path : String) (acl : Acl) : Except RepositoryError Repository :=
  (r.node path).map fun _ => r.withPolicy path (some acl)

/-- Unbinds the list that a node has; any other list is refused. -/
def removePolicy (r : Repository) (path : String) (acl : Acl) :
    Except RepositoryError Repository := do
  match (← r.node path).policy with
  | some bound =>
    if bound.same acl then
      pure (r.withPolicy path none)
    else
      throw (.storage ("Policy is not bound to node " ++ path))
  | none => throw (.storage ("Policy is not bound to node " ++ path))

/-- The bound lists, by ascending path. -/
def listing (r : Repository) : List PolicyListing :=
  r.nodes.entries.filterMap fun (path, node) => node.policy.map (PolicyListing.of path node.kind)

end Repository
end AclTree
