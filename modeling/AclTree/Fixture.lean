/-
Fixtures: what a repository is seeded with. A fixture names privileges, nodes
and the entries of their lists; `Fixture.load` builds the repository, the
privileges in their order, the nodes level by level, the lists last.
-/
import AclTree.Repository

namespace AclTree

/-- A privilege to register; an aggregate if it lists what it consists of. -/
structure PrivilegeDefinition where
  name : String
  aggregates : Option (List String) := none
  deriving DecidableEq

/-- An entry of a list, by names. -/
structure EntryDefinition where
  principal : String
  privileges : List String
  deriving DecidableEq

/-- A node and the entries of its list. Without entries it gets none. -/
structure NodeDefinition where
  path : String
  kind : String
  acl : List EntryDefinition := []
  deriving DecidableEq

structure Fixture where
  privileges : List PrivilegeDefinition := []
  nodes : List NodeDefinition := []
  deriving DecidableEq

namespace PrivilegeDefinition

/-- The registration of the privilege. -/
def registration (d : PrivilegeDefinition) : Repository.Change Privilege :=
  match d.aggregates with
  | some constituents => .registerAggregate d.name constituents
  | none => .registerPrivilege d.name

def register (d : PrivilegeDefinition) (r : Repository) : Except ContentError Repository :=
  (d.registration.attempt r).map (·.2)

end PrivilegeDefinition

namespace NodeDefinition

/-- The definition with its path in normal form. -/
def normalize (d : NodeDefinition) : Except ContentError NodeDefinition :=
  ((Path.normalize d.path).mapError ContentError.invalidPath).map fun path => { d with path }

/-- Adds the node, without its list. -/
def create (d : NodeDefinition) (r : Repository) : Except ContentError Repository :=
  (r.addPath d.path d.kind).map (·.2)

/-- Adds one entry of the definition to the node's list. -/
def addEntry (d : NodeDefinition) (r : Repository) (acl : Acl) (e : EntryDefinition) :
    Except ContentError Acl :=
  if e.privileges.isEmpty then
    .error (.emptyEntry e.principal d.path)
  else
    (r.resolve e.privileges).map fun privileges => (acl.add ⟨e.principal⟩ privileges).1

/-- The list that the entries make up; those of one principal are merged. -/
def buildAcl (d : NodeDefinition) (r : Repository) : Except ContentError Acl :=
  d.acl.foldlM (d.addEntry r) Acl.empty

/-- Binds the node's list, if the definition has entries. -/
def bind (d : NodeDefinition) (r : Repository) : Except ContentError Repository :=
  if d.acl.isEmpty then
    .ok r
  else
    (d.buildAcl r).map fun acl => r.withPolicy d.path (some acl)

end NodeDefinition

namespace Fixture

/-- The nodes by depth, those of one depth in the order of the fixture. -/
def levels (nodes : List NodeDefinition) : List NodeDefinition :=
  let deepest := (nodes.map fun d => Path.depth d.path).foldl max 0
  (List.range (deepest + 1)).flatMap fun depth => nodes.filter (Path.depth ·.path == depth)

/-- The repository that the fixture describes, or the first thing that is wrong with it. -/
def load (f : Fixture) : Except ContentError Repository := do
  let r ← f.privileges.foldlM (fun r d => d.register r) Repository.initial
  let nodes ← f.nodes.mapM NodeDefinition.normalize
  let r ← (levels nodes).foldlM (fun r d => d.create r) r
  (levels nodes).foldlM (fun r d => d.bind r) r

end Fixture
end AclTree
