/-
What is reported of a repository: the lists bound at a node and below it, and
the check that goes through all nodes and tells which lists are frozen.
-/
import AclTree.Repository

namespace AclTree

/-- What the check found of the list bound to one node. -/
structure CheckRow where
  path : String
  /-- The principals of the list, if it is frozen. -/
  frozen : Option (List String)
  deriving DecidableEq

namespace CheckRow

def of (modify path : String) (acl : Acl) : CheckRow :=
  ⟨path, if acl.isFrozen modify then some acl.principals else none⟩

def isFrozen (row : CheckRow) : Bool := row.frozen.isSome

@[simp] theorem isFrozen_of (modify path : String) (acl : Acl) :
    (of modify path acl).isFrozen = acl.isFrozen modify := by
  unfold of isFrozen; split <;> simp_all

end CheckRow

namespace Repository

/-- The lists bound to a node and to those below it. -/
def listingWithin (r : Repository) (bound : String) : List PolicyListing :=
  r.listing.filter (Path.isWithin ·.path bound)

/-- A row for each node that has a list, by ascending path. -/
def check (r : Repository) (modify : String) : List CheckRow :=
  r.paths.filterMap fun path => (r.policy path).toOption.join.map (CheckRow.of modify path)

end Repository
end AclTree
