/-
What the engine can be told: whom it makes administrator of a new list, with
which privilege, which privilege keeps a list from being frozen, and whether
frozen lists are refused.
-/

namespace AclTree

structure Settings where
  /-- The principal that a list without entries is first given to. -/
  admin : String := "admin"
  /-- The privilege that the administrator gets there. -/
  allPrivilege : String := "jcr:all"
  /-- The privilege that some entry has to grant, or the list is frozen. -/
  modifyPrivilege : String := "jcr:modifyAccessControl"
  /-- Frozen lists are not written. -/
  enforce : Bool := false
  deriving DecidableEq

end AclTree
