/-
Frozen lists: a list with entries of which none may change access control can
never be amended again. A list without entries restricts nothing and is not
frozen.
-/
import AclTree.Acl
import AclTree.Error

namespace AclTree.Acl

/-- Nobody on the list, and somebody is on it, has the privilege to change access control. -/
def isFrozen (acl : Acl) (modify : String) : Bool :=
  !acl.isEmpty && !acl.entries.any (·.grants modify)

/-- Refuses a frozen list, naming the principal of each entry. -/
def checkNotFrozen (acl : Acl) (modify : String) : Except AccessError Unit :=
  if acl.isFrozen modify then .error (.frozenAcl acl.principals) else .ok ()

end AclTree.Acl
