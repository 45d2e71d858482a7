/-
A repository as a host: a node without a list offers the empty one, a node
with a list has it as its only applied one.
-/
import AclTree.Host
import AclTree.Repository

namespace AclTree.Repository

/-- The lists that a node could have: the empty one, unless one is bound. -/
def applicable (node : Node) : List Acl :=
  match node.policy with
  | some _ => []
  | none => [Acl.empty]

def host : Host Repository where
  root := Path.root
  parent path := Host.reading fun r => (r.node path).map (·.parent)
  children path := Host.reading fun r => (r.node path).map (·.children)
  kind path := Host.reading fun r => (r.node path).map (·.kind)
  applicable path := Host.reading fun r => (r.node path).map applicable
  applied path := Host.reading fun r => (r.node path).map (·.policy.toList)
  setPolicy path acl := Host.writing fun r => r.setPolicy path acl
  removePolicy path acl := Host.writing fun r => r.removePolicy path acl
  privilege name := Host.reading fun r => .ok (r.findPrivilege? name)

end AclTree.Repository
