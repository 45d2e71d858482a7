/-
The standard privileges, which every repository knows from the start: the
constituents before the aggregates.
-/
import AclTree.Privilege

namespace AclTree.Privilege

def read : Privilege := .simple "jcr:read"

/-- The ways to change a node and the list of its children. -/
def modifications : List Privilege :=
  ["jcr:modifyProperties", "jcr:addChildNodes", "jcr:removeNode", "jcr:removeChildNodes"].map simple

def write : Privilege := .aggregate "jcr:write" modifications

/-- What concerns a node beside its content. -/
def management : List Privilege :=
  ["jcr:readAccessControl", "jcr:modifyAccessControl", "jcr:lockManagement",
    "jcr:versionManagement", "jcr:nodeTypeManagement", "jcr:retentionManagement",
    "jcr:lifecycleManagement"].map simple

def all : Privilege := .aggregate "jcr:all" (read :: write :: management)

/-- The catalogue, in its order. -/
def standard : List Privilege := read :: modifications ++ write :: management ++ [all]

end AclTree.Privilege
