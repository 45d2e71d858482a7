/-
What can fail, and how it is told: `RepositoryError` is what a host reports,
`AccessError` what an operation on lists reports. `message` gives the text of
either, `causes` what lies behind it.
-/
import AclTree.Text.Quoted

namespace AclTree

/-- A failure that a host reports. -/
inductive RepositoryError where
  | nodeNotFound (path : String)
  | invalidPath (path : String)
  /-- The node offers neither an applicable nor an applied policy. -/
  | noPolicyCandidate (path : String)
  | storage (reason : String)
  deriving DecidableEq

namespace RepositoryError

def message : RepositoryError → String
  | nodeNotFound path => "Node not found: " ++ path
  | invalidPath path => "Malformed path: " ++ path
  | noPolicyCandidate path => "No access control policy available for node: " ++ path
  | storage reason => "Repository storage error: " ++ reason

end RepositoryError

/-- What was being attempted when a call to the host failed. -/
inductive Operation where
  | grant
  | revoke
  | clear
  | resolve
  deriving DecidableEq

namespace Operation

def name : Operation → String
  | grant => "grant"
  | revoke => "revoke"
  | clear => "clear"
  | resolve => "resolve"

end Operation

/-- Why an operation on access control lists stopped. -/
inductive AccessError where
  /-- The host failed, at a node if one was concerned. -/
  | repositoryAccess (path : Option String) (operation : Operation) (privileges : List String)
      (source : RepositoryError)
  /-- The target is no ancestor of the start. -/
  | invalidHierarchy (start target : String)
  | unknownPrivilege (name : String)
  /-- No entry could amend the list again. -/
  | frozenAcl (principals : List String)
  deriving DecidableEq

namespace AccessError

def message : AccessError → String
  | repositoryAccess path operation privileges source =>
    "Failed to " ++ operation.name ++ " privilege(s) " ++ Text.quoteList privileges ++ " on node "
      ++ path.getD "<none>" ++ ": " ++ source.message
  | invalidHierarchy start target =>
    "Node " ++ target ++ " is not in the hierarchy of node " ++ start
  | unknownPrivilege name => "Unknown privilege: " ++ name
  | frozenAcl principals =>
    "ACL would result in a frozen access control state (principals: "
      ++ Text.quoteList principals ++ ")"

/-- The failures behind this one. -/
def causes : AccessError → List String
  | repositoryAccess _ _ _ source => [source.message]
  | _ => []

/-- Names the node of a host failure that has none yet. -/
def atPath (node : String) : AccessError → AccessError
  | repositoryAccess none operation privileges source =>
    repositoryAccess (some node) operation privileges source
  | e => e

end AccessError
end AclTree
