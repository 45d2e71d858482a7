/-
The engine: grants, revokes and clears on one node of a host. `grant` and
`revoke` read the node's list, change it as `Acl.add` and `Acl.take` do and
write it back whole, as their last call; `clear` unbinds what is bound. An
empty list of privileges asks for nothing and touches nothing.
-/
import AclTree.Guard
import AclTree.Host
import AclTree.Settings

namespace AclTree

/-- Work on a host that ends in an answer or an error; the host's state outlives both. -/
abbrev Action (σ α : Type) := ExceptT AccessError (StateM σ) α

structure Engine (σ : Type) where
  host : Host σ
  settings : Settings := {}

namespace Engine

variable {σ : Type}

/-- A host call made for an operation at a node: its failure is told with both. -/
def access {α : Type} (path : String) (operation : Operation) (names : List String)
    (call : HostCall σ α) : Action σ α :=
  ExceptT.adapt (AccessError.repositoryAccess (some path) operation names) call

/-- The descriptors of privilege names, looked up in order up to the first that there is none of.
A failed lookup names no node. -/
def resolve (e : Engine σ) (names : List String) : Action σ (List Privilege) :=
  names.mapM fun name => do
    match ← ExceptT.adapt (AccessError.repositoryAccess none .resolve names)
        (e.host.privilege name) with
    | some p => pure p
    | none => throw (.unknownPrivilege name)

/-- As `resolve`, for an operation at a node. -/
def resolveAt (e : Engine σ) (path : String) (names : List String) : Action σ (List Privilege) :=
  ExceptT.adapt (AccessError.atPath path) (e.resolve names)

/-- Refuses a frozen list if the settings ask for that. -/
def checkConsistency (e : Engine σ) (acl : Acl) : Action σ Unit :=
  if e.settings.enforce then
    ExceptT.mk (pure (acl.checkNotFrozen e.settings.modifyPrivilege))
  else
    pure ()

/-- Gives a list without entries to the administrator; any other list stays. -/
def seed (e : Engine σ) (path : String) (acl : Acl) : Action σ (Acl × Bool) :=
  if acl.isEmpty then do
    let all ← e.resolveAt path [e.settings.allPrivilege]
    pure (acl.add ⟨e.settings.admin⟩ all)
  else
    pure (acl, false)

/-- Grants privileges to a principal on a node, and tells whether the node's list changed. -/
def grant (e : Engine σ) (path : String) (who : Principal) (privileges : List Privilege) :
    Action σ Bool :=
  if privileges.isEmpty then
    pure false
  else do
    let names := Privilege.names privileges
    let found ← access path .grant names (e.host.candidate path)
    let (acl, seeded) ← e.seed path found
    let (acl, added) := acl.add who privileges
    e.checkConsistency acl
    access path .grant names (e.host.setPolicy path acl)
    pure (seeded || added)

/-- Takes privileges from a principal on a node, and tells whether it had any of them. A list that
stays as it is is not written. -/
def revoke (e : Engine σ) (path : String) (who : Principal) (privileges : List Privilege) :
    Action σ Bool :=
  if privileges.isEmpty then
    pure false
  else do
    let names := Privilege.names privileges
    match ← access path .revoke names (e.host.applied path) with
    | [] => pure false
    | bound :: _ =>
      let (acl, changed) := bound.take who privileges
      if changed then
        e.checkConsistency acl
        access path .revoke names (e.host.setPolicy path acl)
        pure true
      else
        pure false

/-- Unbinds every list of a node, and tells whether there was one. -/
def clear (e : Engine σ) (path : String) : Action σ Bool := do
  let bound ← access path .clear [] (e.host.applied path)
  bound.forM fun acl => access path .clear [] (e.host.removePolicy path acl)
  pure !bound.isEmpty

/-- Grants privileges by their names. -/
def grantNamed (e : Engine σ) (path : String) (who : Principal) (names : List String) :
    Action σ Bool :=
  if names.isEmpty then
    pure false
  else do
    e.grant path who (← e.resolveAt path names)

/-- Revokes privileges by their names. -/
def revokeNamed (e : Engine σ) (path : String) (who : Principal) (names : List String) :
    Action σ Bool :=
  if names.isEmpty then
    pure false
  else do
    e.revoke path who (← e.resolveAt path names)

end Engine
end AclTree
