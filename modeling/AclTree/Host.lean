/-
What the engine asks of the repository it works on: a `Host` answers each call
or fails, and either way goes on in a new state. Nodes are addressed by path,
and parents and children are asked for at every step of a walk.
-/
import AclTree.Acl
import AclTree.Error

namespace AclTree

/-- A call to a host. The state goes on also when the call fails. -/
abbrev HostCall (σ α : Type) := ExceptT RepositoryError (StateM σ) α

structure Host (σ : Type) where
  root : String
  /-- None for the root, and for a node that hangs nowhere. -/
  parent : String → HostCall σ (Option String)
  children : String → HostCall σ (List String)
  kind : String → HostCall σ String
  /-- The lists that could be bound to a node and are not. -/
  applicable : String → HostCall σ (List Acl)
  /-- The lists that are bound to a node. -/
  applied : String → HostCall σ (List Acl)
  setPolicy : String → Acl → HostCall σ Unit
  removePolicy : String → Acl → HostCall σ Unit
  /-- None for a name that the host does not know. -/
  privilege : String → HostCall σ (Option Privilege)

namespace Host

variable {σ : Type}

/-- A call that reads the state. -/
def reading {α : Type} (f : σ → Except RepositoryError α) : HostCall σ α :=
  fun s => (f s, s)

/-- A call that changes the state if it succeeds. -/
def writing (f : σ → Except RepositoryError σ) : HostCall σ Unit :=
  fun s =>
    match f s with
    | .ok s' => (.ok (), s')
    | .error e => (.error e, s)

/-- The list that a grant starts from: the first applicable one, else the first applied one. -/
def candidate (h : Host σ) (path : String) : HostCall σ Acl := do
  match ← h.applicable path with
  | acl :: _ => pure acl
  | [] =>
    match ← h.applied path with
    | acl :: _ => pure acl
    | [] => throw (.noPolicyCandidate path)

end Host
end AclTree
