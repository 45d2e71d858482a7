/-
Operations on a node and its descendants. The node itself is always visited,
below it only the children whose type a filter accepts, and nothing that is
below other children. Grants reach a node before the nodes visited below it,
revokes and clears reach it after them.
-/
import AclTree.Engine.Walk

namespace AclTree.Engine

variable {σ : Type}

/-- Whether a walk over a subtree visits a node before what is below it, or after. -/
inductive Order where
  | parentFirst
  | childrenFirst
  deriving DecidableEq

/-- The children that the filter accepts. All types are asked for before any child is visited. -/
def matchingChildren (e : Engine σ) (operation : Operation) (names : List String)
    (accepts : String → Bool) (path : String) : Action σ (List String) := do
  let children ← access path operation names (e.host.children path)
  children.filterM fun child => do
    let kind ← access path operation names (e.host.kind child)
    pure (accepts kind)

/-- Visits a node and the matching nodes below it, and tells whether any visit changed
something. -/
def descend (e : Engine σ) (order : Order) (operation : Operation) (names : List String)
    (accepts : String → Bool) (visit : String → Action σ Bool) : Nat → String → Walk σ Bool
  | 0, _ => Walk.unfinished
  | limit + 1, path =>
    match order with
    | .parentFirst => do
      let changed ← Walk.step (visit path)
      let children ← Walk.step (e.matchingChildren operation names accepts path)
      Walk.visitAll (e.descend order operation names accepts visit limit) children changed
    | .childrenFirst => do
      let children ← Walk.step (e.matchingChildren operation names accepts path)
      let below ← Walk.visitAll (e.descend order operation names accepts visit limit) children false
      let changed ← Walk.step (visit path)
      pure (below || changed)

/-- Grants on a node and then on the matching nodes below it. -/
def grantSubtree (e : Engine σ) (limit : Nat) (path : String) (accepts : String → Bool)
    (who : Principal) (names : List String) : Walk σ Bool :=
  if names.isEmpty then
    pure false
  else do
    let privileges ← Walk.step (e.resolveAt path names)
    e.descend .parentFirst .grant (Privilege.names privileges) accepts
      (fun path => e.grant path who privileges) limit path

/-- Revokes on the matching nodes below a node and then on the node. -/
def revokeSubtree (e : Engine σ) (limit : Nat) (path : String) (accepts : String → Bool)
    (who : Principal) (names : List String) : Walk σ Bool :=
  if names.isEmpty then
    pure false
  else do
    let privileges ← Walk.step (e.resolveAt path names)
    e.descend .childrenFirst .revoke (Privilege.names privileges) accepts
      (fun path => e.revoke path who privileges) limit path

/-- Clears the matching nodes below a node and then the node. -/
def clearSubtree (e : Engine σ) (limit : Nat) (path : String) (accepts : String → Bool) :
    Walk σ Bool :=
  e.descend .childrenFirst .clear [] accepts e.clear limit path

end AclTree.Engine
