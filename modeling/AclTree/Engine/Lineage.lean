/-
Operations on every node from a start up to one of its ancestors. A grant
finds the whole way first and then works downwards, so no node is written if
the target is no ancestor; revokes and clears work while climbing and leave
what they did when the root is met without the target.
-/
import AclTree.Engine.Walk

namespace AclTree.Engine

variable {σ : Type}

/-- The parent of a node below the root; a node without one is malformed. -/
def parentOf (e : Engine σ) (operation : Operation) (names : List String) (path : String) :
    Action σ String := do
  match ← access path operation names (e.host.parent path) with
  | some parent => pure parent
  | none => throw (.repositoryAccess (some path) operation names (.invalidPath path))

/-- The nodes from `current` up to `target`, both included. -/
def lineage (e : Engine σ) (names : List String) (start target : String) :
    Nat → String → Walk σ (List String)
  | limit, current =>
    if current = target then
      pure [current]
    else if current = e.host.root then
      throw (.invalidHierarchy start target)
    else
      match limit with
      | 0 => Walk.unfinished
      | limit + 1 => do
        let parent ← Walk.step (e.parentOf .grant names current)
        let above ← e.lineage names start target limit parent
        pure (current :: above)

/-- Visits the nodes from `current` up to `target`, each before its parent is asked for. -/
def climb (e : Engine σ) (operation : Operation) (names : List String)
    (visit : String → Action σ Bool) (start target : String) : Nat → String → Walk σ Bool
  | limit, current =>
    if current = target then
      Walk.step (visit current)
    else if current = e.host.root then
      throw (.invalidHierarchy start target)
    else
      match limit with
      | 0 => Walk.unfinished
      | limit + 1 => do
        let changed ← Walk.step (visit current)
        let parent ← Walk.step (e.parentOf operation names current)
        let above ← e.climb operation names visit start target limit parent
        pure (changed || above)

/-- Grants on every node from `target` down to `start`. -/
def grantAlong (e : Engine σ) (limit : Nat) (start target : String) (who : Principal)
    (names : List String) : Walk σ Bool := do
  let way ← e.lineage names start target limit start
  let privileges ← Walk.step (e.resolveAt start names)
  Walk.visitAll (fun path => Walk.step (e.grant path who privileges)) way.reverse false

/-- Revokes on every node from `start` up to `target`. -/
def revokeAlong (e : Engine σ) (limit : Nat) (start target : String) (who : Principal)
    (names : List String) : Walk σ Bool := do
  let privileges ← Walk.step (e.resolveAt start names)
  e.climb .revoke names (fun path => e.revoke path who privileges) start target limit start

/-- Clears every node from `start` up to `target`. -/
def clearAlong (e : Engine σ) (limit : Nat) (start target : String) : Walk σ Bool :=
  e.climb .clear [] e.clear start target limit start

end AclTree.Engine
