/-
The operations of the engine as data: what is asked, where it starts and how
far it reaches. `Engine.perform` carries a request out on a host,
`Repository.perform` on a repository, where every walk ends within the number
of its nodes.
-/
import AclTree.Engine.Lineage
import AclTree.Engine.Subtree
import AclTree.Repository.Host

namespace AclTree

/-- Which nodes an operation reaches from the one it starts at. -/
inductive Scope where
  | node
  /-- Every node up to an ancestor. -/
  | ancestors (target : String)
  /-- The descendants whose type is accepted, all the way down. -/
  | subtree (accepts : String → Bool)

/-- One operation of the engine. -/
inductive Request where
  | grant (path : String) (who : Principal) (privileges : List Privilege)
  | revoke (path : String) (who : Principal) (privileges : List Privilege)
  | grantNamed (path : String) (scope : Scope) (who : Principal) (names : List String)
  | revokeNamed (path : String) (scope : Scope) (who : Principal) (names : List String)
  | clear (path : String) (scope : Scope)

namespace Engine

variable {σ : Type}

/-- Carries out a request; walks may take as many steps as the limit says. -/
def perform (e : Engine σ) (limit : Nat) : Request → Walk σ Bool
  | .grant path who privileges => Walk.step (e.grant path who privileges)
  | .revoke path who privileges => Walk.step (e.revoke path who privileges)
  | .grantNamed path .node who names => Walk.step (e.grantNamed path who names)
  | .grantNamed path (.ancestors target) who names => e.grantAlong limit path target who names
  | .grantNamed path (.subtree accepts) who names => e.grantSubtree limit path accepts who names
  | .revokeNamed path .node who names => Walk.step (e.revokeNamed path who names)
  | .revokeNamed path (.ancestors target) who names => e.revokeAlong limit path target who names
  | .revokeNamed path (.subtree accepts) who names => e.revokeSubtree limit path accepts who names
  | .clear path .node => Walk.step (e.clear path)
  | .clear path (.ancestors target) => e.clearAlong limit path target
  | .clear path (.subtree accepts) => e.clearSubtree limit path accepts

end Engine

namespace Repository

/-- Carries out a request on a repository. Its nodes form a tree, so no walk takes more steps than
there are nodes. -/
def perform (r : Repository) (settings : Settings) (request : Request) :
    Option (Except AccessError Bool × Repository) :=
  (Engine.mk host settings).perform r.size request r

end Repository
end AclTree
