/-
A host that follows a script: over a repository it fails chosen calls, cuts
nodes off from their parents, hides policies or answers for them out of its
own, and keeps a record of the writes that reach it.
-/
import AclTree.Engine.Request

namespace AclTree

/-- The calls that a script can make fail, each for one path or one privilege name. -/
inductive HostEvent where
  | parent (path : String)
  | children (path : String)
  | kind (path : String)
  | applicable (path : String)
  | applied (path : String)
  | setPolicy (path : String)
  | removePolicy (path : String)
  | privilege (name : String)
  deriving DecidableEq

/-- What the host does other than its repository would. -/
structure Script where
  root : String := Path.root
  /-- The calls that fail; of several failures for one call the first counts. -/
  failures : List (HostEvent × RepositoryError) := []
  /-- Nodes without a parent. -/
  detached : List String := []
  /-- No node shows a list, applicable or applied. -/
  hidden : Bool := false
  /-- Fixed applicable lists. -/
  applicable : List (String × List Acl) := []

/-- A repository, the applied lists held in front of it, and the writes so far. -/
structure Staged where
  repository : Repository
  /-- The applied lists of some nodes, in place of what the repository holds there. -/
  applied : List (String × List Acl) := []
  /-- The calls to set or remove a policy, in order. -/
  writes : List HostEvent := []

namespace Staged

/-- Runs a call on the repository behind. -/
def within {α : Type} (call : HostCall Repository α) : HostCall Staged α :=
  fun s =>
    let (answer, repository) := call s.repository
    (answer, { s with repository })

def setApplied (s : Staged) (path : String) (lists : List Acl) : Staged :=
  { s with applied := s.applied.map fun e => if e.1 = path then (path, lists) else e }

end Staged

namespace Script

/-- Fails if the script says so, and goes on otherwise. -/
def guarded {α : Type} (s : Script) (event : HostEvent) (call : HostCall Staged α) :
    HostCall Staged α :=
  match s.failures.lookup event with
  | some e => throw e
  | none => call

/-- Records a write, which has passed the script's failures, before it is carried out. -/
def recorded {α : Type} (event : HostEvent) (call : HostCall Staged α) : HostCall Staged α :=
  fun s => call { s with writes := s.writes ++ [event] }

def setPolicy (path : String) (acl : Acl) : HostCall Staged Unit := fun s =>
  match s.applied.lookup path with
  | some _ => (.ok (), s.setApplied path [acl])
  | none => Staged.within (Repository.host.setPolicy path acl) s

/-- Removes the first list that is the same; one that is not held in front goes to the
repository. -/
def removePolicy (path : String) (acl : Acl) : HostCall Staged Unit := fun s =>
  match s.applied.lookup path with
  | some lists =>
    if lists.any acl.same then
      (.ok (), s.setApplied path (lists.eraseP acl.same))
    else
      Staged.within (Repository.host.removePolicy path acl) s
  | none => Staged.within (Repository.host.removePolicy path acl) s

def host (s : Script) : Host Staged where
  root := s.root
  parent path := s.guarded (.parent path) <|
    if s.detached.contains path then pure none else Staged.within (Repository.host.parent path)
  children path := s.guarded (.children path) <| Staged.within (Repository.host.children path)
  kind path := s.guarded (.kind path) <| Staged.within (Repository.host.kind path)
  applicable path := s.guarded (.applicable path) <|
    if s.hidden then
      pure []
    else
      match s.applicable.lookup path with
      | some lists => pure lists
      | none => Staged.within (Repository.host.applicable path)
  applied path := s.guarded (.applied path) <|
    if s.hidden then
      pure []
    else fun staged =>
      match staged.applied.lookup path with
      | some lists => (.ok lists, staged)
      | none => Staged.within (Repository.host.applied path) staged
  setPolicy path acl := s.guarded (.setPolicy path) <|
    recorded (.setPolicy path) (setPolicy path acl)
  removePolicy path acl := s.guarded (.removePolicy path) <|
    recorded (.removePolicy path) (removePolicy path acl)
  privilege name := s.guarded (.privilege name) <| Staged.within (Repository.host.privilege name)

/-- Carries out a request on the staged repository, whose nodes bound every walk. -/
def perform (s : Script) (settings : Settings) (request : Request) (staged : Staged) :
    Option (Except AccessError Bool × Staged) :=
  (Engine.mk s.host settings).perform staged.repository.size request staged

end Script
end AclTree
