/-
Work that visits several nodes. How far a host's parents and children lead is
not known beforehand, so a walk is given a limit; it has no result if that is
too low. Any higher limit gives the same result as one that is high enough.
-/
import AclTree.Engine

namespace AclTree

/-- Work on a host that may not end within its limit (`none`). -/
abbrev Walk (σ α : Type) := ExceptT AccessError (StateT σ Option) α

namespace Walk

variable {σ α : Type}

/-- The limit was too low. -/
def unfinished : Walk σ α := fun _ => none

/-- Work on a single node, as a step of a walk. -/
def step (action : Action σ α) : Walk σ α := fun s => some (action s)

/-- Visits the nodes in order, all of them unless one fails, and tells whether something changed,
now or before. -/
def visitAll (visit : String → Walk σ Bool) (paths : List String) (changed : Bool) : Walk σ Bool :=
  paths.foldlM (fun changed path => do
    let now ← visit path
    pure (changed || now)) changed

end Walk
end AclTree
