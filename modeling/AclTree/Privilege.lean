/-
Privileges: named capabilities, some of which stand for others. `implies`
tells whether holding one grants a name, directly or through its
constituents; `nested` lists every descriptor inside a descriptor.
-/

namespace AclTree

/-- A named capability: simple, or an aggregate of other privileges (of none, possibly). -/
inductive Privilege where
  | simple (name : String)
  | aggregate (name : String) (constituents : List Privilege)

namespace Privilege

def name : Privilege → String
  | simple name => name
  | aggregate name _ => name

def isAggregate : Privilege → Bool
  | simple _ => false
  | aggregate _ _ => true

/-- The direct constituents; a simple privilege has none. -/
def constituents : Privilege → List Privilege
  | simple _ => []
  | aggregate _ parts => parts

/-- Two descriptors are the same capability if they have one name, whatever they consist of. -/
def same (p q : Privilege) : Bool := p.name == q.name

mutual

/-- Holding the privilege grants `wanted`: it has that name, or a constituent grants it. -/
def implies : Privilege → String → Bool
  | simple name, wanted => name == wanted
  | aggregate name parts, wanted => name == wanted || impliesAny parts wanted

/-- One of the privileges grants `wanted`. -/
def impliesAny : List Privilege → String → Bool
  | [], _ => false
  | p :: rest, wanted => p.implies wanted || impliesAny rest wanted

end

mutual

/-- The descriptor itself and all descriptors inside it, at every depth. -/
def nested : Privilege → List Privilege
  | simple name => [simple name]
  | aggregate name parts => aggregate name parts :: nestedAll parts

def nestedAll : List Privilege → List Privilege
  | [] => []
  | p :: rest => p.nested ++ nestedAll rest

end

/-- One of the privileges has the name. -/
def holds (privileges : List Privilege) (name : String) : Bool :=
  privileges.any (·.name == name)

/-- Adds at the end those of `more` whose names are not held yet, in order. -/
def merge (held more : List Privilege) : List Privilege :=
  more.foldl (fun held p => if holds held p.name then held else held ++ [p]) held

/-- Without the later ones of each name. -/
def dedup (privileges : List Privilege) : List Privilege := merge [] privileges

/-- The privileges whose names `removed` does not hold. -/
def without (privileges removed : List Privilege) : List Privilege :=
  privileges.filter fun p => !holds removed p.name

def names (privileges : List Privilege) : List String := privileges.map name

end Privilege
end AclTree
