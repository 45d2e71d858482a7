/-
Principals, and the ways in which a host may name an identity. Lists hold
plain principals only, so every identity is made canonical first: those with
one name are one principal.
-/

namespace AclTree

/-- Who holds privileges: a name and nothing else. -/
structure Principal where
  name : String
  deriving DecidableEq

/-- A user, known by the name used to log in. -/
structure User where
  username : String
  deriving DecidableEq

/-- A group of users; its title is for people to read and no part of its identity. -/
structure Group where
  group : String
  title : Option String := none
  deriving DecidableEq

/-- An identity as a caller may give it. -/
inductive Identity where
  | named (name : String)
  | user (user : User)
  | group (group : Group)
  deriving DecidableEq

namespace Identity

def name : Identity → String
  | named name => name
  | user u => u.username
  | group g => g.group

/-- The principal that stands for the identity in every list. -/
def canonical (identity : Identity) : Principal := ⟨identity.name⟩

end Identity
end AclTree
