/-
Access control lists: ordered entries, each one principal with the privileges
it holds. `Acl.add` and `Acl.take` are what granting and revoking do to a
list; both tell whether they changed it.
-/
import AclTree.Principal
import AclTree.Privilege

namespace AclTree

/-- One principal and the privileges it holds. -/
structure Entry where
  principal : Principal
  privileges : List Privilege

namespace Entry

/-- An entry without repeated privileges; the first of each name stays. -/
def of (who : Principal) (privileges : List Privilege) : Entry := ⟨who, Privilege.dedup privileges⟩

/-- Some privilege of the entry grants the name. -/
def grants (e : Entry) (wanted : String) : Bool := Privilege.impliesAny e.privileges wanted

def privilegeNames (e : Entry) : List String := Privilege.names e.privileges

/-- The same principal and the same privileges in the same order; privileges go by their names. -/
def same (e f : Entry) : Bool :=
  e.principal == f.principal && e.privilegeNames == f.privilegeNames

end Entry

/-- The entries of one node, in order. -/
structure Acl where
  entries : List Entry

namespace Acl

def empty : Acl := ⟨[]⟩

def isEmpty (acl : Acl) : Bool := acl.entries.isEmpty

def size (acl : Acl) : Nat := acl.entries.length

def principals (acl : Acl) : List String := acl.entries.map (·.principal.name)

/-- The lists agree entry by entry, as `Entry.same` has it. -/
def same (a b : Acl) : Bool :=
  a.entries.map (fun e => (e.principal, e.privilegeNames)) ==
    b.entries.map fun e => (e.principal, e.privilegeNames)

/-- The first entry of the principal with that name. -/
def entryFor (acl : Acl) (name : String) : Option Entry :=
  acl.entries.find? (·.principal.name == name)

/-- Applies `f` to the first entry of the principal. -/
def modifyFirst (who : Principal) (f : Entry → Entry) : List Entry → List Entry
  | [] => []
  | e :: rest => if e.principal = who then f e :: rest else e :: modifyFirst who f rest

/-- Gives the principal the privileges: merged into its first entry, or in a new entry at the end.
Tells whether the list changed; giving nothing, or what is held already, changes nothing. -/
def add (acl : Acl) (who : Principal) (privileges : List Privilege) : Acl × Bool :=
  if privileges.isEmpty then
    (acl, false)
  else
    match acl.entries.find? (·.principal == who) with
    | some held =>
      (⟨modifyFirst who (fun e => ⟨e.principal, Privilege.merge e.privileges privileges⟩)
          acl.entries⟩,
        privileges.any fun p => !Privilege.holds held.privileges p.name)
    | none => (⟨acl.entries ++ [Entry.of who privileges]⟩, true)

/-- Without the first entry that is the same as `e`. -/
def erase (acl : Acl) (e : Entry) : Acl := ⟨acl.entries.eraseP e.same⟩

/-- Adds an entry at the end, beside any that the principal has. -/
def push (acl : Acl) (e : Entry) : Acl := ⟨acl.entries ++ [e]⟩

/-- Some entry is the same as `e`. -/
def contains (acl : Acl) (e : Entry) : Bool := acl.entries.any e.same

/-- Takes the privileges from one entry of the list: what is left of it moves to the end, and it
is gone if nothing is left. -/
def reduce (removed : List Privilege) (acl : Acl) (e : Entry) : Acl :=
  let left := Privilege.without e.privileges removed
  if left.length = e.privileges.length then
    acl
  else if left.isEmpty then
    acl.erase e
  else
    (acl.erase e).push (Entry.of e.principal left)

/-- Takes the privileges from every entry of the principal, and tells whether one lost any. -/
def take (acl : Acl) (who : Principal) (privileges : List Privilege) : Acl × Bool :=
  let held := acl.entries.filter (·.principal == who)
  (held.foldl (reduce privileges) acl,
    held.any fun e => e.privileges.any fun p => Privilege.holds privileges p.name)

end Acl
end AclTree
