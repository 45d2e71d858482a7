/-
How the library's types are written as JSON and read back. What is absent or
empty by default is left out when written; `ofJson?` reads what `toJson`
writes and, beyond that, records given as arrays and fields left to their
defaults.
-/
import AclTree.Acl
import AclTree.Fixture
import AclTree.Json
import AclTree.Settings

namespace AclTree

namespace Principal

def toJson (p : Principal) : Json := .string p.name

def ofJson? (j : Json) : Option Principal := j.string?.map Principal.mk

end Principal

namespace User

def toJson (u : User) : Json := .object [("username", .string u.username)]

def ofJson? (j : Json) : Option User := do
  let field ← j.record? ["username"]
  pure ⟨← Json.required Json.string? (field "username")⟩

end User

namespace Group

def toJson (g : Group) : Json :=
  Json.present [("group", some (.string g.group)), ("title", g.title.map .string)]

def ofJson? (j : Json) : Option Group := do
  let field ← j.record? ["group", "title"]
  pure ⟨← Json.required Json.string? (field "group"), ← Json.optional Json.string? (field "title")⟩

end Group

namespace Identity

/-- An identity is given by its name, or as a user or a group. -/
def ofJson? (j : Json) : Option Identity :=
  match j with
  | .string name => some (.named name)
  | _ => (User.ofJson? j).map user <|> (Group.ofJson? j).map group

end Identity

namespace Privilege

mutual

def toJson : Privilege → Json
  | simple name => .object [("name", .string name)]
  | aggregate name parts => .object [("aggregates", .array (allToJson parts)), ("name", .string name)]

def allToJson : List Privilege → List Json
  | [] => []
  | p :: rest => p.toJson :: allToJson rest

end

/-- A simple privilege, or an aggregate if constituents are given. -/
def make (name : String) : Option (List Privilege) → Privilege
  | none => simple name
  | some parts => aggregate name parts

mutual

def ofJson? : Json → Option Privilege
  | .object members => do
    guard (Json.distinct ["name", "aggregates"] members)
    let name ← Json.required Json.string? (members.lookup "name")
    (aggregates? members).map (make name)
  | .array [name] => name.string?.map simple
  | .array [name, parts] => do
    let name ← name.string?
    (constituents? parts).map (make name)
  | _ => none

/-- The constituents in the member that holds them; there are none without it. -/
def aggregates? : List (String × Json) → Option (Option (List Privilege))
  | [] => some none
  | (key, value) :: rest => if key = "aggregates" then constituents? value else aggregates? rest

def constituents? : Json → Option (Option (List Privilege))
  | .null => some none
  | .array items => (allOfJson? items).map some
  | _ => none

def allOfJson? : List Json → Option (List Privilege)
  | [] => some []
  | j :: rest => do
    let p ← ofJson? j
    let others ← allOfJson? rest
    pure (p :: others)

end

end Privilege

namespace Entry

def toJson (e : Entry) : Json :=
  .object [("principal", e.principal.toJson),
    ("privileges", .array (Privilege.allToJson e.privileges))]

def ofJson? (j : Json) : Option Entry := do
  let field ← j.record? ["principal", "privileges"]
  pure ⟨← Json.required Principal.ofJson? (field "principal"),
    ← Json.required (Json.list? Privilege.ofJson?) (field "privileges")⟩

end Entry

namespace Acl

def toJson (acl : Acl) : Json := .object [("entries", .array (acl.entries.map Entry.toJson))]

def ofJson? (j : Json) : Option Acl := do
  let field ← j.record? ["entries"]
  pure ⟨← Json.required (Json.list? Entry.ofJson?) (field "entries")⟩

end Acl

namespace Settings

def toJson (s : Settings) : Json :=
  .object [("admin_principal", .string s.admin), ("all_privilege", .string s.allPrivilege),
    ("enforce_consistency", .bool s.enforce),
    ("modify_access_control_privilege", .string s.modifyPrivilege)]

def ofJson? (j : Json) : Option Settings := do
  let field ← j.record?
    ["admin_principal", "all_privilege", "modify_access_control_privilege", "enforce_consistency"]
  let fallback : Settings := {}
  pure ⟨← Json.defaulted Json.string? fallback.admin (field "admin_principal"),
    ← Json.defaulted Json.string? fallback.allPrivilege (field "all_privilege"),
    ← Json.defaulted Json.string? fallback.modifyPrivilege (field "modify_access_control_privilege"),
    ← Json.defaulted Json.bool? fallback.enforce (field "enforce_consistency")⟩

end Settings

namespace PrivilegeDefinition

def toJson (d : PrivilegeDefinition) : Json :=
  Json.present [("aggregates", d.aggregates.map Json.strings), ("name", some (.string d.name))]

def ofJson? (j : Json) : Option PrivilegeDefinition := do
  let field ← j.record? ["name", "aggregates"]
  pure ⟨← Json.required Json.string? (field "name"),
    ← Json.optional (Json.list? Json.string?) (field "aggregates")⟩

end PrivilegeDefinition

namespace EntryDefinition

def toJson (d : EntryDefinition) : Json :=
  .object [("principal", .string d.principal), ("privileges", Json.strings d.privileges)]

def ofJson? (j : Json) : Option EntryDefinition := do
  let field ← j.record? ["principal", "privileges"]
  pure ⟨← Json.required Json.string? (field "principal"),
    ← Json.required (Json.list? Json.string?) (field "privileges")⟩

end EntryDefinition

namespace NodeDefinition

def toJson (d : NodeDefinition) : Json :=
  Json.present [
    ("acl", if d.acl.isEmpty then none else some (.array (d.acl.map EntryDefinition.toJson))),
    ("path", some (.string d.path)), ("type", some (.string d.kind))]

def ofJson? (j : Json) : Option NodeDefinition := do
  let field ← j.record? ["path", "type", "acl"]
  pure ⟨← Json.required Json.string? (field "path"), ← Json.required Json.string? (field "type"),
    ← Json.defaulted (Json.list? EntryDefinition.ofJson?) [] (field "acl")⟩

end NodeDefinition

namespace Fixture

def toJson (f : Fixture) : Json :=
  .object [("nodes", .array (f.nodes.map NodeDefinition.toJson)),
    ("privileges", .array (f.privileges.map PrivilegeDefinition.toJson))]

def ofJson? (j : Json) : Option Fixture := do
  let field ← j.record? ["privileges", "nodes"]
  pure ⟨← Json.defaulted (Json.list? PrivilegeDefinition.ofJson?) [] (field "privileges"),
    ← Json.defaulted (Json.list? NodeDefinition.ofJson?) [] (field "nodes")⟩

end Fixture
end AclTree
