/-
The library's types in JSON. Each is written so that it reads back as it was, at
every depth: a simple privilege stays apart from an aggregate of none, and a
field that is left out is one that reads as its default. All of them but
principals, which are plain texts, are records (`Json.Record`), the descriptors
of privileges too, whose reader goes through the members by itself
(`Privilege.ofJson?_eq_record`).
-/
import AclTree.Json.Coding
import AclTree.Proofs.Json.Records
import Mathlib.Data.Option.Basic

namespace AclTree

open Json (Record record_of_fields record_of_required)

/-! ## Identities -/

theorem Principal.lawful : Json.Lawful Principal.toJson Principal.ofJson? :=
  Json.lawful fun _ => rfl

theorem User.record : Record ["username"] [] User.toJson User.ofJson? := by
  refine record_of_required _ (by decide) (fun _ => rfl) ?_ fun _ => rfl
  intro f g h
  simp [h]

theorem Group.ofJson?_toJson (g : Group) : Group.ofJson? g.toJson = some g := by
  obtain ⟨group, _ | title⟩ := g <;> rfl

theorem Group.record :
    Record ["group", "title"] [("title", .null)] Group.toJson Group.ofJson? := by
  refine record_of_fields _ (by decide) (fun _ => rfl) ?fields
    (List.forall_mem_singleton.2 ?title) Group.ofJson?_toJson
  case fields =>
    intro f g h
    simp [h]
  case title =>
    intro f g hf hg h
    simp [hf, hg, h, Json.optional]

/-! ## Privileges -/

namespace Privilege

theorem allOfJson?_eq_mapM (items : List Json) : allOfJson? items = items.mapM ofJson? := by
  induction items with
  | nil => rfl
  | cons j rest ih => rw [allOfJson?, List.mapM_cons, ih]

theorem constituents?_eq (j : Json) :
    constituents? j = Json.optional (Json.list? ofJson?) (some j) := by
  cases j with
  | array items => rw [constituents?, allOfJson?_eq_mapM]; rfl
  | _ => rfl

theorem aggregates?_eq (members : List (String × Json)) :
    aggregates? members =
      Json.optional (Json.list? ofJson?) (members.lookup "aggregates") := by
  induction members with
  | nil => rfl
  | cons m rest ih =>
    obtain ⟨key, value⟩ := m
    rw [aggregates?, List.lookup_cons]
    by_cases hkey : key = "aggregates"
    · subst hkey
      exact constituents?_eq value
    · have hne : ("aggregates" == key) = false := beq_eq_false_iff_ne.2 (Ne.symm hkey)
      rw [if_neg hkey, ih, hne]

/-- A descriptor of its fields. -/
def ofFields? (field : String → Option Json) : Option Privilege := do
  let name ← Json.required Json.string? (field "name")
  (Json.optional (Json.list? ofJson?) (field "aggregates")).map (make name)

/-- The reader of descriptors, which goes through the members by itself, reads a record. -/
theorem ofJson?_eq_record (j : Json) :
    ofJson? j = (j.record? ["name", "aggregates"]).bind ofFields? := by
  cases j with
  | object members =>
    rw [ofJson?, aggregates?_eq]
    cases hd : Json.distinct ["name", "aggregates"] members with
    | false => rw [Json.record?_object_of_repeated hd]; rfl
    | true => rw [Json.record?_object hd]; rfl
  | array items =>
    rcases items with _ | ⟨name, _ | ⟨parts, _ | ⟨more, rest⟩⟩⟩
    · rfl
    · cases name <;> rfl
    · rw [ofJson?, constituents?_eq]
      rfl
    · rfl
  | _ => rfl

theorem allToJson_eq_map (ps : List Privilege) : allToJson ps = ps.map toJson := by
  induction ps with
  | nil => rfl
  | cons p rest ih => rw [allToJson, ih, List.map_cons]

mutual

theorem ofJson?_toJson : ∀ p : Privilege, ofJson? p.toJson = some p
  | simple name => rfl
  | aggregate name parts => by
    have hparts : Json.list? ofJson? (.array (allToJson parts)) = some parts := by
      change (allToJson parts).mapM ofJson? = some parts
      rw [← allOfJson?_eq_mapM, allOfJson?_allToJson parts]
    rw [ofJson?_eq_record, toJson, Json.record?_object rfl]
    simp [ofFields?, List.lookup_cons, Json.required, Json.string?, Json.optional, hparts, make]

theorem allOfJson?_allToJson : ∀ ps : List Privilege, allOfJson? (allToJson ps) = some ps
  | [] => rfl
  | p :: rest => by
    rw [allToJson, allOfJson?, ofJson?_toJson p, allOfJson?_allToJson rest]
    rfl

end

theorem record :
    Record ["name", "aggregates"] [("aggregates", .null)] Privilege.toJson Privilege.ofJson? := by
  refine record_of_fields _ (by decide) ofJson?_eq_record ?fields
    (List.forall_mem_singleton.2 ?aggregates) ofJson?_toJson
  case fields =>
    intro f g h
    simp [ofFields?, h]
  case aggregates =>
    intro f g hf hg h
    simp [ofFields?, hf, hg, h, Json.optional]

end Privilege

/-! ## Lists -/

theorem Entry.ofJson?_toJson (e : Entry) : Entry.ofJson? e.toJson = some e := by
  have hprivileges := Json.list?_array Privilege.ofJson?_toJson e.privileges
  unfold Entry.toJson Entry.ofJson?
  rw [Privilege.allToJson_eq_map, Json.record?_object rfl]
  simp [List.lookup_cons, Json.required, hprivileges, Principal.lawful.reads]

theorem Entry.record : Record ["principal", "privileges"] [] Entry.toJson Entry.ofJson? := by
  refine record_of_required _ (by decide) (fun _ => rfl) ?_ Entry.ofJson?_toJson
  intro f g h
  simp [h]

theorem Acl.ofJson?_toJson (acl : Acl) : Acl.ofJson? acl.toJson = some acl := by
  have hentries := Json.list?_array Entry.ofJson?_toJson acl.entries
  unfold Acl.toJson Acl.ofJson?
  rw [Json.record?_object rfl]
  simp [Json.required, hentries]

theorem Acl.record : Record ["entries"] [] Acl.toJson Acl.ofJson? := by
  refine record_of_required _ (by decide) (fun _ => rfl) ?_ Acl.ofJson?_toJson
  intro f g h
  simp [h]

/-! ## Settings -/

/-- What the fields of settings hold that are left out. -/
def Settings.defaults : List (String × Json) :=
  let fallback : Settings := {}
  [("admin_principal", .string fallback.admin), ("all_privilege", .string fallback.allPrivilege),
    ("modify_access_control_privilege", .string fallback.modifyPrivilege),
    ("enforce_consistency", .bool fallback.enforce)]

theorem Settings.record :
    Record ["admin_principal", "all_privilege", "modify_access_control_privilege",
      "enforce_consistency"] Settings.defaults Settings.toJson Settings.ofJson? := by
  refine record_of_fields _ (by decide) (fun _ => rfl) ?fields ?defaults fun _ => rfl
  case fields =>
    intro f g h
    simp [h]
  case defaults =>
    intro default hd f g hf hg h
    simp only [Settings.defaults, List.mem_cons, List.not_mem_nil, or_false] at hd
    rcases hd with rfl | rfl | rfl | rfl <;>
      simp [hf, hg, h, Json.defaulted, Json.string?, Json.bool?]

/-! ## Fixtures -/

theorem PrivilegeDefinition.ofJson?_toJson (d : PrivilegeDefinition) :
    PrivilegeDefinition.ofJson? d.toJson = some d := by
  obtain ⟨name, _ | aggregates⟩ := d
  · rfl
  · have hwritten : PrivilegeDefinition.toJson ⟨name, some aggregates⟩ =
        .object [("aggregates", Json.strings aggregates), ("name", .string name)] := rfl
    rw [hwritten, PrivilegeDefinition.ofJson?, Json.record?_object rfl]
    simp [List.lookup_cons, Json.required, Json.string?, Json.optional_strings]

theorem PrivilegeDefinition.record : Record ["name", "aggregates"] [("aggregates", .null)]
    PrivilegeDefinition.toJson PrivilegeDefinition.ofJson? := by
  refine record_of_fields _ (by decide) (fun _ => rfl) ?fields
    (List.forall_mem_singleton.2 ?aggregates) PrivilegeDefinition.ofJson?_toJson
  case fields =>
    intro f g h
    simp [h]
  case aggregates =>
    intro f g hf hg h
    simp [hf, hg, h, Json.optional]

theorem EntryDefinition.ofJson?_toJson (d : EntryDefinition) :
    EntryDefinition.ofJson? d.toJson = some d := by
  unfold EntryDefinition.toJson EntryDefinition.ofJson?
  rw [Json.record?_object rfl]
  simp [List.lookup_cons, Json.required, Json.string?]

theorem EntryDefinition.record :
    Record ["principal", "privileges"] [] EntryDefinition.toJson EntryDefinition.ofJson? := by
  refine record_of_required _ (by decide) (fun _ => rfl) ?_ EntryDefinition.ofJson?_toJson
  intro f g h
  simp [h]

theorem NodeDefinition.ofJson?_toJson (d : NodeDefinition) :
    NodeDefinition.ofJson? d.toJson = some d := by
  obtain ⟨path, kind, _ | ⟨e, acl⟩⟩ := d
  · rfl
  · have hacl := Json.list?_array EntryDefinition.ofJson?_toJson (e :: acl)
    have hwritten : NodeDefinition.toJson ⟨path, kind, e :: acl⟩ =
        .object [("acl", .array ((e :: acl).map EntryDefinition.toJson)), ("path", .string path),
          ("type", .string kind)] := rfl
    rw [hwritten, NodeDefinition.ofJson?, Json.record?_object rfl]
    rw [List.map_cons] at hacl
    simp [List.lookup_cons, Json.required, Json.string?, Json.defaulted, hacl]

theorem NodeDefinition.record : Record ["path", "type", "acl"] [("acl", .array [])]
    NodeDefinition.toJson NodeDefinition.ofJson? := by
  refine record_of_fields _ (by decide) (fun _ => rfl) ?fields
    (List.forall_mem_singleton.2 ?acl) NodeDefinition.ofJson?_toJson
  case fields =>
    intro f g h
    simp [h]
  case acl =>
    intro f g hf hg h
    simp [hf, hg, h, Json.defaulted]

theorem Fixture.ofJson?_toJson (f : Fixture) : Fixture.ofJson? f.toJson = some f := by
  have hprivileges := Json.list?_array PrivilegeDefinition.ofJson?_toJson f.privileges
  have hnodes := Json.list?_array NodeDefinition.ofJson?_toJson f.nodes
  unfold Fixture.toJson Fixture.ofJson?
  rw [Json.record?_object rfl]
  simp [List.lookup_cons, Json.defaulted, hprivileges, hnodes]

theorem Fixture.record : Record ["privileges", "nodes"]
    [("privileges", .array []), ("nodes", .array [])] Fixture.toJson Fixture.ofJson? := by
  refine record_of_fields _ (by decide) (fun _ => rfl) ?fields ?defaults Fixture.ofJson?_toJson
  case fields =>
    intro f g h
    simp [h]
  case defaults =>
    intro default hd f g hf hg h
    simp only [List.mem_cons, List.not_mem_nil, or_false] at hd
    rcases hd with rfl | rfl <;> simp [hf, hg, h, Json.defaulted]

/-! ## All types -/

/-- The laws of the types that are written as JSON. What a value reads back as is the value itself, not
one that only goes by the same names. -/
structure Json.RoundTrips : Prop where
  principal : Json.Lawful Principal.toJson Principal.ofJson?
  privilege : Record ["name", "aggregates"] [("aggregates", .null)]
    Privilege.toJson Privilege.ofJson?
  entry : Record ["principal", "privileges"] [] Entry.toJson Entry.ofJson?
  acl : Record ["entries"] [] Acl.toJson Acl.ofJson?
  settings : Record ["admin_principal", "all_privilege", "modify_access_control_privilege",
    "enforce_consistency"] Settings.defaults Settings.toJson Settings.ofJson?
  user : Record ["username"] [] User.toJson User.ofJson?
  group : Record ["group", "title"] [("title", .null)] Group.toJson Group.ofJson?
  privilegeDefinition : Record ["name", "aggregates"] [("aggregates", .null)]
    PrivilegeDefinition.toJson PrivilegeDefinition.ofJson?
  entryDefinition : Record ["principal", "privileges"] []
    EntryDefinition.toJson EntryDefinition.ofJson?
  nodeDefinition : Record ["path", "type", "acl"] [("acl", .array [])]
    NodeDefinition.toJson NodeDefinition.ofJson?
  fixture : Record ["privileges", "nodes"] [("privileges", .array []), ("nodes", .array [])]
    Fixture.toJson Fixture.ofJson?

/-- **Round trips**: what is written of a value reads as that value, for every type, and so does what is
written of a value that was read from anything: from an object with members that are not known, from an
array of the fields, from less than all fields. These are read as the object of the fields that are
known, with their defaults for those that are missing. -/
theorem Json.round_trips : Json.RoundTrips where
  principal := Principal.lawful
  privilege := Privilege.record
  entry := Entry.record
  acl := Acl.record
  settings := Settings.record
  user := User.record
  group := Group.record
  privilegeDefinition := PrivilegeDefinition.record
  entryDefinition := EntryDefinition.record
  nodeDefinition := NodeDefinition.record
  fixture := Fixture.record

/-- A privilege given by an array, with a constituent that has an unknown member and null for its own
constituents, and with one that is an aggregate of none. -/
theorem Json.round_trips_nested_privilege : ∃ j : Json,
    j = .array [.string "w", .array [
      .object [("x", .nat 1), ("name", .string "r"), ("aggregates", .null)],
      .array [.string "s", .array []]]] ∧
    Privilege.ofJson? j = some (.aggregate "w" [.simple "r", .aggregate "s" []]) ∧
    Privilege.ofJson? (Privilege.aggregate "w" [.simple "r", .aggregate "s" []]).toJson =
      some (.aggregate "w" [.simple "r", .aggregate "s" []]) ∧
    Privilege.ofJson? j = Privilege.ofJson? (.object [("name", .string "w"), ("aggregates",
      .array [.object [("x", .nat 1), ("name", .string "r"), ("aggregates", .null)],
        .array [.string "s", .array []]])]) := by
  have hread : Privilege.ofJson? (.array [.string "w", .array [
      .object [("x", .nat 1), ("name", .string "r"), ("aggregates", .null)],
      .array [.string "s", .array []]]]) =
      some (.aggregate "w" [.simple "r", .aggregate "s" []]) := rfl
  exact ⟨_, rfl, hread, Json.round_trips.privilege.settles _ _ hread,
    Json.round_trips.privilege.positional _ (Nat.le_refl 2)⟩

end AclTree
