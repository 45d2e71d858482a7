/-
Fixtures in YAML: a mapping with a list of privileges and a list of nodes,
either of which may be missing.
-/
import AclTree.File
import AclTree.Fixture
import AclTree.Yaml.Reading

namespace AclTree

/-- Why a text gave no fixture. -/
inductive FixtureError where
  | unreadable (cause : FileError)
  | malformed (cause : Yaml.Error)
  deriving DecidableEq

namespace FixtureError

def message : FixtureError → String
  | unreadable cause => "IO error: " ++ cause.message
  | malformed cause => "YAML parsing error: " ++ cause.message

/-- The failures behind this one. -/
def causes : FixtureError → List String
  | unreadable cause => [cause.message]
  | malformed cause => [cause.message]

end FixtureError

namespace Fixture

open Yaml

def readPrivilege (v : Value) : Reading PrivilegeDefinition := do
  let field ← Reading.record ["name", "aggregates"] v
  let name ← Reading.required Reading.text "name" field
  let aggregates ←
    Reading.defaulted (Reading.optional (Reading.list Reading.text)) none "aggregates" field
  pure { name, aggregates }

def readEntry (v : Value) : Reading EntryDefinition := do
  let field ← Reading.record ["principal", "privileges"] v
  let principal ← Reading.required Reading.text "principal" field
  let privileges ← Reading.required (Reading.list Reading.text) "privileges" field
  pure { principal, privileges }

def readNode (v : Value) : Reading NodeDefinition := do
  let field ← Reading.record ["path", "type", "acl"] v
  let path ← Reading.required Reading.text "path" field
  let kind ← Reading.required Reading.text "type" field
  let acl ← Reading.defaulted (Reading.list readEntry) [] "acl" field
  pure { path, kind, acl }

def readFixture (v : Value) : Reading Fixture := do
  let field ← Reading.record ["privileges", "nodes"] v
  let privileges ← Reading.defaulted (Reading.list readPrivilege) [] "privileges" field
  let nodes ← Reading.defaulted (Reading.list readNode) [] "nodes" field
  pure { privileges, nodes }

/-- The fixture that a text describes. -/
def ofText (text : String) : Except FixtureError Fixture :=
  (Reading.run readFixture text).mapError FixtureError.malformed

end Fixture
end AclTree
