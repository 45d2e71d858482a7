/-
Settings in a configuration document: a YAML mapping that tells by its `id`
that it is for this program, and holds the settings under `values`. What is
missing there keeps its default.
-/
import AclTree.Settings.Override
import AclTree.Yaml.Reading

namespace AclTree.Settings

open Yaml

/-- The part of a configuration document that matters here. -/
structure Document where
  id : String
  provider : String
  values : Settings

def readValues (v : Value) : Reading Settings := do
  let field ← Reading.record
    ["admin_principal", "all_privilege", "modify_access_control_privilege", "enforce_consistency"] v
  let fallback : Settings := {}
  let admin ← Reading.defaulted Reading.text fallback.admin "admin_principal" field
  let allPrivilege ← Reading.defaulted Reading.text fallback.allPrivilege "all_privilege" field
  let modifyPrivilege ← Reading.defaulted Reading.text fallback.modifyPrivilege
    "modify_access_control_privilege" field
  let enforce ← Reading.defaulted Reading.flag fallback.enforce "enforce_consistency" field
  pure { admin, allPrivilege, modifyPrivilege, enforce }

def readDocument (v : Value) : Reading Document := do
  let field ← Reading.record ["id", "provider", "values"] v
  let id ← Reading.required Reading.text "id" field
  let provider ← Reading.required Reading.text "provider" field
  let values ← Reading.defaulted readValues {} "values" field
  pure ⟨id, provider, values⟩

/-- The settings of a document, which has to be this program's and to name a provider. -/
def ofDocument (d : Document) : Except SettingsError Settings :=
  if d.id ≠ "authz" then
    .error (.foreignDocument d.id)
  else if d.provider = "" then
    .error .emptyProvider
  else
    d.values.validate.map fun _ => d.values

/-- The settings in the text of a configuration document. -/
def ofText (text : String) : Except SettingsError Settings := do
  let document ← (Reading.run readDocument text).mapError SettingsError.malformed
  ofDocument document

end AclTree.Settings
