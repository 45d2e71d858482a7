/-
Settings overridden by variables, and the check that no name in them is blank.
A flag that cannot be read is told before any blank name.
-/
import AclTree.Settings
import AclTree.Settings.Error
import AclTree.Text.Blank

namespace AclTree.Settings

/-- The names in the settings, by their keys. -/
def names (s : Settings) : List (String × String) :=
  [("admin_principal", s.admin), ("all_privilege", s.allPrivilege),
    ("modify_access_control_privilege", s.modifyPrivilege)]

/-- Refuses the first name that is blank. -/
def validate (s : Settings) : Except SettingsError Unit :=
  match s.names.find? (Text.isBlankText ·.2) with
  | some (key, _) => .error (.blankName key)
  | none => .ok ()

/-- A text without white space around it and with the capitals of ASCII made small. -/
def flagText (text : String) : String :=
  String.ofList ((Text.trim text).toList.map Char.toLower)

/-- The flag that a text says, in one of a few words. -/
def readFlag (key text : String) : Except SettingsError Bool :=
  if ["1", "true", "yes", "on"].contains (flagText text) then
    .ok true
  else if ["0", "false", "no", "off"].contains (flagText text) then
    .ok false
  else
    .error (.badFlag key (flagText text))

/-- The variables that override settings. -/
def adminKey : String := "AUTHZ_ADMIN_PRINCIPAL"

def allPrivilegeKey : String := "AUTHZ_ALL_PRIVILEGE"

def modifyPrivilegeKey : String := "AUTHZ_MODIFY_ACL_PRIVILEGE"

def enforceKey : String := "AUTHZ_ENFORCE_CONSISTENCY"

/-- The settings with the values of those variables that are set, and checked. -/
def override (s : Settings) (lookup : String → Option String) : Except SettingsError Settings := do
  let enforce ←
    match lookup enforceKey with
    | some text => readFlag enforceKey text
    | none => pure s.enforce
  let overridden : Settings :=
    { admin := (lookup adminKey).getD s.admin,
      allPrivilege := (lookup allPrivilegeKey).getD s.allPrivilege,
      modifyPrivilege := (lookup modifyPrivilegeKey).getD s.modifyPrivilege,
      enforce }
  overridden.validate
  pure overridden

end AclTree.Settings
