/-
What can be wrong with settings, in the document that holds them or in what
overrides them.
-/
import AclTree.File
import AclTree.Text.Quoted
import AclTree.Yaml.Error

namespace AclTree

inductive SettingsError where
  | unreadable (path : String) (cause : FileError)
  | malformed (cause : Yaml.Error)
  /-- The document configures something else. -/
  | foreignDocument (id : String)
  | emptyProvider
  /-- A name consists of white space alone. -/
  | blankName (key : String)
  | badFlag (key value : String)
  /-- A fault that a caller has words for. -/
  | other (reason : String)
  deriving DecidableEq

namespace SettingsError

def reason : SettingsError → String
  | unreadable path cause => "Failed to read " ++ Text.quote path ++ ": " ++ cause.message
  | malformed cause => "Failed to parse YAML: " ++ cause.message
  | foreignDocument id => "Expected configuration id 'authz', found '" ++ id ++ "'"
  | emptyProvider => "Configuration provider cannot be empty"
  | blankName key => "'" ++ key ++ "' cannot be empty"
  | badFlag key value => "Invalid boolean for " ++ key ++ ": " ++ value
  | other reason => reason

def message (e : SettingsError) : String := "Configuration error: " ++ e.reason

end SettingsError
end AclTree
