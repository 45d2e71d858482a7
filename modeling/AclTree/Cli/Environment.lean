/-
What surrounds a run of the program: variables, the working directory and the
time; and where in it the settings are looked for.
-/
import AclTree.Cli.VariableFile
import AclTree.Settings.Override

namespace AclTree.Cli

structure Environment where
  /-- The variables that are set; of two with one name the first counts. -/
  assigned : List (String × String)
  directory : String
  now : String

namespace Environment

/-- The variable that names a fixture. -/
def fixtureKey : String := "AUTHZ_FIXTURE"

/-- The directory of the settings, and the two names of what the program runs in. -/
def configurationKey : String := "CONFIGURATION_PATH"

def environmentKey : String := "ENVIRONMENT"

def fallbackEnvironmentKey : String := "APP_ENV"

/-- Every variable that the program reads. -/
def keys : List String :=
  [fixtureKey, configurationKey, environmentKey, fallbackEnvironmentKey, Settings.adminKey,
    Settings.allPrivilegeKey, Settings.modifyPrivilegeKey, Settings.enforceKey]

def value? (e : Environment) (key : String) : Option String := e.assigned.lookup key

/-- Adds definitions, of which none overrides a variable that is set. -/
def extend (e : Environment) (definitions : List (String × String)) : Environment :=
  { e with assigned := e.assigned ++ definitions }

/-- Adds the definitions one after the other. None overrides a variable that is set, and the values
of those before it may stand in it. -/
def define (e : Environment) (definitions : List Definition) : Environment :=
  definitions.foldl (fun e d => e.extend [(d.name, d.evaluate e.value?)]) e

/-- A path below a directory, or the path itself if it is absolute. -/
def joinPath (directory path : String) : String :=
  if path.toList.head? = some '/' then path
  else if directory.toList.getLast?.all (· == '/') then directory ++ path
  else directory ++ "/" ++ path

/-- The file of variables in the working directory. -/
def variableFile (e : Environment) : String := joinPath e.directory ".env"

def configurationDirectory (e : Environment) : String :=
  joinPath e.directory ((e.value? configurationKey).getD "./config")

/-- What the program runs in, such as development or production. -/
def environmentName (e : Environment) : String :=
  ((e.value? environmentKey) <|> (e.value? fallbackEnvironmentKey)).getD "dev"

/-- Where settings are looked for: a file for what the program runs in, then the one for all. -/
def settingsFiles (e : Environment) : List String :=
  ["config.authz." ++ e.environmentName ++ ".yaml", "config.authz.yaml"].map
    (joinPath e.configurationDirectory)

end Environment
end AclTree.Cli
