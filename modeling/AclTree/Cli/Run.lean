/-
A run of the program, from its arguments to what it writes. Beside its
arguments a run depends on what the caller gives it of the system around:
files and variables by name, the working directory and the time.
-/
import AclTree.Cli.Environment
import AclTree.Cli.Report
import AclTree.Fixture.Document
import AclTree.Settings.Document

namespace AclTree.Cli

/-- How a run ends. -/
inductive Outcome where
  /-- The arguments made no sense. -/
  | refused
  | done (output : String)
  /-- Something failed, after what had been written before. -/
  | failed (output : String) (failure : Failure)

namespace Outcome

/-- The exit status. -/
def status : Outcome → Nat
  | done _ => 0
  | failed .. => 1
  | refused => 2

end Outcome

/-! ## Settings -/

/-- The settings in a file. -/
def settingsOf (path : String) (content : Except FileError String) : Except Failure Settings :=
  ((content.mapError (SettingsError.unreadable path)).bind Settings.ofText).mapError fun e =>
    ⟨"Failed to load settings from " ++ path, [e.message]⟩

/-- Settings with the overrides that the environment has for them. -/
def overridden (e : Environment) (s : Settings) : Except Failure Settings :=
  (s.override e.value?).mapError fun e => ⟨"Invalid access control settings override", [e.message]⟩

/-- The settings in force: those in the given file, or in the first file where they are looked for
that is there, or else the defaults; then overridden. -/
def settingsInForce (e : Environment) (found : Option (String × Except FileError String)) :
    Except Failure Settings := do
  match found with
  | some (path, content) => overridden e (← settingsOf path content)
  | none => overridden e {}

/-- The system around a run. -/
structure System (m : Type → Type) where
  read : String → m (Except FileError String)
  /-- The value of a variable, if it is set. -/
  value? : String → m (Option String)
  directory : String
  now : String

namespace System

variable {m : Type → Type} [Monad m] (s : System m)

/-- Those of the variables that are set, with their values. -/
def assigned (names : List String) : m (List (String × String)) :=
  names.filterMapM fun name => do pure ((← s.value? name).map (name, ·))

def environment : m Environment := do
  pure { assigned := ← s.assigned Environment.keys, directory := s.directory, now := s.now }

/-- The first of the paths that leads to a file, with what reading it gave. -/
def firstFile : List String → m (Option (String × Except FileError String))
  | [] => pure none
  | path :: rest => do
    match ← s.read path with
    | .error .notFound | .error .isDirectory | .error .notDirectory | .error .nameTooLong =>
      firstFile rest
    | content => pure (some (path, content))

/-- The file of variables counts only if settings are looked for. -/
def loadSettings (e : Environment) : Option String → m (Except Failure Settings)
  | some path => do pure (settingsInForce e (some (path, ← s.read path)))
  | none => do
    let e ← match ← s.read e.variableFile with
      | .ok text =>
        let definitions := VariableFile.ofText text
        let e := e.extend (← s.assigned (definitions.flatMap Definition.references))
        pure (e.define definitions)
      | .error _ => pure e
    pure (settingsInForce e (← s.firstFile e.settingsFiles))

end System

/-! ## Commands -/

/-- The repository that a fixture file describes. -/
def loadFixture (path : String) (content : Except FileError String) : Except Failure Repository := do
  let fixture ← ((content.mapError FixtureError.unreadable).bind Fixture.ofText).mapError fun e =>
    ⟨"Failed to read fixture " ++ path, e.message :: e.causes⟩
  fixture.load.mapError fun e => ⟨"Failed to load fixture " ++ path, [e.message]⟩

/-- The report on an operation, or the failure in its context. -/
def change (r : Repository) (s : Settings) (operation : Operation) (path context : String)
    (request : Request) : Except Failure Report :=
  match r.perform s request with
  | some (.ok changed, after) => .ok (.change operation path changed after.listing)
  | some (.error e, _) => .error ⟨context, e.message :: e.causes⟩
  | none => .error ⟨context, ["The nodes of the repository form no tree"]⟩

namespace Command

/-- What a command reports on a repository that was built from the named fixture. -/
def perform (r : Repository) (s : Settings) (fixture : String) : Command → Except Failure Report
  | listing none => .ok (.listing fixture r.listing)
  | listing (some bound) =>
    if r.contains bound then
      .ok (.listing fixture (r.listingWithin bound))
    else
      .error { message := "Node '" ++ bound ++ "' not found in fixture" }
  | grant path scope who names =>
    change r s .grant path ("Failed to grant privileges to '" ++ who.name ++ "'")
      (.grantNamed path scope who names)
  | revoke path scope who names =>
    change r s .revoke path ("Failed to revoke privileges from '" ++ who.name ++ "'")
      (.revokeNamed path scope who names)
  | clear path scope =>
    change r s .clear path ("Failed to clear policies from " ++ path) (.clear path scope)
  | check => .ok (.check s.modifyPrivilege (r.check s.modifyPrivilege))

end Command

namespace Invocation

/-- What the command of an invocation reports on its fixture, whose text is given. -/
def report (i : Invocation) (s : Settings) (content : Except FileError String) :
    Except Failure Report := do
  i.command.perform (← loadFixture i.fixture content) s i.fixture

end Invocation

/-- How a run ends that got as far as this report. -/
def conclude (format : Format) (now : String) : Except Failure Report → Outcome
  | .error failure => .failed "" failure
  | .ok report =>
    match report.failure? with
    | some failure => .failed (report.render format now) failure
    | none => .done (report.render format now)

/-- One run of the program. -/
def run {m : Type → Type} [Monad m] (s : System m) (arguments : List String) : m Outcome := do
  let e ← s.environment
  match Invocation.ofArguments arguments (e.value? Environment.fixtureKey) with
  | .error .refused => pure .refused
  | .error (.answered text) => pure (.done text)
  | .ok invocation =>
    match ← s.loadSettings e invocation.config with
    | .error failure => pure (.failed "" failure)
    | .ok settings =>
      let content ← s.read invocation.fixture
      pure (conclude invocation.format e.now (invocation.report settings content))

end AclTree.Cli
