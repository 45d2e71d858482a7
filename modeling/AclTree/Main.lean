/-
The command line program: gives a run the system around it, and writes what
the run says.
-/
import AclTree.Cli.Clock
import AclTree.Cli.Run
import Std.Time.DateTime

namespace AclTree.Cli

/-- What the system says of a file that could not be read. A number of an error may be negated. -/
def fileError : IO.Error → FileError
  | .noFileOrDirectory .. => .notFound
  | .inappropriateType _ code details =>
    if code = 20 ∨ code = 0 - 20 then .notDirectory
    else if code = 21 ∨ code = 0 - 21 then .isDirectory
    else .other details
  | .invalidArgument _ code details =>
    if code = 36 ∨ code = 0 - 36 then .nameTooLong else .other details
  | e => .other (toString e)

def readFile (path : String) : IO (Except FileError String) := do
  try
    pure (.ok (← IO.FS.readFile path))
  catch e =>
    pure (.error (fileError e))

def system : IO (System IO) := do
  let time := (← Std.Time.Timestamp.now).toNanosecondsSinceUnixEpoch.toInt.toNat
  pure { read := readFile, value? := fun name => IO.getEnv name,
         directory := (← IO.currentDir).toString,
         now := Clock.rfc3339 (time / 1000000000) (time % 1000000000) }

end AclTree.Cli

open AclTree.Cli in
/-- Runs with the arguments given, and exits with the status of the outcome. -/
def main (arguments : List String) : IO UInt32 := do
  let outcome ← run (← system) arguments
  match outcome with
  | .refused => IO.eprint usage
  | .done output => IO.print output
  | .failed output failure =>
    IO.print output
    IO.eprintln failure.render
  pure outcome.status.toUInt32
