/-
How a command that failed says so: what went wrong, and under it the failures
that led there, numbered if there are several.
-/

namespace AclTree.Cli

structure Failure where
  message : String
  /-- What lies behind it, the nearest first. -/
  causes : List String := []
  deriving DecidableEq

namespace Failure

/-- A text whose lines after the first are indented. -/
def indented (width : Nat) (text : String) : String :=
  String.ofList (text.toList.flatMap fun c => if c = '\n' then c :: List.replicate width ' ' else [c])

/-- A cause with its number, written to the right in five columns. -/
def numbered (cause : String × Nat) : String :=
  "\n" ++ String.ofList (List.leftpad 5 ' ' (toString cause.2).toList) ++ ": " ++ indented 7 cause.1

/-- The whole text of a failure. -/
def render (f : Failure) : String :=
  "Error: " ++ f.message ++
    match f.causes with
    | [] => ""
    | [cause] => "\n\nCaused by:\n    " ++ indented 4 cause
    | causes => "\n\nCaused by:" ++ String.join (causes.zipIdx.map numbered)

end Failure
end AclTree.Cli
