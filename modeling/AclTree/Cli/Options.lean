/-
Options on a command line: `--name value`, `--name=value`, `-n value`,
`-nvalue`, `-n=value`, and several short ones after one dash. An option whose
values stand apart is judged when the next one begins, or at the end. Help has a
line on each, with `Flag.term` before what the option is for.
-/

namespace AclTree.Cli

/-- Why the reading of arguments ended early. -/
inductive Halt where
  /-- The arguments make no sense. -/
  | refused
  /-- An option asks for a text about the program itself. -/
  | answered (text : String)
  deriving DecidableEq

/-- What an option takes. -/
inductive Takes where
  | nothing
  | value
  /-- One value or more. -/
  | values
  /-- Ends the reading with a text. -/
  | answer (text : String)
  deriving DecidableEq

structure Flag where
  name : String
  short : Option Char := none
  takes : Takes
  /-- The value names a file and cannot be empty. -/
  isFile : Bool := false
  /-- What the option is for. -/
  about : String
  /-- Help shows that the option has to be there. -/
  needed : Bool := false

namespace Flag

/-- The option by its name, with what it takes. -/
def shape (f : Flag) : String :=
  let value := "<" ++ f.name.toUpper.replace "-" "_" ++ ">"
  "--" ++ f.name ++
    match f.takes with
    | .value => " " ++ value
    | .values => " " ++ value ++ "..."
    | _ => ""

/-- The same behind the short name, or behind the space for one. -/
def term (f : Flag) : String := (f.short.elim "    " fun c => "-" ++ c.toString ++ ", ") ++ f.shape

end Flag

/-- The options read completely, with their values, as often as they occurred. -/
abbrev Taken := List (String × List String)

namespace Taken

def has (t : Taken) (name : String) : Bool := t.any (·.1 == name)

def value? (t : Taken) (name : String) : Option String := (t.lookup name).bind List.head?

/-- The values of all occurrences together. -/
def values (t : Taken) (name : String) : List String := (t.filter (·.1 == name)).flatMap (·.2)

/-- Takes one more occurrence. Only an option with several values may occur twice. -/
def record (t : Taken) (flag : Flag) (values : List String) : Except Halt Taken :=
  if flag.takes ≠ .values ∧ t.has flag.name then .error .refused
  else if flag.takes ≠ .nothing ∧ values = [] then .error .refused
  else if flag.isFile ∧ "" ∈ values then .error .refused
  else .ok (t ++ [(flag.name, values)])

end Taken

/-- The reading so far: what has been read completely, and the last option with the values it has
got, if they stand apart from it. -/
structure Progress where
  taken : Taken := []
  last : Option (Flag × List String) := none

namespace Progress

/-- The next word is a value of the last option, unless it looks like an option. -/
def wantsValue (p : Progress) : Bool :=
  match p.last with
  | none => false
  | some (flag, values) => flag.takes == .values || values.isEmpty

def give (p : Progress) (word : String) : Progress :=
  { p with last := p.last.map fun (flag, values) => (flag, values ++ [word]) }

/-- Judges the last option. -/
def settle (p : Progress) : Except Halt Taken :=
  match p.last with
  | none => .ok p.taken
  | some (flag, values) => p.taken.record flag values

/-- Begins an option, with the value attached to it if there is one. -/
def start (p : Progress) (flag : Flag) (attached : Option String) : Except Halt Progress := do
  match flag.takes, attached with
  | .nothing, none => pure { taken := ← (← p.settle).record flag [] }
  | .answer text, none =>
    let _ ← p.settle
    throw (.answered text)
  | .nothing, some _ => throw .refused
  | .answer _, some _ => throw .refused
  | _, some value => pure { taken := ← (← p.settle).record flag [value] }
  | _, none => pure { taken := ← p.settle, last := some (flag, []) }

end Progress

/-- The value that the rest of a group of short options attaches to the last of them. -/
def attachedValue : List Char → Option String
  | [] => none
  | '=' :: rest => some (String.ofList rest)
  | rest => some (String.ofList rest)

/-- Reads a group of short options: those without a value, then perhaps one that takes the rest. -/
def readGroup (flags : List Flag) : List Char → Progress → Except Halt Progress
  | [], p => .ok p
  | c :: rest, p =>
    match flags.find? (·.short == some c) with
    | none => .error .refused
    | some flag =>
      if flag.takes == .value || flag.takes == .values then
        p.start flag (attachedValue rest)
      else do
        readGroup flags rest (← p.start flag none)

/-- Reads `name` or `name=value`. -/
def readLong (flags : List Flag) (text : List Char) (p : Progress) : Except Halt Progress :=
  let name := String.ofList (text.takeWhile (· != '='))
  match flags.find? (·.name == name) with
  | none => .error .refused
  | some flag => p.start flag ((text.dropWhile (· != '=')).tail? |>.map String.ofList)

/-- Reads words up to the first that names a command, which is given with the words after it. After
`--` nothing may follow. -/
def readWords (flags : List Flag) (commands : List String) :
    List String → Progress → Except Halt (Progress × Option (String × List String))
  | [], p => .ok (p, none)
  | word :: rest, p =>
    if !p.wantsValue && commands.contains word then
      .ok (p, some (word, rest))
    else
      match word.toList with
      | ['-', '-'] => if rest.isEmpty then .ok (p, none) else .error .refused
      | '-' :: '-' :: text => do readWords flags commands rest (← readLong flags text p)
      | '-' :: c :: text => do readWords flags commands rest (← readGroup flags (c :: text) p)
      | _ => if p.wantsValue then readWords flags commands rest (p.give word) else .error .refused

end AclTree.Cli
