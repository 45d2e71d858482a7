/-
What the command line asks for: a command, the fixture it works on, how to
report, and where settings are said to be. `Invocation.ofArguments` reads it
off the arguments. Each command has a help text of its own (`Topic.help`).
-/
import AclTree.Cli.Options
import AclTree.Engine.Request

namespace AclTree.Cli

inductive Command where
  /-- Shows the lists of the fixture, or those at a node and below it. -/
  | listing (bound : Option String)
  | grant (path : String) (scope : Scope) (who : Principal) (names : List String)
  | revoke (path : String) (scope : Scope) (who : Principal) (names : List String)
  | clear (path : String) (scope : Scope)
  /-- Checks that no list is frozen. -/
  | check

inductive Format where
  | text
  | json
  deriving DecidableEq

namespace Format

/-- Text for every name but that of JSON. -/
def ofName (name : String) : Format := if name = "json" then json else text

end Format

structure Invocation where
  config : Option String
  fixture : String
  format : Format
  command : Command

/-! ## Options of the commands -/

def version : String := "0.1.0"

/-- The options that answer with a text on a program. -/
def answerFlags (program help : String) : List Flag :=
  [{ name := "help", short := 'h', takes := .answer help, about := "Print help" },
    { name := "version", short := 'V', takes := .answer (program ++ " " ++ version ++ "\n"),
      about := "Print version" }]

/-- The options of the program and of every command. Being verbose changes no report. -/
def commonFlags : List Flag :=
  [{ name := "verbose", short := 'v', takes := .nothing, about := "Verbose output" },
    { name := "config", short := 'c', takes := .value, isFile := true,
      about := "Access control settings file (defaults to config.authz[.<env>].yaml)" }]

def fixtureFlags : List Flag :=
  [{ name := "fixture", takes := .value, isFile := true, about := "Repository fixture (YAML)",
      needed := true },
    { name := "format", short := 'f', takes := .value,
      about := "Output format (json, text) [default: text]" }]

def boundFlag : Flag :=
  { name := "path", short := 'p', takes := .value, about := "Only show ACLs at or below this node" }

def targetFlags : List Flag :=
  [{ name := "path", short := 'p', takes := .value, about := "Node the operation starts from",
      needed := true },
    { name := "to", takes := .value,
      about := "Also apply to every node up to and including this ancestor" },
    { name := "recursive", short := 'r', takes := .nothing,
      about := "Also apply to descendants of the type given by --node-type" },
    { name := "node-type", takes := .value, about := "Node type descended into by --recursive" }]

def changeFlags : List Flag :=
  [{ name := "principal", takes := .value, about := "Principal name", needed := true },
    { name := "privilege", takes := .values, about := "Privilege name (repeatable)", needed := true }]

/-- What the command line knows of a command. -/
structure Topic where
  name : String
  about : String
  /-- The options that it has of its own. -/
  flags : List Flag

def topics : List Topic :=
  [⟨"show", "Show the access control lists of a fixture", fixtureFlags ++ [boundFlag]⟩,
    ⟨"grant", "Grant privileges to a principal", fixtureFlags ++ targetFlags ++ changeFlags⟩,
    ⟨"revoke", "Revoke privileges from a principal", fixtureFlags ++ targetFlags ++ changeFlags⟩,
    ⟨"clear", "Remove every access control policy in scope", fixtureFlags ++ targetFlags⟩,
    ⟨"check", "Check that every ACL can still be amended", fixtureFlags⟩]

def helpTopic : Topic := ⟨"help", "Print this message or the help of the given subcommand(s)", []⟩

def commandNames : List String := (helpTopic :: topics).map (·.name)

/-! ## Help -/

/-- A heading and a line for each term, with what it is for in a column of its own. -/
def helpSection (heading : String) (terms : List (String × String)) : String :=
  let width := (terms.map (·.1.length)).foldl max 0
  "\n" ++ heading ++ ":\n" ++ String.join (terms.map fun (term, about) =>
    "  " ++ term.pushn ' ' (width - term.length) ++ "  " ++ about ++ "\n")

namespace Topic

/-- The options of the command, those that it has in common with the others at the end. -/
def allFlags (t : Topic) (help : String) : List Flag :=
  t.flags ++ commonFlags ++ answerFlags ("aclctl-" ++ t.name) help

/-- How the command is used. -/
def usage (t : Topic) : String :=
  let needed := t.flags.filter (·.needed)
  "Usage: " ++ " ".intercalate (["aclctl", t.name, "[OPTIONS]"] ++ needed.map Flag.shape) ++ "\n" ++
    helpSection "Options" ((t.allFlags "").map fun f => (f.term, f.about))

/-- The help on the command. -/
def help (t : Topic) : String := t.about ++ "\n\n" ++ t.usage

end Topic

/-- The help on the whole program. -/
def usage : String :=
  "aclctl - Preview access control propagation against a repository fixture\n\n" ++
    "Usage: aclctl [OPTIONS] <COMMAND>\n" ++
    helpSection "Commands" ((topics ++ [helpTopic]).map fun t => (t.name, t.about)) ++
    helpSection "Options"
      ((commonFlags ++ answerFlags "aclctl" "").map fun f => (f.term, f.about))

/-! ## Reading -/

namespace Taken

/-- How far a change reaches. Ancestors and descendants exclude each other; a node type is asked for
with descendants, and passed over with ancestors. -/
def scope? (t : Taken) : Option Scope :=
  match t.value? "to", t.has "recursive", t.value? "node-type" with
  | some target, false, _ => some (.ancestors target)
  | none, true, some kind => some (.subtree (· == kind))
  | none, false, none => some .node
  | _, _, _ => none

end Taken

namespace Command

/-- The command of that name with the options taken, unless one that it needs is missing. -/
def ofTaken? (name : String) (t : Taken) : Option Command :=
  match name with
  | "show" => some (listing (t.value? "path"))
  | "grant" => do
    guard (t.has "privilege")
    pure (grant (← t.value? "path") (← t.scope?) ⟨← t.value? "principal"⟩ (t.values "privilege"))
  | "revoke" => do
    guard (t.has "privilege")
    pure (revoke (← t.value? "path") (← t.scope?) ⟨← t.value? "principal"⟩ (t.values "privilege"))
  | "clear" => do pure (clear (← t.value? "path") (← t.scope?))
  | "check" => some check
  | _ => none

end Command

namespace Invocation

/-- The fixture is told by its option, else by a variable, whose value cannot be empty. -/
def fixture? (own : Taken) (fallback : Option String) : Option String :=
  own.value? "fixture" <|> fallback.filter (· ≠ "")

def ofTaken? (name : String) (globals own : Taken) (fixtureVariable : Option String) :
    Option Invocation := do
  pure { config := own.value? "config" <|> globals.value? "config",
         fixture := ← fixture? own fixtureVariable,
         format := Format.ofName ((own.value? "format").getD "text"),
         command := ← Command.ofTaken? name own }

/-- Help is given on the program or on one of its commands. -/
def help : List String → Halt
  | [] => .answered usage
  | [name] =>
    match (helpTopic :: topics).find? (·.name == name) with
    | some topic => .answered topic.help
    | none => .refused
  | _ => .refused

/-- What the arguments ask for. The options before the command's name are judged when those after
it have been. -/
def ofArguments (arguments : List String) (fixtureVariable : Option String) :
    Except Halt Invocation := do
  match ← readWords (commonFlags ++ answerFlags "aclctl" usage) commandNames arguments {} with
  | (_, none) => throw .refused
  | (_, some ("help", words)) => throw (help words)
  | (globals, some (name, words)) =>
    match topics.find? (·.name == name) with
    | none => throw .refused
    | some topic =>
      let (own, _) ← readWords (topic.allFlags topic.help) [] words {}
      let own ← own.settle
      let globals ← globals.settle
      match ofTaken? name globals own fixtureVariable with
      | some invocation => pure invocation
      | none => throw .refused

end Invocation
end AclTree.Cli
