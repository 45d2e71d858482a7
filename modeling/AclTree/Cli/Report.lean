/-
What the commands report, and how it is written: as text for reading, or as
JSON with the time of the report.
-/
import AclTree.Cli.Failure
import AclTree.Cli.Invocation
import AclTree.Json.Pretty
import AclTree.Repository.Report

namespace AclTree

namespace PolicyListing

/-- The lines on one list: its node, an entry a line, and an empty line. -/
def lines (l : PolicyListing) : List String :=
  [l.path ++ " (" ++ l.kind ++ ")"]
    ++ (if l.entries.isEmpty then
          ["  (empty)"]
        else
          l.entries.map fun e => "  " ++ e.principal ++ ": " ++ String.intercalate ", " e.privileges)
    ++ [""]

def toJson (l : PolicyListing) : Json :=
  .object [
    ("entries", .array (l.entries.map fun e =>
      .object [("principal", .string e.principal), ("privileges", Json.strings e.privileges)])),
    ("node_type", .string l.kind), ("path", .string l.path)]

end PolicyListing

namespace CheckRow

def line (row : CheckRow) : String :=
  match row.frozen with
  | none => "✓ " ++ row.path
  | some principals => "✗ " ++ row.path ++ " (frozen: " ++ String.intercalate ", " principals ++ ")"

def toJson (row : CheckRow) : Json :=
  Json.present [("path", some (.string row.path)), ("principals", row.frozen.map Json.strings),
    ("status", some (.string (if row.isFrozen then "frozen" else "ok")))]

end CheckRow

namespace Cli

inductive Report where
  | listing (fixture : String) (lists : List PolicyListing)
  /-- The lists after an operation that started at a node. -/
  | change (operation : Operation) (path : String) (changed : Bool) (lists : List PolicyListing)
  | check (privilege : String) (rows : List CheckRow)

namespace Report

def listLines (lists : List PolicyListing) : List String :=
  if lists.isEmpty then
    ["No access control lists"]
  else
    lists.flatMap PolicyListing.lines ++ ["Total ACLs: " ++ toString lists.length]

def frozenCount (rows : List CheckRow) : Nat := rows.countP CheckRow.isFrozen

def lines : Report → List String
  | listing _ lists => ["=== Access Control Lists ===", ""] ++ listLines lists
  | change operation path changed lists =>
    ["=== " ++ operation.name.toUpper ++ " " ++ path ++ " ===", "",
      "Changed: " ++ (if changed then "yes" else "no"), ""] ++ listLines lists
  | check _ rows =>
    ["=== Access Control Consistency ===", ""] ++ rows.map CheckRow.line
      ++ ["", "Checked: " ++ toString rows.length ++ ", frozen: " ++ toString (frozenCount rows)]

/-- The members stand in the order of their keys. -/
def toJson (now : String) : Report → Json
  | listing fixture lists =>
    .object [("acls", .array (lists.map PolicyListing.toJson)), ("fixture", .string fixture),
      ("timestamp", .string now)]
  | change operation path changed lists =>
    .object [("acls", .array (lists.map PolicyListing.toJson)), ("changed", .bool changed),
      ("operation", .string operation.name), ("path", .string path), ("timestamp", .string now)]
  | check privilege rows =>
    .object [("acls", .array (rows.map CheckRow.toJson)), ("checked", Json.nat rows.length),
      ("frozen", Json.nat (frozenCount rows)), ("privilege", .string privilege),
      ("timestamp", .string now)]

/-- The text of a report, every line ended. -/
def render (format : Format) (now : String) (report : Report) : String :=
  match format with
  | .text => String.join (report.lines.map (· ++ "\n"))
  | .json => (report.toJson now).pretty 0 ++ "\n"

/-- A check that found frozen lists has failed, although its report is written. -/
def failure? : Report → Option Failure
  | check _ rows =>
    if frozenCount rows = 0 then
      none
    else
      some { message := toString (frozenCount rows) ++ " frozen access control list(s) found" }
  | _ => none

end Report
end Cli
end AclTree
