/-
JSON as text over several lines: each item and each member on a line of its
own, two spaces deeper than what holds it; what is empty stays on one line.
-/
import AclTree.Json

namespace AclTree.Json

/-- A character as it stands between quotes. -/
def escape (c : Char) : List Char :=
  if c = '"' then ['\\', '"']
  else if c = '\\' then ['\\', '\\']
  else if c = '\n' then ['\\', 'n']
  else if c = '\r' then ['\\', 'r']
  else if c = '\t' then ['\\', 't']
  else if c = '\x08' then ['\\', 'b']
  else if c = '\x0c' then ['\\', 'f']
  else if c.toNat < 32 then
    ['\\', 'u', '0', '0', Nat.digitChar (c.toNat / 16), Nat.digitChar (c.toNat % 16)]
  else [c]

def quote (text : String) : String := "\"" ++ String.ofList (text.toList.flatMap escape) ++ "\""

/-- An integer is written plainly, any other number with the power of ten that divides it. -/
def numeral (mantissa : Int) (decimals : Nat) : String :=
  if decimals = 0 then toString mantissa else toString mantissa ++ "e-" ++ toString decimals

/-- A new line and its indentation. -/
def newLine (depth : Nat) : String := String.ofList ('\n' :: List.replicate (2 * depth) ' ')

/-- Items between brackets, each on a line of its own. -/
def enclose (opening closing : String) (depth : Nat) (items : List String) : String :=
  if items.isEmpty then
    opening ++ closing
  else
    opening ++ String.intercalate "," (items.map (newLine (depth + 1) ++ ·)) ++ newLine depth ++ closing

mutual

/-- The text of a value whose first line stands at the given depth already. -/
def pretty (depth : Nat) : Json → String
  | null => "null"
  | bool b => if b then "true" else "false"
  | number mantissa decimals => numeral mantissa decimals
  | string s => quote s
  | array items => enclose "[" "]" depth (prettyItems (depth + 1) items)
  | object members => enclose "\x7b" "\x7d" depth (prettyMembers (depth + 1) members)

def prettyItems (depth : Nat) : List Json → List String
  | [] => []
  | j :: rest => pretty depth j :: prettyItems depth rest

def prettyMembers (depth : Nat) : List (String × Json) → List String
  | [] => []
  | (key, j) :: rest => (quote key ++ ": " ++ pretty depth j) :: prettyMembers depth rest

end

end AclTree.Json
