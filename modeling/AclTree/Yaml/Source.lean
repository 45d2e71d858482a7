/-
The characters of a YAML text: which are allowed, which break lines and which
separate words, and places in the text.
-/
import AclTree.Yaml.Error

namespace AclTree.Yaml

/-- The characters that a text may hold. -/
def isAllowed (c : Char) : Bool :=
  let n := c.toNat
  n == 0x9 || n == 0xa || n == 0xd || (0x20 ≤ n && n ≤ 0x7e) || n == 0x85 ||
    (0xa0 ≤ n && n ≤ 0xd7ff) || (0xe000 ≤ n && n ≤ 0xfffd) || 0x10000 ≤ n

/-- Writes every line break as a line feed, except the separators U+2028 and U+2029, which scalars
keep. -/
def unifyBreaks : List Char → List Char
  | [] => []
  | '\r' :: '\n' :: rest => '\n' :: unifyBreaks rest
  | c :: rest => (if c = '\r' ∨ c = '\u0085' then '\n' else c) :: unifyBreaks rest

/-- The characters of a text, if all are allowed, with unified line breaks. -/
def characters (text : String) : Except Error (List Char) :=
  match text.toList.find? (!isAllowed ·) with
  | some c => .error (.forbiddenCharacter c.toNat)
  | none => .ok (unifyBreaks text.toList)

def isBreak (c : Char) : Bool := c = '\n' || c = '\u2028' || c = '\u2029'

/-- A space or a tab. -/
def isBlank (c : Char) : Bool := c = ' ' || c = '\t'

/-- Nothing follows, or a blank or a line break. -/
def isWordEnd : List Char → Bool
  | [] => true
  | c :: _ => isBlank c || isBreak c

/-- The characters of names and handles. -/
def isWordChar (c : Char) : Bool := c.isAlphanum || c = '_' || c = '-'

/-- The value of a hexadecimal digit. -/
def hexValue (c : Char) : Option Nat :=
  if c.isDigit then some (c.toNat - '0'.toNat)
  else if 'a' ≤ c ∧ c ≤ 'f' then some (c.toNat - 'a'.toNat + 10)
  else if 'A' ≤ c ∧ c ≤ 'F' then some (c.toNat - 'A'.toNat + 10)
  else none

/-- A document marker, `---` or `...`, stands here by itself. -/
def isMarker : List Char → Bool
  | '-' :: '-' :: '-' :: rest => isWordEnd rest
  | '.' :: '.' :: '.' :: rest => isWordEnd rest
  | _ => false

/-- A place in a text: what is left of it, from a line and column on. -/
structure Cursor where
  rest : List Char
  line : Nat := 0
  column : Nat := 0

namespace Cursor

/-- The place some characters further, none of them a line break. -/
def skip (c : Cursor) (n : Nat) : Cursor :=
  { c with rest := c.rest.drop n, column := c.column + n }

/-- The place after the blanks that stand here. -/
def skipBlanks (c : Cursor) : Cursor := c.skip (c.rest.takeWhile isBlank).length

/-- How many octets the text takes from here to a later place on the line. -/
def octetsTo (c later : Cursor) : Nat :=
  (c.rest.take (later.column - c.column)).foldl (fun n x => n + x.utf8Size) 0

/-- The characters here that have a property, none of them a line break, and the place after
them. -/
def take (c : Cursor) (p : Char → Bool) : List Char × Cursor :=
  let taken := c.rest.takeWhile p
  (taken, c.skip taken.length)

/-- The place at the end of a line that holds nothing but blanks and a comment from here on. -/
def skipComment (c : Cursor) (wrong : Error) : Except Error Cursor :=
  let c := c.skipBlanks
  let c := if c.rest.head? = some '#' then (c.take (!isBreak ·)).2 else c
  match c.rest with
  | [] => .ok c
  | b :: rest => if isBreak b then .ok ⟨rest, c.line + 1, 0⟩ else .error wrong

end Cursor
end AclTree.Yaml
