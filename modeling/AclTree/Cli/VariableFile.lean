/-
Files that define variables, one `NAME=value` a line. A value may be quoted and
followed by a comment, and variables may stand in it, as `$name` or `${name}`.
What follows a malformed line is not read.
-/
import AclTree.Text.Alphanumeric
import AclTree.Text.Blank

namespace AclTree.Cli

/-- A part of a value. -/
inductive Piece where
  | character (c : Char)
  /-- The value of the variable stands here. -/
  | reference (name : String)
  deriving DecidableEq

/-- A definition as a line has it. -/
structure Definition where
  name : String
  value : List Piece
  deriving DecidableEq

namespace Definition

/-- The variables that stand in the value. -/
def references (d : Definition) : List String :=
  d.value.filterMap fun
    | .character _ => none
    | .reference name => some name

/-- The value, given what variables are set. One that is not set has an empty value. -/
def evaluate (d : Definition) (value? : String → Option String) : String :=
  String.ofList <| d.value.flatMap fun
    | .character c => [c]
    | .reference name => ((value? name).getD "").toList

end Definition

namespace VariableFile

/-! ## Values -/

/-- Where in a value a character stands. -/
inductive Place where
  /-- Outside quotes, or within double quotes. -/
  | text (quoted : Bool)
  | single
  /-- After a backslash. -/
  | escaped (quoted : Bool)
  /-- In the name of a variable, whose characters so far are given backwards. -/
  | named (quoted : Bool) (name : List Char)
  /-- The same within braces. -/
  | braced (quoted : Bool) (name : List Char)
  /-- After the value, where only a comment may follow. -/
  | ended

/-- What a backslash and a character stand for. -/
def escape? (c : Char) : Option Char :=
  if c = 'n' then some '\n'
  else if c ∈ ['\\', '\'', '"', '$', ' '] then some c
  else none

def reference (reversed : List Char) : Piece := .reference (String.ofList reversed.reverse)

/-- The value that a line holds from a place on, unless a quote or brace stays open. A name without
braces goes as far as letters and digits do, and the character after it is nothing but itself, if it
does not start another name. -/
def value? : Place → List Char → Option (List Piece)
  | .text false, [] | .escaped false, [] | .ended, [] => some []
  | .named false name, [] => some [reference name]
  | _, [] => none
  | .text quoted, c :: rest =>
    if c = '$' then value? (.named quoted []) rest
    else if c = '\\' then value? (.escaped quoted) rest
    else if c = '"' then value? (.text !quoted) rest
    else if c = '\'' ∧ !quoted then value? .single rest
    else if (c = ' ' ∨ c = '\t') ∧ !quoted then value? .ended rest
    else (value? (.text quoted) rest).map (.character c :: ·)
  | .single, c :: rest =>
    if c = '\'' then value? (.text false) rest
    else (value? .single rest).map (.character c :: ·)
  | .escaped quoted, c :: rest => do
    let meant ← escape? c
    let others ← value? (.text quoted) rest
    pure (.character meant :: others)
  | .named quoted name, c :: rest =>
    if Text.isAlphanumeric c then value? (.named quoted (c :: name)) rest
    else if c = '\x7b' ∧ name = [] then value? (.braced quoted []) rest
    else if c = '$' then (value? (.named quoted []) rest).map (reference name :: ·)
    else (value? (.text quoted) rest).map ([reference name, .character c] ++ ·)
  | .braced quoted name, c :: rest =>
    if c = '\x7d' then (value? (.text quoted) rest).map (reference name :: ·)
    else value? (.braced quoted (c :: name)) rest
  | .ended, c :: rest =>
    if c = '#' then some []
    else if c = ' ' ∨ c = '\t' then value? .ended rest
    else none

/-! ## Lines -/

/-- The lines of a text, without the line feeds between them. -/
def lines : List Char → List (List Char)
  | [] => [[]]
  | c :: rest =>
    if c = '\n' then
      [] :: lines rest
    else
      match lines rest with
      | [] => [[c]]
      | line :: others => (c :: line) :: others

def skipBlanks (text : List Char) : List Char := text.dropWhile Text.isBlank

def isNameStart (c : Char) : Bool := c.isAlpha || c == '_'

def isNamePart (c : Char) : Bool := c.isAlphanum || c == '_' || c == '.'

/-- A name at the start of a text, and what follows the blanks after it. -/
def name? : List Char → Option (List Char × List Char)
  | [] => none
  | c :: rest =>
    if isNameStart c then
      some (c :: rest.takeWhile isNamePart, skipBlanks (rest.dropWhile isNamePart))
    else
      none

/-- The name that a line defines and what follows the equals sign. `export` may stand before the
name. -/
def named? (text : List Char) : Option (List Char × List Char) := do
  match ← name? text with
  | (name, '=' :: rest) => pure (name, skipBlanks rest)
  | (name, rest) =>
    guard (name = "export".toList)
    match ← name? rest with
    | (name, '=' :: rest) => pure (name, skipBlanks rest)
    | _ => none

/-- What a line defines, which is nothing if it is blank or a comment. Blanks at its end do not
count. -/
def ofLine (line : List Char) : Option (List Definition) :=
  match skipBlanks (line.reverse.dropWhile Text.isBlank).reverse with
  | [] | '#' :: _ => some []
  | text => do
    let (name, rest) ← named? text
    let value ← if rest.head? = some '#' then some [] else value? (.text false) rest
    pure [⟨String.ofList name, value⟩]

/-- What the lines define up to the first that is malformed. -/
def ofLines : List (List Char) → List Definition
  | [] => []
  | line :: rest =>
    match ofLine line with
    | some defined => defined ++ ofLines rest
    | none => []

def ofText (text : String) : List Definition := ofLines (lines text.toList)

end VariableFile
end AclTree.Cli
