/-
Block scalars: lines below their header, indented as the first of them is, or
as the header says. A literal one keeps its lines, a folded one joins lines
that start with a word; the header also tells what becomes of the breaks at
the end.
-/
import AclTree.Yaml.Source

namespace AclTree.Yaml.Block

/-- What becomes of the line breaks at the end: all dropped, one kept, or all kept. -/
inductive Chomping where
  | strip
  | clip
  | keep
  deriving DecidableEq

structure Header where
  chomping : Chomping := .clip
  /-- How much deeper than its surroundings the scalar is indented, if that is said. -/
  increment : Option Nat := none

def chompingOf : Char → Option Chomping
  | '+' => some .keep
  | '-' => some .strip
  | _ => none

/-- The indicators after `|` or `>`: a chomping sign and a digit, in either order. -/
def readHeader (c : Cursor) : Except Error (Header × Cursor) :=
  match c.rest with
  | [] => .ok ({}, c)
  | a :: rest =>
    match chompingOf a with
    | some chomping =>
      match rest with
      | '0' :: _ => .error .badBlockHeader
      | d :: _ =>
        if d.isDigit then
          .ok (⟨chomping, some (d.toNat - '0'.toNat)⟩, c.skip 2)
        else
          .ok (⟨chomping, none⟩, c.skip 1)
      | [] => .ok (⟨chomping, none⟩, c.skip 1)
    | none =>
      if a = '0' then
        .error .badBlockHeader
      else if a.isDigit then
        let increment := some (a.toNat - '0'.toNat)
        match rest.head?.bind chompingOf with
        | some chomping => .ok (⟨chomping, increment⟩, c.skip 2)
        | none => .ok ({ increment }, c.skip 1)
      else
        .ok ({}, c)

/-- The scalar as far as it has been read; texts are kept latest first. -/
structure State where
  /-- The column where lines start; none until a line with content or the end tells. -/
  indent : Option Nat
  /-- The deepest column reached by lines of spaces alone. -/
  widest : Nat := 0
  /-- The reader is in the content of a line. -/
  inside : Bool := false
  text : List Char := []
  /-- The break at the end of the last line with content. -/
  lastBreak : List Char := []
  /-- The breaks of the empty lines after it. -/
  emptyLines : List Char := []
  /-- The last line with content started with a blank. -/
  blankStart : Bool := false

namespace State

/-- A space at this column is indentation. -/
def isIndentation (s : State) (column : Nat) : Bool :=
  match s.indent with
  | none => true
  | some indent => column < indent

/-- Starts a line with content: the breaks before it are folded, or kept. -/
def startLine (folded : Bool) (c : Char) (s : State) : State :=
  let text :=
    if folded && s.lastBreak = ['\n'] && !s.blankStart && !isBlank c then
      if s.emptyLines.isEmpty then ' ' :: s.text else s.emptyLines ++ s.text
    else
      s.emptyLines ++ s.lastBreak ++ s.text
  { s with text := c :: text, lastBreak := [], emptyLines := [], blankStart := isBlank c,
           inside := true }

/-- The whole scalar. -/
def finish (chomping : Chomping) (s : State) : String :=
  let text := match chomping with
    | .strip => s.text
    | .clip => s.lastBreak ++ s.text
    | .keep => s.emptyLines ++ s.lastBreak ++ s.text
  String.ofList text.reverse

end State

/-- Reads the lines of the scalar. `least` is the least column at which they may start. -/
def readLines (folded : Bool) (chomping : Chomping) (least : Nat) (s : State) :
    List Char → Nat → Nat → Except Error (String × Cursor)
  | [], line, column => .ok (s.finish chomping, ⟨[], line, column⟩)
  | c :: rest, line, column =>
    if s.inside then
      if isBreak c then
        readLines folded chomping least { s with inside := false, lastBreak := [c] } rest
          (line + 1) 0
      else
        readLines folded chomping least { s with text := c :: s.text } rest line (column + 1)
    else if c = ' ' && s.isIndentation column then
      readLines folded chomping least { s with widest := max s.widest (column + 1) } rest line
        (column + 1)
    else if c = '\t' && s.isIndentation column then
      .error .tabIndentation
    else if isBreak c then
      readLines folded chomping least { s with emptyLines := c :: s.emptyLines } rest (line + 1) 0
    else
      let indent := s.indent.getD (max (max s.widest column) least)
      if column = indent then
        readLines folded chomping least (({ s with indent := some indent }).startLine folded c)
          rest line (column + 1)
      else
        .ok (s.finish chomping, ⟨c :: rest, line, column⟩)

/-- A block scalar from its header on, where the surrounding block is indented by `indent`
columns, none at the top. -/
def read (folded : Bool) (indent : Option Nat) (c : Cursor) :
    Except Error (String × Cursor) := do
  let (header, c) ← readHeader c
  let c ← c.skipComment .badBlockHeader
  let fixed := header.increment.map fun n => indent.elim n (· + n)
  let least := max (indent.elim 0 (· + 1)) 1
  readLines folded header.chomping least { indent := fixed } c.rest c.line c.column

end AclTree.Yaml.Block
