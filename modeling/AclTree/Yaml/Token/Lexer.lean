/-
From characters to tokens. Two things are decided late: that a token was a
mapping's key shows when a colon follows on its line, and the tokens for it are
put in before it then; that a block collection has ended shows when a line
starts further left.
-/
import AclTree.Yaml.Scalar.Block
import AclTree.Yaml.Scalar.Plain
import AclTree.Yaml.Scalar.Quoted
import AclTree.Yaml.Token.Property

namespace AclTree.Yaml

/-- A token that may turn out to be a key: where it stands among the tokens and in the text. A
required one starts a line of a block mapping and has to be a key. -/
structure PendingKey where
  index : Nat
  line : Nat
  column : Nat
  /-- As `Lexer.octets` says when the token starts. -/
  octets : Nat
  required : Bool

structure Lexer where
  cursor : Cursor
  /-- Where the last token started. -/
  mark : Cursor := cursor
  /-- How many octets of the line lie before the mark, from the first token on the line on. -/
  octets : Nat := 0
  tokens : Array Token := #[]
  /-- The columns of the open block collections, innermost first. -/
  blocks : List Nat := []
  /-- The pending key of each open flow collection, innermost first, and of the text around. -/
  keys : List (Option PendingKey) := [none]
  /-- A key without `?` may start here. -/
  keyAllowed : Bool := true

namespace Lexer

/-- Within a flow collection. -/
def inFlow (lx : Lexer) : Bool := lx.keys.length > 1

def emit (lx : Lexer) (token : Token) : Lexer := { lx with tokens := lx.tokens.push token }

/-- Emits a token that is as long as said. -/
def punctuate (lx : Lexer) (token : Token) (length : Nat) : Lexer :=
  { lx.emit token with cursor := lx.cursor.skip length }

/-! ## Pending keys -/

/-- A required key that cannot be one any more is an error, any other is forgotten. -/
def refuse : Option PendingKey → Except Error (Option PendingKey)
  | some k => if k.required then .error .missingColon else .ok none
  | none => .ok none

/-- Gives up the pending key of the innermost collection. -/
def dropKey (lx : Lexer) : Except Error Lexer :=
  match lx.keys with
  | k :: outer => (refuse k).map fun k => { lx with keys := k :: outer }
  | [] => .ok lx

/-- Notes that the token starting here may be a key. -/
def noteKey (lx : Lexer) : Except Error Lexer :=
  if lx.keyAllowed then do
    let lx ← lx.dropKey
    let required := !lx.inFlow && lx.blocks.head? = some lx.cursor.column
    let key : PendingKey := ⟨lx.tokens.size, lx.cursor.line, lx.cursor.column, lx.octets, required⟩
    pure { lx with keys := some key :: lx.keys.tail }
  else
    pure lx

/-- A key stands on one line and takes at most 1024 octets. -/
def isStale (lx : Lexer) (k : PendingKey) : Bool :=
  k.line < lx.cursor.line || k.octets + 1024 < lx.octets

/-- Gives up the pending keys that are stale. -/
def dropStale (lx : Lexer) : Except Error Lexer := do
  let keys ← lx.keys.mapM fun
    | some k => if isStale lx k then refuse (some k) else pure (some k)
    | none => pure none
  pure { lx with keys }

/-! ## Indentation -/

/-- Opens a block collection, if the column lies deeper than the one around it. Its token goes to
the given index. -/
def openBlock (lx : Lexer) (column index : Nat) (token : Token) : Lexer :=
  if lx.inFlow || lx.blocks.head?.any (column ≤ ·) then
    lx
  else
    { lx with blocks := column :: lx.blocks,
              tokens := lx.tokens.insertIdxIfInBounds index token }

/-- Ends the block collections that lie deeper than the column, all of them if there is none. -/
def closeBlocks (lx : Lexer) (column : Option Nat) : Lexer :=
  if lx.inFlow then
    lx
  else
    let deeper (block : Nat) : Bool := column.all (· < block)
    let closed := lx.blocks.takeWhile deeper
    { lx with blocks := lx.blocks.dropWhile deeper,
              tokens := lx.tokens ++ closed.map fun _ => Token.blockEnd }

/-! ## White space -/

/-- The place of the next token, past blanks, comments and line breaks. Tabs count as blanks only
where no key may start; a new line allows keys again. A byte order mark may start a line. -/
def seek (flow keyAllowed comment : Bool) : List Char → Nat → Nat → Cursor × Bool
  | [], line, column => (⟨[], line, column⟩, keyAllowed)
  | c :: rest, line, column =>
    if isBreak c then
      seek flow (keyAllowed || !flow) false rest (line + 1) 0
    else if comment || c = ' ' || (c = '\t' && (flow || !keyAllowed)) ||
        (c = '\ufeff' && column = 0) then
      seek flow keyAllowed comment rest line (column + 1)
    else if c = '#' then
      seek flow keyAllowed true rest line (column + 1)
    else
      (⟨c :: rest, line, column⟩, keyAllowed)

/-- Marks the place where a token starts. -/
def markStart (lx : Lexer) : Lexer :=
  let octets := if lx.mark.line = lx.cursor.line then lx.octets + lx.mark.octetsTo lx.cursor else 0
  { lx with mark := lx.cursor, octets }

def skipSpace (lx : Lexer) : Lexer :=
  let (cursor, keyAllowed) :=
    seek lx.inFlow lx.keyAllowed false lx.cursor.rest lx.cursor.line lx.cursor.column
  { lx with cursor, keyAllowed }.markStart

/-! ## Tokens -/

def readDocumentMarker (lx : Lexer) (token : Token) : Except Error Lexer := do
  let lx ← (lx.closeBlocks none).dropKey
  pure { lx.punctuate token 3 with keyAllowed := false }

def readDirective (lx : Lexer) : Except Error Lexer := do
  let lx ← (lx.closeBlocks none).dropKey
  let (token, cursor) ← Property.readDirective lx.cursor
  pure { lx.emit token with cursor, keyAllowed := false }

def openFlow (lx : Lexer) (token : Token) : Except Error Lexer := do
  let lx ← lx.noteKey
  pure { lx.punctuate token 1 with keys := none :: lx.keys, keyAllowed := true }

def closeFlow (lx : Lexer) (token : Token) : Except Error Lexer := do
  let lx ← lx.dropKey
  let keys := if lx.inFlow then lx.keys.tail else lx.keys
  pure { lx.punctuate token 1 with keys, keyAllowed := false }

def readComma (lx : Lexer) : Except Error Lexer := do
  let lx ← lx.dropKey
  pure { lx.punctuate .comma 1 with keyAllowed := true }

def readDash (lx : Lexer) : Except Error Lexer := do
  if !lx.inFlow && !lx.keyAllowed then
    throw .misplacedEntry
  else
    let lx ← (lx.openBlock lx.cursor.column lx.tokens.size .blockSequence).dropKey
    pure { lx.punctuate .dash 1 with keyAllowed := true }

def readKey (lx : Lexer) : Except Error Lexer := do
  if !lx.inFlow && !lx.keyAllowed then
    throw .misplacedKey
  else
    let lx ← (lx.openBlock lx.cursor.column lx.tokens.size .blockMapping).dropKey
    pure { lx.punctuate .key 1 with keyAllowed := !lx.inFlow }

/-- The colon makes the pending key one; without it, it follows a key that `?` announced. -/
def readValue (lx : Lexer) : Except Error Lexer :=
  match lx.keys with
  | some k :: outer =>
    let lx := { lx with tokens := lx.tokens.insertIdxIfInBounds k.index .key, keys := none :: outer }
    let lx := lx.openBlock k.column k.index .blockMapping
    .ok { lx.punctuate .value 1 with keyAllowed := false }
  | _ =>
    if !lx.inFlow && !lx.keyAllowed then
      .error .misplacedValue
    else
      let lx := lx.openBlock lx.cursor.column lx.tokens.size .blockMapping
      .ok { lx.punctuate .value 1 with keyAllowed := !lx.inFlow }

def readAnchor (lx : Lexer) (token : String → Token) : Except Error Lexer := do
  let lx ← lx.noteKey
  let (name, cursor) ← Property.readAnchor lx.cursor
  pure { lx.emit (token name) with cursor, keyAllowed := false }

def readTag (lx : Lexer) : Except Error Lexer := do
  let lx ← lx.noteKey
  let (token, cursor) ← Property.readTag lx.inFlow lx.cursor
  pure { lx.emit token with cursor, keyAllowed := false }

def readBlock (lx : Lexer) (style : Style) : Except Error Lexer := do
  let lx ← lx.dropKey
  let (text, cursor) ← Block.read (style = .folded) lx.blocks.head? (lx.cursor.skip 1)
  pure { lx.emit (.scalar style text) with cursor, keyAllowed := true }

def readQuoted (lx : Lexer) (style : Style) : Except Error Lexer := do
  let lx ← lx.noteKey
  let c := lx.cursor.skip 1
  let (text, cursor) ←
    match style with
    | .singleQuoted => Quoted.single [] .none c.rest c.line c.column
    | _ => Quoted.double .text [] .none c.rest c.line c.column
  pure { lx.emit (.scalar style text) with cursor, keyAllowed := false }

def readPlain (lx : Lexer) : Except Error Lexer := do
  let lx ← lx.noteKey
  let indent : Nat := lx.blocks.head?.elim 0 (· + 1)
  let c := lx.cursor
  let result ← Plain.read lx.inFlow indent [] .none c.rest c.line c.column
  pure { lx.emit (.scalar .plain result.text) with
    cursor := result.cursor, keyAllowed := result.multiline }

/-- These start tokens of their own, or nothing. -/
def isIndicator (c : Char) : Bool := "-?:,[]\x7b\x7d#&*!|>'\"%@`".toList.contains c

/-- A scalar without quotes may start here: not with a tab or an indicator, except with a dash, and
in a block with a question mark or colon, that something follows. -/
def startsPlain (flow : Bool) (c : Char) (rest : List Char) : Bool :=
  (!isIndicator c && !isBlank c) || (c = '-' && !rest.head?.any isBlank) ||
    (!flow && (c = '?' || c = ':') && !isWordEnd rest)

/-- Reads the token that starts with a character, `rest` following. -/
def readToken (lx : Lexer) (c : Char) (rest : List Char) : Except Error Lexer :=
  if lx.cursor.column = 0 && c = '%' then
    lx.readDirective
  else if lx.cursor.column = 0 && isMarker (c :: rest) then
    lx.readDocumentMarker (if c = '-' then .documentStart else .documentEnd)
  else if c = '[' then
    lx.openFlow .openSequence
  else if c = '\x7b' then
    lx.openFlow .openMapping
  else if c = ']' then
    lx.closeFlow .closeSequence
  else if c = '\x7d' then
    lx.closeFlow .closeMapping
  else if c = ',' then
    lx.readComma
  else if c = '-' && isWordEnd rest then
    lx.readDash
  else if c = '?' && (lx.inFlow || isWordEnd rest) then
    lx.readKey
  else if c = ':' && (lx.inFlow || isWordEnd rest) then
    lx.readValue
  else if c = '*' then
    lx.readAnchor .reference
  else if c = '&' then
    lx.readAnchor .anchor
  else if c = '!' then
    lx.readTag
  else if c = '|' && !lx.inFlow then
    lx.readBlock .literal
  else if c = '>' && !lx.inFlow then
    lx.readBlock .folded
  else if c = '\'' then
    lx.readQuoted .singleQuoted
  else if c = '"' then
    lx.readQuoted .doubleQuoted
  else if startsPlain lx.inFlow c rest then
    lx.readPlain
  else
    .error (.strayCharacter c)

/-- At the end of the text all block collections end. -/
def finish (lx : Lexer) : Except Error (List Token) := do
  let lx ← (lx.closeBlocks none).dropKey
  pure lx.tokens.toList

/-- Reads tokens to the end of the text. Each takes a character at least, so `limit` is never
reached if it is greater than the length of the text. -/
def run : Nat → Lexer → Except Error (List Token)
  | 0, lx => lx.finish
  | limit + 1, lx => do
    let lx ← lx.skipSpace.dropStale
    match lx.cursor.rest with
    | [] => lx.finish
    | c :: rest => run limit (← (lx.closeBlocks (some lx.cursor.column)).readToken c rest)

end Lexer

/-- The tokens of a text. -/
def Token.ofText (text : String) : Except Error (List Token) := do
  let chars ← characters text
  Lexer.run (chars.length + 1) { cursor := { rest := chars } }

end AclTree.Yaml
