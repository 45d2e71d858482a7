/-
Tokens that are read character by character without regard to structure:
anchors and aliases, tags, and the directives before a document.
-/
import AclTree.Yaml.Source
import AclTree.Yaml.Token

namespace AclTree.Yaml.Property

/-! ## Anchors -/

/-- The name of an anchor or alias may be followed by these and by white space. -/
def endsAnchor : List Char → Bool
  | [] => true
  | c :: rest => isWordEnd (c :: rest) || "?:,]\x7d%@`".toList.contains c

/-- The name after `&` or `*`. -/
def readAnchor (c : Cursor) : Except Error (String × Cursor) :=
  let (name, c) := (c.skip 1).take isWordChar
  if name.isEmpty || !endsAnchor c.rest then
    .error .badAnchor
  else
    .ok (String.ofList name, c)

/-! ## Tags -/

/-- The characters of a tag; between angle brackets also the last three. -/
def isTagChar (bracketed : Bool) (c : Char) : Bool :=
  isWordChar c || ";/?:@&=+$.%!~*'()".toList.contains c || (bracketed && ",[]".toList.contains c)

/-- The octet of a character of a tag, which is ASCII. -/
def octet (c : Char) : UInt8 := c.toNat.toUInt8

/-- How many octets of a character follow one, if `pending` were still to come before it. -/
def octetsAfter? (pending octet : Nat) : Option Nat :=
  match pending with
  | n + 1 => if 0x80 ≤ octet ∧ octet < 0xc0 then some n else none
  | 0 =>
    if octet < 0x80 then some 0
    else if 0xc0 ≤ octet ∧ octet < 0xe0 then some 1
    else if 0xe0 ≤ octet ∧ octet < 0xf0 then some 2
    else if 0xf0 ≤ octet ∧ octet < 0xf8 then some 3
    else none

/-- Undoes the escapes of a tag, a percent sign and two hexadecimal digits for an octet. The octets
of a character have to stand together; `pending` of them are still to come. -/
def unescape (pending : Nat) : List Char → Except Error (List UInt8)
  | [] => if pending = 0 then .ok [] else .error .badTag
  | '%' :: a :: b :: rest =>
    match hexValue a, hexValue b with
    | some a, some b =>
      match octetsAfter? pending (a * 16 + b) with
      | some pending => (unescape pending rest).map ((a * 16 + b).toUInt8 :: ·)
      | none => .error .badTag
    | _, _ => .error .badTag
  | c :: rest =>
    if pending = 0 ∧ c ≠ '%' then (unescape 0 rest).map (octet c :: ·) else .error .badTag

/-- The octets of a tag from here on, with escapes undone. -/
def readTagText (bracketed : Bool) (c : Cursor) : Except Error (List UInt8 × Cursor) :=
  let (text, c) := c.take (isTagChar bracketed)
  (unescape 0 text).map (·, c)

/-- A handle, from an exclamation mark up to the next one or as far as its word goes. -/
def readHandle (c : Cursor) : Except Error (List Char × Cursor) :=
  if c.rest.head? = some '!' then
    let (word, c) := (c.skip 1).take isWordChar
    if c.rest.head? = some '!' then
      .ok ('!' :: word ++ ['!'], c.skip 1)
    else
      .ok ('!' :: word, c)
  else
    .error .badTag

/-- A tag in angle brackets, without a handle. -/
def readVerbatim (c : Cursor) : Except Error (Token × Cursor) := do
  let (text, c) ← readTagText true (c.skip 2)
  if text.isEmpty || c.rest.head? ≠ some '>' then
    throw .badTag
  else
    pure (.tag "" (Tag.ended text), c.skip 1)

/-- A tag with a handle of its own, or with the handle `!`. -/
def readShorthand (c : Cursor) : Except Error (Token × Cursor) := do
  let (handle, after) ← readHandle c
  let (text, after) ← readTagText false after
  if handle.length ≥ 2 && handle.getLast? = some '!' then
    if text.isEmpty then
      throw .badTag
    else
      pure (.tag (String.ofList handle) (Tag.ended text), after)
  else
    match Tag.ended (handle.tail.map octet ++ text) with
    | [] => pure (.tag "" (Tag.ofString "!"), after)
    | suffix => pure (.tag "!" suffix, after)

/-- A tag. White space follows it, or in a flow collection a comma. -/
def readTag (flow : Bool) (c : Cursor) : Except Error (Token × Cursor) := do
  let (token, c) ← if (c.rest.drop 1).head? = some '<' then readVerbatim c else readShorthand c
  if (flow && c.rest.head? = some ',') || isWordEnd c.rest then
    pure (token, c)
  else
    throw .badTag

/-! ## Directives -/

/-- A number of at most nine digits. -/
def readNumber (c : Cursor) : Except Error (Nat × Cursor) :=
  let (digits, c) := c.take Char.isDigit
  if digits.isEmpty || digits.length > 9 then
    .error .badDirective
  else
    .ok (digits.foldl (fun n d => n * 10 + (d.toNat - '0'.toNat)) 0, c)

def readVersion (c : Cursor) : Except Error (Token × Cursor) := do
  let (major, c) ← readNumber c.skipBlanks
  if c.rest.head? ≠ some '.' then
    throw .badDirective
  else
    let (minor, c) ← readNumber (c.skip 1)
    pure (.version major minor, c)

def readHandleDirective (c : Cursor) : Except Error (Token × Cursor) := do
  let (handle, c) ← readHandle c.skipBlanks
  if handle.length ≥ 2 && handle.getLast? ≠ some '!' then
    throw .badDirective
  else if !c.rest.head?.any isBlank then
    throw .badDirective
  else
    let (stem, c) ← readTagText true c.skipBlanks
    if stem.isEmpty || !isWordEnd c.rest then
      throw .badDirective
    else
      pure (.handle (String.ofList handle) (Tag.ended stem), c)

/-- A directive, up to the end of its line. -/
def readDirective (c : Cursor) : Except Error (Token × Cursor) := do
  let (name, c) := (c.skip 1).take isWordChar
  if !isWordEnd c.rest then
    throw .badDirective
  else
    let (token, c) ←
      match String.ofList name with
      | "YAML" => readVersion c
      | "TAG" => readHandleDirective c
      | _ => throw .badDirective
    pure (token, ← c.skipComment .badDirective)

end AclTree.Yaml.Property
