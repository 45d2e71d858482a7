/-
Reading typed values from a document. A text takes any scalar as it is
written, a flag only the words for true and false; nothing at all reads as an
empty list, an empty record or a missing value. Aliases are followed a limited
number of times.
-/
import AclTree.Yaml.Value.Parser

namespace AclTree.Yaml

/-- Reads from a document; the state is how many aliases may still be followed. -/
abbrev Reading (α : Type) := ReaderT Document (StateT Nat (Except Error)) α

namespace Reading

/-- The value itself, or the one that an alias stands for. -/
def follow (v : Value) : Reading Value :=
  match v with
  | .reference target => do
    match ← get with
    | 0 => throw .tooManyAliases
    | left + 1 =>
      set left
      pure (((← read).anchored.lookup target).getD .empty)
  | v => pure v

/-- Nothing is written there. -/
def isNothing : Value → Bool
  | .scalar .plain _ "" => true
  | _ => false

def text (v : Value) : Reading String := do
  match ← follow v with
  | .scalar _ _ text => pure text
  | _ => throw (.notA "text")

def flagTag : Tag := Tag.ofString "tag:yaml.org,2002:bool"

def nullTag : Tag := Tag.ofString "tag:yaml.org,2002:null"

/-- A scalar that is plain, or literal with the given tag. -/
def isBare (tag : Tag) : Style → Option Tag → Bool
  | .plain, _ => true
  | .literal, some t => t == tag
  | _, _ => false

def flag (v : Value) : Reading Bool := do
  match ← follow v with
  | .scalar style tag text =>
    if !isBare flagTag style tag then
      throw (.notA "boolean")
    else if ["true", "True", "TRUE"].contains text then
      pure true
    else if ["false", "False", "FALSE"].contains text then
      pure false
    else
      throw (.notA "boolean")
  | _ => throw (.notA "boolean")

def list {α : Type} (item : Value → Reading α) (v : Value) : Reading (List α) := do
  match ← follow v with
  | .sequence items => items.mapM item
  | v => if isNothing v then pure [] else throw (.notA "sequence")

/-- The words for a missing value. -/
def isNull (text : String) : Bool := ["null", "Null", "NULL", "~"].contains text

/-- The value is there; an untagged plain scalar may say that it is not. -/
def isPresent : Value → Except Error Bool
  | .scalar .plain none text => .ok (text != "" && !isNull text)
  | .scalar .plain (some tag) text =>
    if tag ≠ nullTag then .ok true
    else if isNull text then .ok false
    else .error (.notA "null")
  | _ => .ok true

def optional {α : Type} (item : Value → Reading α) (v : Value) : Reading (Option α) := do
  let v ← follow v
  if ← isPresent v then
    let a ← item v
    pure (some a)
  else
    pure none

/-- The pairs of a mapping, their keys read as texts. -/
def members (v : Value) : Reading (List (String × Value)) := do
  match ← follow v with
  | .mapping pairs => pairs.mapM fun (k, v) => do pure (← text k, v)
  | v => if isNothing v then pure [] else throw (.notA "mapping")

/-- The fields of a record, by name. Unknown ones are passed over, a known one that occurs twice is
refused. -/
def record (names : List String) (v : Value) : Reading (String → Option Value) := do
  let members ← members v
  match names.find? fun name => members.countP (·.1 == name) > 1 with
  | some name => throw (.repeatedField name)
  | none => pure (List.lookup · members)

/-- A field that has to be there. -/
def required {α : Type} (item : Value → Reading α) (name : String)
    (field : String → Option Value) : Reading α :=
  match field name with
  | some v => item v
  | none => throw (.missingField name)

/-- A field that may be missing. -/
def defaulted {α : Type} (item : Value → Reading α) (default : α) (name : String)
    (field : String → Option Value) : Reading α :=
  match field name with
  | some v => item v
  | none => pure default

/-- Reads the document that a text holds. As many aliases are followed as a hundred times its
size. -/
def run {α : Type} (reading : Value → Reading α) (text : String) : Except Error α := do
  let document ← Document.ofText text
  (reading document.content document).run' (100 * document.content.size)

end Reading
end AclTree.Yaml
