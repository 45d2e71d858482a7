/-
The tokens of a YAML text. Structure that indentation expresses has tokens of
its own: a block collection starts with one and ends with another.
-/

namespace AclTree.Yaml

/-- A tag, or a part of one, by its octets. Escapes may spell octets that make up no text. -/
abbrev Tag := List UInt8

namespace Tag

def ofString (text : String) : Tag := text.toUTF8.data.toList

/-- A tag ends before the first octet 0 that an escape spells in it. -/
def ended (octets : List UInt8) : Tag := octets.takeWhile (· ≠ 0)

end Tag

/-- How a scalar is written. -/
inductive Style where
  | plain
  | singleQuoted
  | doubleQuoted
  | literal
  | folded
  deriving DecidableEq

inductive Token where
  | version (major minor : Nat)
  /-- A handle that stands for the start of tags. -/
  | handle (name : String) (stem : Tag)
  | documentStart
  | documentEnd
  | blockSequence
  | blockMapping
  | blockEnd
  | openSequence
  | closeSequence
  | openMapping
  | closeMapping
  /-- The dash before an item of a block sequence. -/
  | dash
  /-- The comma between the items of a flow collection. -/
  | comma
  | key
  | value
  | reference (name : String)
  | anchor (name : String)
  | tag (handle : String) (suffix : Tag)
  | scalar (style : Style) (text : String)
  deriving DecidableEq

end AclTree.Yaml
