/-
Scalars without quotes. They end before a colon or comment that stands apart,
before a document marker, before a line that is not indented enough, and in a
flow collection before its punctuation; white space at their end is no part
of them.
-/
import AclTree.Yaml.Scalar.Folding

namespace AclTree.Yaml.Plain

/-- What has been read: the text, the place after it and after the white space that follows, and
whether that goes over a line break. -/
structure Result where
  text : String
  cursor : Cursor
  multiline : Bool

/-- The punctuation of flow collections. -/
def isFlowMark (c : Char) : Bool := c = ',' || c = '[' || c = ']' || c = '\x7b' || c = '\x7d'

/-- A colon in a flow collection may not touch these. -/
def isColonConflict : List Char → Bool
  | c :: _ => isFlowMark c || c = '?'
  | [] => false

/-- The scalar ends before this character of a word. -/
def endsWord (flow : Bool) (c : Char) (rest : List Char) : Bool :=
  (c = ':' && isWordEnd rest) || (flow && isFlowMark c)

/-- After white space, the scalar does not go on with a word at this place. -/
def endsAfterGap (flow : Bool) (indent column : Int) (word : List Char) : Bool :=
  (column = 0 && isMarker word) || word.head? = some '#' || (!flow && column < indent)

/-- Reads on after `done` (latest first) and a gap. Lines that continue the scalar are indented by
`indent` columns at least. -/
def read (flow : Bool) (indent : Int) (done : List Char) (gap : Gap) :
    List Char → Nat → Nat → Except Error Result
  | [], line, column =>
    .ok ⟨String.ofList done.reverse, ⟨[], line, column⟩, gap.isMultiline⟩
  | c :: rest, line, column =>
    if isBreak c then
      read flow indent done (gap.push c) rest (line + 1) 0
    else if isBlank c then
      if c = '\t' && gap.isMultiline && column < indent then
        .error .tabIndentation
      else
        read flow indent done (gap.push c) rest line (column + 1)
    else if gap ≠ .none && endsAfterGap flow indent column (c :: rest) then
      .ok ⟨String.ofList done.reverse, ⟨c :: rest, line, column⟩, gap.isMultiline⟩
    else if flow && c = ':' && isColonConflict rest then
      .error .colonInPlain
    else if endsWord flow c rest then
      .ok ⟨String.ofList done.reverse, ⟨c :: rest, line, column⟩, gap.isMultiline⟩
    else
      read flow indent (c :: (gap.fold.reverse ++ done)) .none rest line (column + 1)

end AclTree.Yaml.Plain
