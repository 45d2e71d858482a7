/-
The gap between two words of a scalar. On one line it stays as it is; over
line breaks it is folded: a single break becomes a space, of several the first
is dropped.
-/
import AclTree.Yaml.Source

namespace AclTree.Yaml

/-- White space met since the last word, latest first. -/
inductive Gap where
  | blanks (spaces : List Char)
  /-- After a line break. The first one is none if it was escaped. -/
  | lines (first : Option Char) (more : List Char)
  deriving DecidableEq

namespace Gap

def none : Gap := .blanks []

/-- The gap goes over a line break. -/
def isMultiline : Gap → Bool
  | blanks _ => false
  | lines _ _ => true

/-- The gap with one more blank or line break. Blanks at the start of a line do not count. -/
def push (c : Char) : Gap → Gap
  | blanks spaces => if isBreak c then lines (some c) [] else blanks (c :: spaces)
  | lines first more => if isBreak c then lines first (c :: more) else lines first more

/-- What the gap contributes to the scalar. -/
def fold : Gap → List Char
  | blanks spaces => spaces.reverse
  | lines (some '\n') [] => [' ']
  | lines (some '\n') more => more.reverse
  | lines (some c) more => c :: more.reverse
  | lines Option.none more => more.reverse

end Gap
end AclTree.Yaml
