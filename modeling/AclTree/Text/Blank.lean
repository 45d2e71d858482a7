/-
White space as Unicode's property `White_Space` has it, twenty-five code
points, and texts without it at their ends.
-/
import AclTree.Text.CodeSet

namespace AclTree.Text

/-- The code points with the property `White_Space`. -/
def blanks : CodeSet :=
  ⟨[0x9, 0xe, 0x20, 0x21, 0x85, 0x86, 0xa0, 0xa1, 0x1680, 0x1681, 0x2000, 0x200b, 0x2028, 0x202a,
    0x202f, 0x2030, 0x205f, 0x2060, 0x3000, 0x3001]⟩

def isBlank (c : Char) : Bool := blanks.contains c.toNat

/-- A text of white space alone, the empty text among them. -/
def isBlankText (text : String) : Bool := text.toList.all isBlank

def trimEnd (text : String) : String :=
  String.ofList (text.toList.reverse.dropWhile isBlank).reverse

def trim (text : String) : String := trimEnd (String.ofList (text.toList.dropWhile isBlank))

end AclTree.Text
