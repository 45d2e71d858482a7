/-
The content of a YAML document as a tree. Aliases stay in it; the values that
they stand for are kept beside it.
-/
import AclTree.Yaml.Token

namespace AclTree.Yaml

inductive Value where
  | scalar (style : Style) (tag : Option Tag) (text : String)
  | sequence (items : List Value)
  | mapping (pairs : List (Value × Value))
  /-- Stands for the value with a number. -/
  | reference (target : Nat)
  deriving Inhabited

namespace Value

/-- Nothing at all, as after a colon that ends its line. -/
def empty : Value := .scalar .plain none ""

mutual

/-- How many marks a value takes to write: one for a scalar or an alias, a start and an end for a
collection. -/
def size : Value → Nat
  | scalar _ _ _ => 1
  | reference _ => 1
  | sequence items => sizes items + 2
  | mapping pairs => pairSizes pairs + 2

def sizes : List Value → Nat
  | [] => 0
  | v :: rest => v.size + sizes rest

def pairSizes : List (Value × Value) → Nat
  | [] => 0
  | (k, v) :: rest => k.size + v.size + pairSizes rest

end

end Value

structure Document where
  content : Value
  /-- The values that aliases stand for, by number. -/
  anchored : List (Nat × Value)

end AclTree.Yaml
