/-
JSON values, and how records are read from them: as an object, or as an array
of the fields in their order, whose tail may be missing.
-/

namespace AclTree

/-- A JSON value. A number is an integer over a power of ten; the members of an object keep their
order. -/
inductive Json where
  | null
  | bool (value : Bool)
  | number (mantissa : Int) (decimals : Nat)
  | string (value : String)
  | array (items : List Json)
  | object (members : List (String × Json))
  deriving Inhabited

namespace Json

def nat (n : Nat) : Json := .number n 0

def strings (texts : List String) : Json := .array (texts.map .string)

/-- The members of an object without those that are absent. -/
def present (members : List (String × Option Json)) : Json :=
  .object (members.filterMap fun (key, value) => value.map (key, ·))

/-! ## Reading -/

def string? : Json → Option String
  | .string s => some s
  | _ => none

def bool? : Json → Option Bool
  | .bool b => some b
  | _ => none

def array? : Json → Option (List Json)
  | .array items => some items
  | _ => none

/-- A list whose items all read. -/
def list? {α : Type} (item? : Json → Option α) (j : Json) : Option (List α) := do
  (← j.array?).mapM item?

/-- No name occurs twice among the keys; other keys may. -/
def distinct (names : List String) (members : List (String × Json)) : Bool :=
  names.all fun name => members.countP (·.1 == name) ≤ 1

/-- The fields of a record, by name. Unknown members are passed over, a known one that occurs twice
is refused, as is an array with more items than the record has fields. -/
def record? (names : List String) : Json → Option (String → Option Json)
  | .object members => if distinct names members then some (List.lookup · members) else none
  | .array items => if items.length ≤ names.length then some (List.lookup · (names.zip items)) else none
  | _ => none

/-- A field that has to be there. -/
def required {α : Type} (read? : Json → Option α) (field : Option Json) : Option α :=
  field.bind read?

/-- A field that may be missing. -/
def defaulted {α : Type} (read? : Json → Option α) (default : α) : Option Json → Option α
  | none => some default
  | some j => read? j

/-- A field that may be missing or null. -/
def optional {α : Type} (read? : Json → Option α) : Option Json → Option (Option α)
  | none => some none
  | some .null => some none
  | some j => (read? j).map some

end Json
end AclTree
