/-
Scalars in quotes. Between single quotes only the quote itself is escaped, by
writing it twice; between double quotes a backslash starts an escape, and one
at the end of a line takes the break away.
-/
import AclTree.Yaml.Scalar.Folding

namespace AclTree.Yaml.Quoted

/-- Where the reader of a double-quoted scalar stands. -/
inductive State where
  | text
  /-- After a backslash. -/
  | escape
  /-- In a code point: the digits still to come, the value so far. -/
  | digits (left value : Nat)
  deriving DecidableEq

/-- The escapes that stand for one character. -/
def simpleEscape : Char → Option Char
  | '0' => some '\x00'
  | 'a' => some '\x07'
  | 'b' => some '\x08'
  | 't' => some '\t'
  | '\t' => some '\t'
  | 'n' => some '\n'
  | 'v' => some '\x0b'
  | 'f' => some '\x0c'
  | 'r' => some '\r'
  | 'e' => some '\x1b'
  | ' ' => some ' '
  | '"' => some '"'
  | '/' => some '/'
  | '\\' => some '\\'
  | 'N' => some '\u0085'
  | '_' => some '\u00a0'
  | 'L' => some '\u2028'
  | 'P' => some '\u2029'
  | _ => none

/-- How many hexadecimal digits an escape takes. -/
def digitCount : Char → Option Nat
  | 'x' => some 2
  | 'u' => some 4
  | 'U' => some 8
  | _ => none

/-- The text up to the closing single quote, after `done` (latest first) and a gap. -/
def single (done : List Char) (gap : Gap) : List Char → Nat → Nat → Except Error (String × Cursor)
  | [], _, _ => .error .openQuote
  | c :: rest, line, column =>
    if isBreak c then
      single done (gap.push c) rest (line + 1) 0
    else if isBlank c then
      single done (gap.push c) rest line (column + 1)
    else if column = 0 && isMarker (c :: rest) then
      .error .markerInQuote
    else
      let done := gap.fold.reverse ++ done
      if c = '\'' then
        match rest with
        | '\'' :: rest => single ('\'' :: done) .none rest line (column + 2)
        | _ => .ok (String.ofList done.reverse, ⟨rest, line, column + 1⟩)
      else
        single (c :: done) .none rest line (column + 1)

/-- The text up to the closing double quote, after `done` (latest first) and a gap. -/
def double (state : State) (done : List Char) (gap : Gap) :
    List Char → Nat → Nat → Except Error (String × Cursor)
  | [], _, _ => .error .openQuote
  | c :: rest, line, column =>
    match state with
    | .text =>
      if isBreak c then
        double .text done (gap.push c) rest (line + 1) 0
      else if isBlank c then
        double .text done (gap.push c) rest line (column + 1)
      else if column = 0 && isMarker (c :: rest) then
        .error .markerInQuote
      else
        let done := gap.fold.reverse ++ done
        if c = '"' then
          .ok (String.ofList done.reverse, ⟨rest, line, column + 1⟩)
        else if c = '\\' then
          double .escape done .none rest line (column + 1)
        else
          double .text (c :: done) .none rest line (column + 1)
    | .escape =>
      if isBreak c then
        double .text done (.lines none []) rest (line + 1) 0
      else
        match simpleEscape c, digitCount c with
        | some d, _ => double .text (d :: done) .none rest line (column + 1)
        | none, some left => double (.digits left 0) done .none rest line (column + 1)
        | none, none => .error .badEscape
    | .digits left value =>
      match hexValue c with
      | none => .error .badEscape
      | some digit =>
        let value := value * 16 + digit
        if left ≤ 1 then
          if value.isValidChar then
            double .text (Char.ofNat value :: done) .none rest line (column + 1)
          else
            .error .badEscape
        else
          double (.digits (left - 1) value) done .none rest line (column + 1)

end AclTree.Yaml.Quoted
