/-
Times as RFC 3339 writes them in UTC, from the seconds since the start of 1970
and the nanoseconds after the last of them.
-/

namespace AclTree.Cli.Clock

/-- A number with at least so many digits. -/
def padded (width n : Nat) : String := String.ofList (List.leftpad width '0' (toString n).toList)

/-- Year, month and day, from the days since the start of 1970. Years are counted from March on, so
that a leap day ends one, and go round in 400 years of 146097 days. -/
def date (days : Nat) : Nat × Nat × Nat :=
  let days := days + 719468
  let inEra := days % 146097
  let yearOfEra := (inEra - inEra / 1460 + inEra / 36524 - inEra / 146096) / 365
  let inYear := inEra - (365 * yearOfEra + yearOfEra / 4 - yearOfEra / 100)
  let sinceMarch := (5 * inYear + 2) / 153
  let day := inYear - (153 * sinceMarch + 2) / 5 + 1
  let month := if sinceMarch < 10 then sinceMarch + 3 else sinceMarch - 9
  let year := yearOfEra + days / 146097 * 400 + if month ≤ 2 then 1 else 0
  (year, month, day)

/-- The part of a second in thousandths, millionths or billionths, whichever is exact first. -/
def fraction (nanoseconds : Nat) : String :=
  if nanoseconds = 0 then ""
  else if nanoseconds % 1000000 = 0 then "." ++ padded 3 (nanoseconds / 1000000)
  else if nanoseconds % 1000 = 0 then "." ++ padded 6 (nanoseconds / 1000)
  else "." ++ padded 9 nanoseconds

def rfc3339 (seconds nanoseconds : Nat) : String :=
  let (year, month, day) := date (seconds / 86400)
  let inDay := seconds % 86400
  padded 4 year ++ "-" ++ padded 2 month ++ "-" ++ padded 2 day ++ "T"
    ++ padded 2 (inDay / 3600) ++ ":" ++ padded 2 (inDay / 60 % 60) ++ ":" ++ padded 2 (inDay % 60)
    ++ fraction nanoseconds ++ "+00:00"

end AclTree.Cli.Clock
