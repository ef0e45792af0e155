import Keyplan.Calendar

/-!
Dates and times of a configuration file: a date and a time with an offset, without one, or only one
of the two.
-/

namespace Keyplan.Toml

open Calendar

/-- What a date or time is relative to. -/
inductive Zone where
  /-- Universal time. -/
  | universal
  /-- Minutes ahead of universal time. -/
  | offset (minutes : Int)
  /-- A date and a time of any place. -/
  | localDateTime
  /-- A date of any place. -/
  | localDate
  /-- A time of any place and day. -/
  | localTime
  deriving DecidableEq, Repr

/-- A date and a time. What is not written is zero, or the first of January. -/
structure Moment where
  year : Nat := 0
  month : Nat := 1
  day : Nat := 1
  hour : Nat := 0
  minute : Nat := 0
  second : Nat := 0
  nanosecond : Nat := 0
  zone : Zone
  deriving DecidableEq, Repr

namespace Moment

/-! ## Reading -/

def readDate? (cs : List Char) : Option (Moment × List Char) := do
  let (year, cs) ← readFixed? 4 cs
  let cs ← expect? '-' cs
  let (month, cs) ← readFixed? 2 cs
  let cs ← expect? '-' cs
  let (day, cs) ← readFixed? 2 cs
  if isDate year month day then
    some ({ year := year, month := month, day := day, zone := .localDate }, cs)
  else none

/-- Reads the digits of a fraction of a second, of which nine count. -/
def readFraction? : List Char → Option (Nat × List Char)
  | '.' :: cs => do
    let digits := cs.takeWhile Char.isDigit
    if digits.isEmpty then none
    else
      let (n, _) ← readFixed? 9 (digits ++ List.replicate 9 '0')
      some (n, cs.dropWhile Char.isDigit)
  | cs => some (0, cs)

def readTime? (m : Moment) (cs : List Char) : Option (Moment × List Char) := do
  let (hour, cs) ← readFixed? 2 cs
  let cs ← expect? ':' cs
  let (minute, cs) ← readFixed? 2 cs
  let cs ← expect? ':' cs
  let (second, cs) ← readFixed? 2 cs
  let (nanosecond, cs) ← readFraction? cs
  if isTime hour minute second then
    some ({ m with hour := hour, minute := minute, second := second, nanosecond := nanosecond }, cs)
  else none

def readZone? : List Char → Option Zone
  | [] => some .localDateTime
  | [c] => if c = 'Z' ∨ c = 'z' then some .universal else none
  | sign :: cs => do
    let (hours, cs) ← readFixed? 2 cs
    let cs ← expect? ':' cs
    let (minutes, cs) ← readFixed? 2 cs
    let ahead : Int := hours * 60 + minutes
    if cs ≠ [] ∨ hours > 24 ∨ minutes > 60 then none
    else if ahead = 0 ∧ (sign = '+' ∨ sign = '-') then some .universal
    else if sign = '+' then some (.offset ahead)
    else if sign = '-' then some (.offset (-ahead))
    else none

/-- Reads a date, a time, or both. -/
def read? (cs : List Char) : Option Moment :=
  match readDate? cs with
  | some (m, []) => some m
  | some (m, c :: rest) => do
    if c ≠ 'T' ∧ c ≠ 't' ∧ c ≠ ' ' then none
    else
      let (m, rest) ← readTime? m rest
      let zone ← readZone? rest
      some { m with zone := zone }
  | none =>
    match readTime? { zone := .localTime } cs with
    | some (m, []) => some m
    | _ => none

/-! ## Writing -/

/-- A number with at least `width` digits. -/
def padded (width n : Nat) : String :=
  let digits := Nat.toDigits 10 n
  String.ofList (List.replicate (width - digits.length) '0' ++ digits)

/-- A fraction of a second without final zeros, and with its point. -/
def fractionText (nanosecond : Nat) : String :=
  let digits := ((padded 9 nanosecond).toList.reverse.dropWhile (· == '0')).reverse
  if digits.isEmpty then "" else "." ++ String.ofList digits

/-- Hours and minutes ahead of universal time. -/
def offsetText (minutes : Int) : String :=
  (if minutes < 0 then "-" else "+")
    ++ padded 2 (minutes.natAbs / 60) ++ padded 2 (minutes.natAbs % 60)

def zoneText : Zone → String
  | .universal => "+0000 UTC"
  | .offset minutes => offsetText minutes ++ " " ++ offsetText minutes
  | .localDateTime => "+0000 datetime-local"
  | .localDate => "+0000 date-local"
  | .localTime => "+0000 time-local"

/-- The date, the time and the zone. -/
def shown (m : Moment) : String :=
  padded 4 m.year ++ "-" ++ padded 2 m.month ++ "-" ++ padded 2 m.day ++ " "
    ++ padded 2 m.hour ++ ":" ++ padded 2 m.minute ++ ":" ++ padded 2 m.second
    ++ fractionText m.nanosecond ++ " " ++ zoneText m.zone

end Moment

end Keyplan.Toml
