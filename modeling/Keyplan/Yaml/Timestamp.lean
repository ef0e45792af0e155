import Keyplan.Calendar

/-!
Plain scalars that read as points in time: a date, a date and a time with an offset, or a date and
a time behind blanks. Fields other than the year may have one digit.
-/

namespace Keyplan.Yaml

open Calendar

namespace Timestamp

/-- Drops a fraction of a second, which starts with a point or a comma and has at least a digit. -/
def dropFraction : List Char → List Char
  | m :: d :: rest =>
    if (m = '.' ∨ m = ',') ∧ d.isDigit then rest.dropWhile Char.isDigit else m :: d :: rest
  | cs => cs

/-- Reads an offset from universal time: `Z`, or a sign, hours and minutes. -/
def readOffset? : List Char → Option (List Char)
  | 'Z' :: rest => some rest
  | sign :: cs => do
    let (hours, cs) ← readFixed? 2 cs
    let cs ← expect? ':' cs
    let (minutes, cs) ← readFixed? 2 cs
    if (sign = '+' ∨ sign = '-') ∧ hours ≤ 24 ∧ minutes ≤ 60 then some cs else none
  | [] => none

def readDate? (cs : List Char) : Option (List Char) := do
  let (year, cs) ← readFixed? 4 cs
  let cs ← expect? '-' cs
  let (month, cs) ← readShort? cs
  let cs ← expect? '-' cs
  let (day, cs) ← readShort? cs
  if isDate year month day then some cs else none

def readTime? (cs : List Char) : Option (List Char) := do
  let (hour, cs) ← readShort? cs
  let cs ← expect? ':' cs
  let (minute, cs) ← readShort? cs
  let cs ← expect? ':' cs
  let (second, cs) ← readShort? cs
  if isTime hour minute second then some (dropFraction cs) else none

def readRest? : List Char → Option (List Char)
  | [] => some []
  | ' ' :: cs => readTime? (cs.dropWhile (· == ' '))
  | c :: cs => if c = 'T' ∨ c = 't' then readTime? cs >>= readOffset? else none

end Timestamp

/-- Whether a plain scalar reads as a point in time. -/
def isTimestamp (cs : List Char) : Bool :=
  (Timestamp.readDate? cs >>= Timestamp.readRest?) == some []

end Keyplan.Yaml
