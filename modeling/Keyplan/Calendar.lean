/-!
The civil calendar: which dates exist, and dates and times of day as they are written.
-/

namespace Keyplan.Calendar

def isLeap (year : Nat) : Bool :=
  year % 4 == 0 && (year % 100 != 0 || year % 400 == 0)

/-- The number of days of a month, counted from 1. -/
def daysIn (year month : Nat) : Nat :=
  if month = 2 then (if isLeap year then 29 else 28)
  else if month ∈ [4, 6, 9, 11] then 30
  else 31

def isDate (year month day : Nat) : Bool :=
  1 ≤ month && month ≤ 12 && 1 ≤ day && day ≤ daysIn year month

def isTime (hour minute second : Nat) : Bool :=
  hour < 24 && minute < 60 && second < 60

def digit? (c : Char) : Option Nat :=
  if c.isDigit then some (c.toNat - '0'.toNat) else none

/-- Reads exactly `n` digits. -/
def readFixed? : Nat → List Char → Option (Nat × List Char)
  | 0, cs => some (0, cs)
  | _ + 1, [] => none
  | n + 1, c :: cs => do
    let d ← digit? c
    let (rest, cs) ← readFixed? n cs
    return (d * Nat.pow 10 n + rest, cs)

/-- Reads one digit, or two if a second one follows. -/
def readShort? (cs : List Char) : Option (Nat × List Char) :=
  match readFixed? 2 cs with
  | some found => some found
  | none => readFixed? 1 cs

def expect? (c : Char) : List Char → Option (List Char)
  | [] => none
  | d :: rest => if d = c then some rest else none

end Keyplan.Calendar
