import Keyplan.Text.Blank
import Keyplan.Text.LowerCase
import Keyplan.Text.Quoted

/-!
Log lines: a level, a message, and named values.
-/

namespace Keyplan

inductive LogLevel where
  | debug
  | info
  | warn
  | error
  | fatal
  deriving DecidableEq, Repr

namespace LogLevel

def all : List LogLevel := [.debug, .info, .warn, .error, .fatal]

def name : LogLevel → String
  | debug => "debug"
  | info => "info"
  | warn => "warn"
  | error => "error"
  | fatal => "fatal"

def rank : LogLevel → Nat
  | debug => 0
  | info => 1
  | warn => 2
  | error => 3
  | fatal => 4

def mark : LogLevel → String
  | debug => "DEBU"
  | info => "INFO"
  | warn => "WARN"
  | error => "ERRO"
  | fatal => "FATA"

/-- The level of a name, in upper or lower case. -/
def ofName? (s : String) : Option LogLevel :=
  all.find? fun l => l.name.toList == lowerCase s

/-- The level a program logs at: everything when it is verbose, else the configured level. An empty
name stands for the usual one. -/
def choose (name : String) (verbose : Bool) : Except String LogLevel :=
  if verbose then .ok .debug
  else if name = "" then .ok .info
  else match ofName? name with
    | some l => .ok l
    | none =>
      let quoted := quotedString name
      .error ("invalid log_level " ++ quoted ++ ": invalid level: " ++ quoted)

end LogLevel

structure LogEntry where
  level : LogLevel
  message : String
  values : List (String × String) := []
  deriving DecidableEq, Repr

namespace LogEntry

/-- Whether a character can stand in a value without quotes: it is shown as it is, and is neither a
blank nor a sign that values and their names are told apart by. -/
def isBare (c : Char) : Bool :=
  isPrintable c && !isWhiteSpace c && !(c ∈ ['\"', '=', '\uFFFD'])

/-- One character of a value, with everything escaped that cannot be shown. -/
def valueChar (c : Char) : String :=
  if c = '\\' ∨ c = '\"' then String.singleton c
  else if c = '\x7f' then "\\u007f"
  else Quoted.char '\"' c

def quotedValueChar (c : Char) : String :=
  if c = '\"' then "\\\"" else valueChar c

/-- A value, in quotes where it is empty or holds a character that needs them. -/
def valueText (s : String) : String :=
  if s = "" then "\"\""
  else if s.toList.all isBare then s
  else "\"" ++ String.join (s.toList.map quotedValueChar) ++ "\""

/-- The lines of a value, each behind a bar; the last one has an end of its own when `more` values
follow. -/
def valueLines (more : Bool) (lines : List String) : String :=
  let shown := lines.map fun l => "  │ " ++ String.join (l.toList.map valueChar)
  match lines.getLast? with
  | some "" => String.join (shown.dropLast.map (· ++ "\n"))
  | _ => "\n".intercalate shown ++ if more then "\n" else ""

/-- A named value of an entry; `more` tells whether others follow. -/
def valueField (key value : String) (more : Bool) : String :=
  match value.splitOn "\n" with
  | [_] => " " ++ key ++ "=" ++ valueText value
  | lines => "\n  " ++ key ++ "=\n" ++ valueLines more lines

def valueFields : List (String × String) → String
  | [] => ""
  | (key, value) :: rest => valueField key value (!rest.isEmpty) ++ valueFields rest

/-- The entry as a line, without its end. A value of several lines is written below it. -/
def line (e : LogEntry) : String :=
  e.level.mark ++ " kbdl: " ++ e.message ++ valueFields e.values

end LogEntry

end Keyplan
