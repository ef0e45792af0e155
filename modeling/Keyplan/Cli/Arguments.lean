import Keyplan.Suggestion.EditDistance
import Keyplan.Text.LowerCase
import Keyplan.Text.Quoted

/-!
The arguments of the command line: a command, flags anywhere, and the arguments of the command. A
flag is a switch or takes a value; short flags can be written together.
-/

namespace Keyplan.Cli

/-! ## Commands and flags -/

inductive Command where
  | compile
  | diagram
  | fmt
  | summary
  | test
  deriving DecidableEq, Repr

namespace Command

def all : List Command := [.compile, .diagram, .fmt, .summary, .test]

def name : Command → String
  | compile => "compile"
  | diagram => "diagram"
  | fmt => "fmt"
  | summary => "show"
  | test => "test"

def ofName? (s : String) : Option Command :=
  all.find? fun c => c.name == s

end Command

structure Flag where
  name : String
  short : Char
  isSwitch : Bool
  deriving DecidableEq, Repr

namespace Flag

def verbose : Flag := ⟨"verbose", 'v', true⟩

def config : Flag := ⟨"config", 'c', false⟩

def help : Flag := ⟨"help", 'h', true⟩

def output : Flag := ⟨"output", 'o', false⟩

def write : Flag := ⟨"write", 'w', true⟩

def common : List Flag := [verbose, config]

end Flag

def Command.flags : Command → List Flag
  | compile => [.output, .help] ++ Flag.common
  | diagram => [.output, .help] ++ Flag.common
  | fmt => [.write, .help] ++ Flag.common
  | summary => .help :: Flag.common
  | test => .help :: Flag.common

/-! ## Settings -/

structure Setting where
  flag : Flag
  value : String
  deriving DecidableEq, Repr

def truthValue? (s : String) : Option Bool :=
  if s ∈ ["1", "t", "T", "TRUE", "true", "True"] then some true
  else if s ∈ ["0", "f", "F", "FALSE", "false", "False"] then some false
  else none

/-- Gives a flag a value; a switch takes truth values only. -/
def Flag.assign (f : Flag) (value : String) : Except String Setting :=
  if f.isSwitch ∧ truthValue? value = none then
    let quoted := quotedString value
    .error ("invalid argument " ++ quoted ++ " for \"-" ++ String.singleton f.short ++ ", --"
      ++ f.name ++ "\" flag: strconv.ParseBool: parsing " ++ quoted ++ ": invalid syntax")
  else .ok ⟨f, value⟩

/-- A flag that waits for its value, and what is said if there is none. -/
structure Awaiting where
  flag : Flag
  missing : String

/-- What reading one argument yields: settings, and perhaps a flag that waits for its value. -/
abbrev Reading := List Setting × Option Awaiting

/-- The parts of a text before and behind its first equality sign. -/
def splitAtEquals (cs : List Char) : List Char × Option (List Char) :=
  match cs.dropWhile (· != '=') with
  | _ :: value => (cs.takeWhile (· != '='), some value)
  | [] => (cs, none)

/-- Reads a long flag behind its two dashes. -/
def readLong (flags : List Flag) (body : List Char) : Except String Reading := do
  if body.head?.any fun c => c == '-' || c == '=' then
    throw ("bad flag syntax: --" ++ String.ofList body)
  let (name, value?) := splitAtEquals body
  let name := String.ofList name
  match flags.find? fun f => f.name == name with
  | none => throw ("unknown flag: --" ++ name)
  | some f =>
    match value? with
    | some value => return ([← f.assign (String.ofList value)], none)
    | none =>
      if f.isSwitch then return ([⟨f, "true"⟩], none)
      else return ([], some ⟨f, "flag needs an argument: --" ++ name⟩)

/-- The letter an unknown short flag is reported by; all that is beyond ASCII is reported alike. -/
def reportedLetter (c : Char) : Char :=
  if c.toNat < 0x80 then c else 'Ã'

/-- Reads short flags behind their dash. What starts with `test.` is left to the test runner. -/
def readShort (flags : List Flag) : List Char → Except String Reading
  | [] => .ok ([], none)
  | 't' :: 'e' :: 's' :: 't' :: '.' :: _ => .ok ([], none)
  | c :: rest => do
    let written := "-" ++ String.ofList (c :: rest)
    match flags.find? fun f => f.short == c with
    | none =>
      throw ("unknown shorthand flag: " ++ quotedChar (reportedLetter c) ++ " in " ++ written)
    | some f =>
      match rest with
      | '=' :: v :: value => return ([← f.assign (String.ofList (v :: value))], none)
      | _ =>
        if f.isSwitch then
          let (settings, awaiting) ← readShort flags rest
          return (⟨f, "true"⟩ :: settings, awaiting)
        else if rest.isEmpty then
          return ([], some ⟨f, "flag needs an argument: " ++ quotedChar c ++ " in " ++ written⟩)
        else return ([← f.assign (String.ofList rest)], none)

structure Arguments where
  settings : List Setting := []
  others : List String := []

/-- Reads arguments, the first of which is the value of the flag that waits for one. Two dashes end
the flags. -/
def readFlags (flags : List Flag) (awaiting : Option Awaiting) :
    List String → Except String Arguments
  | [] =>
    match awaiting with
    | none => .ok {}
    | some a => .error a.missing
  | arg :: rest =>
    match awaiting with
    | some a => do
      let setting ← a.flag.assign arg
      let others ← readFlags flags none rest
      return { others with settings := setting :: others.settings }
    | none =>
      match arg.toList with
      | ['-', '-'] => .ok { others := rest }
      | '-' :: '-' :: body => do
        let (settings, awaiting) ← readLong flags body
        let others ← readFlags flags awaiting rest
        return { others with settings := settings ++ others.settings }
      | '-' :: c :: body => do
        let (settings, awaiting) ← readShort flags (c :: body)
        let others ← readFlags flags awaiting rest
        return { others with settings := settings ++ others.settings }
      | _ => do
        let others ← readFlags flags none rest
        return { others with others := arg :: others.others }

namespace Arguments

/-- The value a flag was given last. -/
def value (a : Arguments) (f : Flag) : String :=
  ((a.settings.filter (·.flag = f)).getLast?.map (·.value)).getD ""

def isOn (a : Arguments) (f : Flag) : Bool :=
  (truthValue? (a.value f)).getD false

end Arguments

/-! ## Finding the command -/

/-- Whether the argument behind `arg` looks like its value, as far as the common flags tell. -/
def takesNext (arg : String) : Bool :=
  let switch := fun (p : Flag → Bool) => Flag.common.any fun f => f.isSwitch && p f
  match arg.toList with
  | '-' :: '-' :: name => !name.contains '=' && !switch (·.name.toList == name)
  | ['-', c] => c != '=' && c.toNat < 0x80 && !switch (·.short == c)
  | _ => false

/-- Whether an argument is neither a flag nor empty. -/
def isWord (arg : String) : Bool :=
  arg.toList.head?.any (· != '-')

/-- The first word that is no flag and no value of one. A last argument behind a flag counts as its
value. -/
def commandWord? : List String → Option String
  | [] => none
  | arg :: rest =>
    if arg = "--" then none
    else if takesNext arg then
      match rest with
      | _ :: next :: more => commandWord? (next :: more)
      | _ => none
    else if isWord arg then some arg
    else commandWord? rest

/-- The arguments without the first `word` that is no value of a flag. -/
def dropWord (word : String) : List String → List String
  | [] => []
  | arg :: rest =>
    if arg = "--" then arg :: rest
    else if takesNext arg then
      match rest with
      | next :: more => arg :: next :: dropWord word more
      | [] => [arg]
    else if arg = word then rest
    else arg :: dropWord word rest

/-- The names an unknown command is compared with. -/
def knownNames : List String :=
  Command.all.map Command.name ++ ["completion"]

/-- The largest edit distance at which a name is suggested. -/
def maxDistance : Nat := 2

/-- Whether a name is suggested for an unknown command: it is close to it, or starts with it. -/
def isSuggested (unknown name : String) : Bool :=
  let lowered := String.ofList (lowerCase unknown)
  EditDistance.distance lowered.toUTF8.toList name.toUTF8.toList ≤ maxDistance
    || lowered.toList.isPrefixOf name.toList

def unknownCommand (word : String) : String :=
  let suggestions := knownNames.filter (isSuggested word)
  "unknown command " ++ quotedString word ++ " for \"kbdl\""
    ++ if suggestions.isEmpty then ""
       else "\n\nDid you mean this?\n" ++ String.join (suggestions.map fun s => "\t" ++ s ++ "\n")

inductive Request where
  | help
  | run (command : Command) (arguments : Arguments)

def checkCount (c : Command) (count : Nat) : Except String Unit :=
  match c with
  | .test =>
    if count = 1 then .ok () else .error s!"accepts 1 arg(s), received {count}"
  | _ =>
    if count ≤ 1 then .ok () else .error s!"accepts at most 1 arg(s), received {count}"

def parse (args : List String) : Except String Request := do
  match commandWord? args with
  | none =>
    let _ ← readFlags (.help :: Flag.common) none args
    return .help
  | some word =>
    if word ∈ ["help", "completion"] then return .help
    match Command.ofName? word with
    | none => throw (unknownCommand word)
    | some command =>
      let arguments ← readFlags command.flags none (dropWord word args)
      -- Help comes before the arguments are counted.
      if arguments.isOn .help then return .help
      checkCount command arguments.others.length
      return .run command arguments

end Keyplan.Cli
