import Keyplan.Cli.Arguments
import Keyplan.Cli.Summary
import Keyplan.Config
import Keyplan.Golden.Listing
import Keyplan.Log

/-!
The command line: what each command reads, writes and says. The file system and the standard input
are asked in a monad, so that a run can be followed on a file system that is a value.
-/

namespace Keyplan.Cli

/-- What a run can ask of its surroundings. -/
structure Surroundings (m : Type → Type) extends Files m where
  input : m Text

/-- What was said so far. -/
structure Console where
  output : Text := []
  errors : Text := []

structure Outcome where
  succeeded : Bool
  output : Text
  errors : Text

/-- A run that may stop with a message. -/
abbrev Session (m : Type → Type) := ExceptT Text (StateT Console m)

variable {m : Type → Type} [Monad m]

/-! ## Saying things -/

def say (t : Text) : Session m Unit :=
  modify fun c => { c with output := c.output ++ t }

/-- Adds to the errors. -/
def complain (t : Text) : Session m Unit :=
  modify fun c => { c with errors := c.errors ++ t }

def stop {α : Type} (message : String) : Session m α :=
  throw (Text.ofString message)

/-- A result, or a stop with its message. -/
def orStop {ε α : Type} (message : ε → Text) : Except ε α → Session m α
  | .ok a => return a
  | .error e => throw (message e)

def lineOf (s : String) : Text :=
  Text.ofString (s ++ "\n")

def endLine (line : Text) : Text :=
  line ++ [Text.lineFeed]

/-- Whether a line of a message is set off from the others: the first line, a line of carets, and a
line of advice. -/
def isSetOff (line : Text) : Bool :=
  let t := line.trim
  let starts := fun (s : String) => (Text.ofString s).isPrefixOf t
  (t ≠ [] && t.all (· == .char '^')) || starts "help:" || starts "did you mean:"

def messageLines (message : Text) : Text :=
  match message.allLines with
  | [] => []
  | first :: rest =>
    let styled := Terminal.widenTabs
    let lines := styled first :: rest.map fun l => if isSetOff l then styled l else l
    lines.flatMap endLine

/-- A logger writes the entries of its level and above. -/
structure Logger where
  level : LogLevel

def Logger.log (l : Logger) (e : LogEntry) : Session m Unit :=
  if l.level.rank ≤ e.level.rank then complain (lineOf e.line) else pure ()

/-! ## Setting up -/

structure Setup where
  config : Config
  logger : Logger
  defaults : List DefaultOption

/-- Finds the configuration: the one that was asked for, else the one nearest to the first
argument. -/
def configFor (s : Surroundings m) (a : Arguments) : Session m Config := do
  let asked := a.value .config
  let found : m (Except Config.Fault Config) :=
    if asked ≠ "" then Config.load s.toFiles asked
    else Config.loadFor s.toFiles ((a.others.head?.map Path.directory).getD ".")
  orStop (fun e => Text.ofString e.message) (← found)

def setUp (s : Surroundings m) (a : Arguments) : Session m Setup := do
  let config ← configFor s a
  let level ← orStop Text.ofString (LogLevel.choose config.logLevel (a.isOn .verbose))
  let logger : Logger := ⟨level⟩
  if config.path ≠ "" then
    logger.log { level := .debug, message := "config loaded", values := [("path", config.path)] }
  for key in config.unknownKeys do
    logger.log
      { level := .warn
        message := "unknown config key"
        values := [("key", key), ("path", config.path)] }
  let defaults ← orStop Text.ofString config.defaults
  return { config := config, logger := logger, defaults := defaults.options }

/-! ## Commands -/

/-- The description named by the first argument, or the standard input. -/
def readOrigin (s : Surroundings m) (args : List String) : Session m Origin := do
  match args with
  | [] => return ⟨"stdin", ← s.input⟩
  | path :: _ =>
    let refusal := fun (e : FileError) =>
      Text.ofString ("cannot read the description " ++ path ++ ": " ++ e.message)
    return ⟨path, ← orStop refusal (← s.read path)⟩

def loadKeymap (u : Setup) (origin : Origin) : Session m Keymap := do
  let k ← orStop Failure.render (load origin u.defaults)
  let source := ("source", origin.name)
  u.logger.log
    { level := .debug
      message := "layout resolved"
      values := [source, ("width", toString k.layout.width), ("height", toString k.layout.height)] }
  u.logger.log
    { level := .debug
      message := "layers resolved"
      values := [source, ("layers", toString k.layers.length)] }
  return k

/-- Writes an artifact to a file, or to the output when there is no path. -/
def writeArtifact (s : Surroundings m) (u : Setup) (artifact path : String) : Session m Unit := do
  if path = "" then say (Text.ofString artifact)
  else
    let refusal := fun (e : FileError) =>
      Text.ofString ("cannot write an output file " ++ path ++ ": " ++ e.message)
    orStop refusal (← s.write path (Text.ofString artifact))
    u.logger.log
      { level := .info
        message := "written"
        values := [("path", path), ("bytes", toString artifact.utf8ByteSize)] }

def generate (s : Surroundings m) (u : Setup) (args : List String) (t : Target) (path : String) :
    Session m Unit := do
  let origin ← readOrigin s args
  let k ← loadKeymap u origin
  let artifact ← orStop Failure.render (quoting origin (t.emit k))
  writeArtifact s u artifact path

/-- Formats a description, in place if asked to. -/
def runFmt (s : Surroundings m) (u : Setup) (a : Arguments) : Session m Unit := do
  if a.isOn .write then
    match a.others with
    | [] => stop "-w needs a description file"
    | path :: _ => generate s u a.others .format path
  else generate s u a.others .format ""

def runShow (s : Surroundings m) (u : Setup) (args : List String) : Session m Unit := do
  let origin ← readOrigin s args
  let k ← loadKeymap u origin
  let t ← orStop Failure.render (quoting origin (Firmware.Table.build k))
  u.logger.log
    { level := .debug
      message := "chords allocated"
      values := [("chords", toString t.chords.length),
        ("rows", toString (t.rows - k.layout.height))] }
  say ((summary origin.name k t).flatMap endLine)

def complainUnread (f : Golden.Found) : Session m Unit :=
  match f.contents with
  | .ok _ => pure ()
  | .error reason => do
    complain (lineOf ("Failed to read a test case or a directory: " ++ f.path))
    complain (lineOf reason)

/-- The lines that report on a test case. The details of a failure are shown as they are. -/
def verdictLines (f : Golden.Found) (v : Golden.Verdict) : Text :=
  let report := v.report f.path
  let lines := if v.isPassed then Terminal.block report
    else match report.allLines with
      | [] => []
      | first :: rest => Terminal.widenTabs first :: rest
  lines.flatMap endLine

def runTest (s : Surroundings m) (u : Setup) (path : String) : Session m Unit := do
  let found ← (Golden.list s.toFiles path : m _)
  found.forM complainUnread
  -- No case is run unless all of them can be read.
  if found.any fun f => f.contents.toOption.isNone then stop "cannot run test"
  u.logger.log
    { level := .debug
      message := "test cases found"
      values := [("path", path), ("cases", toString found.length)] }
  let verdicts := found.map fun f => (f, f.run u.defaults)
  say (verdicts.flatMap fun (f, v) => verdictLines f v)
  if verdicts.any fun (_, v) => !v.isPassed then stop "test failed"

def outputOr (a : Arguments) (configured : String) : String :=
  if a.value .output = "" then configured else a.value .output

def runCommand (s : Surroundings m) (c : Command) (a : Arguments) : Session m Unit := do
  let u ← setUp s a
  match c with
  | .compile => generate s u a.others .firmware (outputOr a u.config.firmwareOutput)
  | .diagram => generate s u a.others .diagram (outputOr a u.config.diagramOutput)
  | .fmt => runFmt s u a
  | .summary => runShow s u a.others
  | .test => runTest s u (a.others.headD "")

def helpText : Text :=
  Text.ofString "Usage: kbdl <command> [flags]\n\nCommands:\n"
    ++ Command.all.flatMap fun c => lineOf ("  " ++ c.name)

def perform (s : Surroundings m) (args : List String) : Session m Unit := do
  match ← orStop Text.ofString (parse args) with
  | .help => say helpText
  | .run c a => runCommand s c a

/-- Runs the program; a message that stopped it is the last thing among the errors. -/
def run (s : Surroundings m) (args : List String) : m Outcome := do
  let (result, console) ← ((perform s args).run).run {}
  match result with
  | .ok _ => return ⟨true, console.output, console.errors⟩
  | .error message => return ⟨false, console.output, console.errors ++ messageLines message⟩

end Keyplan.Cli
