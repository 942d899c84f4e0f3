import NumericPython.Command.Arguments
import NumericPython.Command.Help
import NumericPython.Command.Host
import NumericPython.Settings.Read

set_option autoImplicit false

/-!
Commands. All source files are processed before the first output is written; a file that has no
output does not keep the others from having theirs, but makes the command fail.
-/

namespace NumericPython

structure Failure where
  message : String
  cause : Option String
deriving DecidableEq

def Failure.text (failure : Failure) : String :=
  match failure.cause with
  | none => "Error: " ++ failure.message ++ "\n"
  | some cause => "Error: " ++ failure.message ++ "\n\nCaused by:\n    " ++ cause ++ "\n"

def MessageFormat.report (draw : String → UnitError → String) :
    MessageFormat → String → UnitError → String
  | .human => draw
  | .short => UnitError.short

namespace Settings

variable {m : Type → Type} [Monad m]

def load (host : Host m) (path : String) : m (Except Failure Settings) := do
  match ← host.readText path with
  | .error fault =>
    pure (.error ⟨"Failed to read config file: " ++ path, some fault.message⟩)
  | .ok text =>
    match ofText? text with
    | some settings => pure (.ok settings)
    | none =>
      pure (.error ⟨"Failed to parse config file: " ++ path, some "not a settings file"⟩)

def fileName : String := "heron.toml"

def find (host : Host m) (directory : String) : m (Except Failure Settings) := do
  let path := Path.join directory fileName
  if ← host.isFile path then load host path else pure (.ok {})

end Settings

namespace Command

variable {m : Type → Type} [Monad m]

def processFile (host : Host m) (settings : Settings) (path : String) :
    m (Except UnitError Processed) := do
  match ← host.readText path with
  | .error fault => pure (.error (.unreadable path fault))
  | .ok text =>
    let answer ← host.parse path text
    pure (Processed.ofText (fun _ => answer) settings path text)

abbrev Results := List (String × Except UnitError Processed)

def processFiles (host : Host m) (settings : Settings) (paths : List String) : m Results :=
  paths.mapM fun path => do return (path, ← processFile host settings path)

def directoryOf (files : List String) : String :=
  match files.head?.bind Path.parent? with
  | some parent => if parent.isEmpty then "." else parent
  | none => "."

def render (emit : Emit) (processed : Processed) : String :=
  match emit with
  | .python => processed.output
  | .ast => processed.dump.pretty 0 ++ "\n"

def outputPath (directory input : String) (emit : Emit) : String :=
  Path.join directory ((Path.fileStem? input).getD "out" ++ "." ++ emit.extension)

def deliver (host : Host m) (emit : Emit) (outDir : Option String) (path : String)
    (processed : Processed) : ExceptT Failure m Unit := do
  let text := render emit processed
  match outDir with
  | none => host.writeOut text
  | some directory =>
    let target := outputPath directory path emit
    match ← host.writeText target text with
    | .ok () => host.writeErr ("Wrote " ++ target ++ "\n")
    | .error fault => throw ⟨"Failed to write " ++ target, some fault.message⟩

def deliverAll (host : Host m) (emit : Emit) (outDir : Option String) :
    Results → ExceptT Failure m Nat
  | [] => pure 0
  | (path, .ok processed) :: rest => do
    deliver host emit outDir path processed
    deliverAll host emit outDir rest
  | (path, .error error) :: rest => do
    host.writeErr (host.draw path error)
    return (← deliverAll host emit outDir rest) + 1

def runTranslate (host : Host m) (files : List String) (emit : Emit) (config outDir : Option String) :
    ExceptT Failure m Unit := do
  let settings ← ExceptT.mk <|
    match config with
    | some path => Settings.load host path
    | none => Settings.find host (directoryOf files)
  if let some directory := outDir then
    match ← host.createDirectories directory with
    | .ok () => pure ()
    | .error fault =>
      throw ⟨"Failed to create output directory: " ++ directory, some fault.message⟩
  let results ← (processFiles host settings files : m Results)
  let failures ← deliverAll host emit outDir results
  if 0 < failures then throw ⟨toString failures ++ " file(s) could not be translated", none⟩

def reportAll (host : Host m) (format : MessageFormat) : Results → m Nat
  | [] => pure 0
  | (path, .ok processed) :: rest => do
    host.writeOut ("  ✓ " ++ path ++ " (" ++ toString processed.lowered.body.length ++
      " statements)\n")
    reportAll host format rest
  | (path, .error error) :: rest => do
    host.writeErr ("  ✗ " ++ path ++ "\n")
    host.writeErr (format.report host.draw path error)
    return (← reportAll host format rest) + 1

def runCheck (host : Host m) (format : MessageFormat) (files : List String) :
    ExceptT Failure m Unit := do
  host.writeOut ("Checking " ++ toString files.length ++ " file(s)\n")
  let results ← (processFiles host {} files : m Results)
  let failures ← (reportAll host format results : m Nat)
  host.writeOut "\n"
  if 0 < failures then
    host.writeErr ("Failed: " ++ toString failures ++ " file(s) failed\n")
    throw ⟨"Check failed with " ++ toString failures ++ " errors", none⟩
  host.writeOut "Success: No errors found\n"

def run (host : Host m) : Command → ExceptT Failure m Unit
  | .translate files emit config outDir => runTranslate host files emit config outDir
  | .check files format => runCheck host format files
  | .version => host.writeOut "heron 0.1.0\n"
  | .help topic isLong => host.writeOut (topic.text isLong)

/-- Runs a command line and gives its exit status: one if the command fails, two if the command
line is wrong. -/
def runLine (host : Host m) (arguments : List String) : m UInt32 := do
  match ofArguments? arguments with
  | none =>
    host.writeErr HelpTopic.usage
    pure 2
  | some command =>
    match ← (command.run host).run with
    | .ok () => pure 0
    | .error failure =>
      host.writeErr failure.text
      pure 1

end Command

end NumericPython
