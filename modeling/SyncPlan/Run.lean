import SyncPlan.CommandLine
import SyncPlan.ConfigFile.Loading
import SyncPlan.Log.Filter
import SyncPlan.Plan.Json
import SyncPlan.Plan.Lines

/-!
A whole run: the command line is read, then the config file, then the options of both are turned
into a plan, which is printed. The first step that fails ends the run, and what it says is the only
diagnostic.
-/

namespace SyncPlan

/-- What a run depends on besides its arguments and the disk: two variables, and whether its output
is a terminal. -/
structure Environment where
  noColor : Option String := none
  logFilter : Option String := none
  onTerminal : Bool := false
  deriving DecidableEq, Repr

/-- Lines of the log are styled unless the variable against colours is set to some text. The labels
of a plan are in bold only where it is not set at all. -/
def Environment.styledLog (env : Environment) : Bool := env.noColor.all (·.isEmpty)

/-- Why a run prints no plan. -/
inductive Diagnostic
  | commandLine (fault : CommandLineFault)
  | configFile (failure : ConfigFile.Failure)
  | refusal (r : Refusal)
  deriving DecidableEq, Repr

/-- The mark before the diagnostics of the program itself. -/
def errorMark : String := "\x1b[1m\x1b[31m❌ error:\x1b[39m\x1b[0m "

/-- A config file that cannot be used, as it is named before what is wrong with it. -/
def ConfigFile.Failure.heading (f : ConfigFile.Failure) : String :=
  s!"failed to load config file {f.path}"

/-- What is said of a file that cannot be used. Of a malformed document only the fact is told. -/
def ConfigFile.Failure.message (f : ConfigFile.Failure) : String :=
  f.heading ++ ": " ++ f.defect.detail.getD "malformed document"

/-- What a run says when it prints no plan. -/
def Diagnostic.text : Diagnostic → String
  | .commandLine fault => fault.message ++ "\n"
  | .configFile failure => errorMark ++ failure.message ++ "\n"
  | .refusal r => errorMark ++ r.message ++ "\n"

structure Outcome where
  exitCode : Nat
  output : String
  lines : List Log.Line := []
  styled : Bool := false
  diagnostic : Option Diagnostic := none

namespace Outcome

/-- The log apart from its styles. -/
def log (o : Outcome) : List String := o.lines.map (Log.Line.text false)

/-- The log as it is written. -/
def logText (o : Outcome) : String := String.join (o.lines.map fun l => l.text o.styled ++ "\n")

/-- All that is written beside the output: the log, then the diagnostic. -/
def errors (o : Outcome) : String := o.logText ++ (o.diagnostic.map Diagnostic.text).getD ""

end Outcome

def Plan.rendered (p : Plan) (format : Format) (bold : Bool) : String :=
  match format with
  | .json => p.json.text .pretty
  | .human => p.human bold

/-- What is noted of the config file. -/
def configEvent : Option String → Log.Event
  | some path => .configLoaded path
  | none => .configMissing

/-- The options of a command line and a disk, and the path of the config file if one is used. -/
def layeredOptions (disk : Disk) (c : CommandLine) :
    Except ConfigFile.Failure (Options × Option String) :=
  (ConfigFile.loadLayered disk c.config c.searchStart).map fun (o, path) => (c.overlay o, path)

/-- A run whose command line has been read. -/
def runWith (c : CommandLine) (env : Environment) (disk : Disk) : Outcome :=
  match layeredOptions disk c with
  | .error failure => { exitCode := 2, output := "", diagnostic := some (.configFile failure) }
  | .ok (o, path) =>
    let (notes, result) := Plan.resolve o env.onTerminal
    let lines := Log.shown (o.switch .debug) env.logFilter (configEvent path :: notes)
    let styled := env.styledLog
    match result with
    | .error r => { exitCode := 2, output := "", lines, styled, diagnostic := some (.refusal r) }
    | .ok plan =>
      let output := plan.rendered c.outputFormat env.noColor.isNone ++ "\n"
      { exitCode := 0, output, lines, styled }

def run (arguments : List String) (env : Environment) (disk : Disk) : Outcome :=
  match CommandLine.read arguments with
  | .ok c => runWith c env disk
  | .error fault =>
    if fault.isMistake then
      { exitCode := 2, output := "", diagnostic := some (.commandLine fault) }
    else { exitCode := 0, output := fault.message }

end SyncPlan
