import SyncPlan.CommandLine.Argument
import SyncPlan.Text.Numeral

/-!
Why a command line is not carried out: a mistake in it, or the wish to see the help text or the
version.
-/

namespace SyncPlan

inductive CommandLineFault
  | unknown (token : String)
  | missingValue (a : Argument)
  | unwantedValue (a : Argument) (value : String)
  | repeated (a : Argument)
  | noNumber (a : Argument) (value : String) (fault : Text.NumeralFault)
  | outOfRange (a : Argument) (value : String) (n : Int)
  | noChoice (a : Argument) (value : String)
  | help
  | version (long : Bool)
  deriving DecidableEq, Repr

namespace CommandLineFault

def isMistake : CommandLineFault → Bool
  | .help | .version _ => false
  | _ => true

/-- The code with which a run ends. -/
def exitCode (fault : CommandLineFault) : Nat := if fault.isMistake then 2 else 0

def firstLine (s : String) : String := String.ofList (s.toList.takeWhile (· != '\n'))

def description : CommandLineFault → String
  | .unknown token => s!"unexpected argument '{token}' found"
  | .missingValue a => s!"a value is required for '{a.display}' but none was supplied"
  | .unwantedValue a value =>
    s!"unexpected value '{value}' for '{a.display}' found; no more were expected"
  | .repeated a => s!"the argument '{a.display}' cannot be used multiple times"
  | .noNumber a value fault => s!"invalid value '{value}' for '{a.display}': {fault.message}"
  | .outOfRange a value n =>
    s!"invalid value '{value}' for '{a.display}': {n} is not in 0..=4294967295"
  | .noChoice a value => s!"invalid value '{value}' for '{a.display}'"
  | .help => usageText
  | .version long => versionText long

/-- What is shown: the first line on a mistake, and otherwise the text that was wished for. -/
def message (fault : CommandLineFault) : String :=
  if fault.isMistake then firstLine ("error: " ++ fault.description) else fault.description

end CommandLineFault

end SyncPlan
