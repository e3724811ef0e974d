import SyncPlan.Proofs.BoldLabels
import SyncPlan.Proofs.RewrittenFile
import SyncPlan.Proofs.Stages
import SyncPlan.Proofs.Yaml.Rows

/-!
Settings that are for finding faults and not for the sync: the filter of the log, the switch that
turns debugging on, and whether labels are in bold. The first two decide what is noted of a run and
nothing else, although the switch is read, laid over and planned like all other options. The third
is seen around the labels of a plan for people and nowhere else.
-/

namespace SyncPlan
open Text

/-- Outcomes that are the same but for the log. What is written behind it is the same too. -/
structure Outcome.SameButLog (x y : Outcome) : Prop where
  exitCode : x.exitCode = y.exitCode
  output : x.output = y.output
  diagnostic : x.diagnostic = y.diagnostic
  errors : ∃ text, x.errors = x.logText ++ text ∧ y.errors = y.logText ++ text

namespace Outcome

theorem SameButLog.of_eq {x y : Outcome} (hexitCode : x.exitCode = y.exitCode)
    (houtput : x.output = y.output) (hdiagnostic : x.diagnostic = y.diagnostic) :
    x.SameButLog y :=
  ⟨hexitCode, houtput, hdiagnostic, _, rfl, by rw [hdiagnostic]; rfl⟩

theorem SameButLog.refl (x : Outcome) : x.SameButLog x := .of_eq rfl rfl rfl

end Outcome

section Debugging

variable {o o' : Options} {g : SwitchField}

end Debugging

section Runs

variable {env env' : Environment} {disk disk' : Disk}

/-- A plan for people as its rows. -/
def Plan.rows (p : Plan) : List (String × String) :=
  p.lines.map fun l => (padded l.label, " " ++ l.content)

/-- A line of the log as its stretches. -/
def Log.Line.row (l : Log.Line) : List (Option String × String) :=
  l.map fun x => (x.style.map Log.Style.code, x.text)

end Runs

end SyncPlan
