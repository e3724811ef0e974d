import SyncPlan.Proofs.Resolution
import SyncPlan.Run

/-!
The stages of a run: its arguments, the config file, and the options of both. A run prints the whole
plan that its stages come to and nothing else, or it prints no plan and says of the first stage that
fails why it does. What comes after that stage makes no difference.
-/

namespace SyncPlan

/-- What the stages of a run come to: a plan and the format to print it in, or the diagnostic of a
stage before which no other fails. -/
inductive ComesTo (arguments : List String) (env : Environment) (disk : Disk) :
    Except Diagnostic (Plan × Format) → Prop
  | arguments {fault : CommandLineFault} :
      CommandLine.read arguments = .error fault → fault.isMistake = true →
      ComesTo arguments env disk (.error (.commandLine fault))
  | configFile {c : CommandLine} {failure : ConfigFile.Failure} :
      CommandLine.read arguments = .ok c →
      ConfigFile.loadLayered disk c.config c.searchStart = .error failure →
      ComesTo arguments env disk (.error (.configFile failure))
  | resolution {c : CommandLine} {base : Options} {path : Option String} {r : Refusal} :
      CommandLine.read arguments = .ok c →
      ConfigFile.loadLayered disk c.config c.searchStart = .ok (base, path) →
      Plan.ofOptions (c.overlay base) env.onTerminal = .error r →
      ComesTo arguments env disk (.error (.refusal r))
  | plan {c : CommandLine} {base : Options} {path : Option String} {plan : Plan} :
      CommandLine.read arguments = .ok c →
      ConfigFile.loadLayered disk c.config c.searchStart = .ok (base, path) →
      Plan.ofOptions (c.overlay base) env.onTerminal = .ok plan →
      ComesTo arguments env disk (.ok (plan, c.outputFormat))

variable {arguments : List String} {env : Environment} {disk : Disk}
  {result : Except Diagnostic (Plan × Format)}

/-- The outcome of a run whose stages come to a result, apart from its log. -/
def Outcome.Shows (o : Outcome) (bold : Bool) : Except Diagnostic (Plan × Format) → Prop
  | .ok (plan, format) =>
    o.exitCode = 0 ∧ o.output = plan.rendered format bold ++ "\n" ∧ o.diagnostic = none
  | .error d => o.exitCode = 2 ∧ o.output = "" ∧ o.diagnostic = some d

/-- A run whose command line has been read ends with its file or with its plan. -/
theorem runWith_eq (env : Environment) {c : CommandLine} {base : Options} {path : Option String}
    (hload : ConfigFile.loadLayered disk c.config c.searchStart = .ok (base, path)) :
    ∃ lines, runWith c env disk = match Plan.ofOptions (c.overlay base) env.onTerminal with
      | .error r => ⟨2, "", lines, env.styledLog, some (.refusal r)⟩
      | .ok plan =>
        let output := plan.rendered c.outputFormat env.noColor.isNone ++ "\n"
        ⟨0, output, lines, env.styledLog, none⟩ := by
  have hlayered : layeredOptions disk c = .ok (c.overlay base, path) := by
    rw [layeredOptions, hload]
    rfl
  rw [runWith, hlayered, Plan.ofOptions]
  exact ⟨_, rfl⟩

theorem shows_run (h : ComesTo arguments env disk result) :
    (run arguments env disk).Shows env.noColor.isNone result := by
  cases h with
  | arguments hread hmistake =>
      rw [run, hread]
      simp [hmistake, Outcome.Shows]
  | configFile hread hload =>
      rw [run, hread]
      simp [runWith, layeredOptions, hload, Except.map, Outcome.Shows]
  | resolution hread hload hplan =>
      obtain ⟨lines, hrun⟩ := runWith_eq env hload
      rw [run, hread]
      simp [hrun, hplan, Outcome.Shows]
  | plan hread hload hplan =>
      obtain ⟨lines, hrun⟩ := runWith_eq env hload
      rw [run, hread]
      simp [hrun, hplan, Outcome.Shows]

/-- The stages come to one result. -/
theorem ComesTo.unique {other : Except Diagnostic (Plan × Format)}
    (h : ComesTo arguments env disk result) (h' : ComesTo arguments env disk other) :
    other = result := by
  cases h <;> cases h' <;> simp_all

/-- A text with another one in it. -/
def Mentions (s part : String) : Prop := ∃ front back, s = front ++ part ++ back

section Mentions

variable {s part : String}

theorem Mentions.refl (s : String) : Mentions s s := ⟨"", "", by simp⟩

theorem Mentions.behind (h : Mentions s part) (t : String) : Mentions (t ++ s) part := by
  obtain ⟨front, back, rfl⟩ := h
  exact ⟨t ++ front, back, by simp only [String.append_assoc]⟩

theorem Mentions.before (h : Mentions s part) (t : String) : Mentions (s ++ t) part := by
  obtain ⟨front, back, rfl⟩ := h
  exact ⟨front, back ++ t, by simp only [String.append_assoc]⟩

end Mentions

namespace Refusal

end Refusal

end SyncPlan
