import SyncPlan.Proofs.Resolution
import SyncPlan.Proofs.Stages

/-!
How far a run got, as its log tells. With debugging on, the log begins with what became of the
config file and has a line for each milestone that the options reach on the way to a plan, in the
order in which they reach them. The first condition that does not hold decides which these are: the
log ends before it, and the line of the plan is there exactly where the plan is printed.
-/

namespace SyncPlan

/-- The text of a line, apart from its styles. -/
theorem Log.Event.text_line (e : Log.Event) :
    (e.line true).text false = "DEBUG " ++ e.target ++ ": " ++ e.message ++
      String.join (e.values.map fun (name, value) => " " ++ name ++ "=" ++ value) := by
  rw [← String.toList_inj]
  simp [line, Log.Line.text, valueStretches, Stretch.written, String.toList_join,
    List.flatMap_assoc, List.flatMap_map]

/-- A point on the way from options to their plan. -/
inductive Milestone
  | endsRead
  | transportSettled
  | planResolved
  deriving DecidableEq, Repr

namespace Milestone

def all : List Milestone := [.endsRead, .transportSettled, .planResolved]

/-- The conditions that are looked at before a milestone. -/
def conditions : Milestone → List Condition
  | .endsRead => [.accessClass, .onFail, .bandwidth, .endpoint .source, .endpoint .target]
  | .transportSettled => [
    .accessClass, .onFail, .bandwidth, .endpoint .source, .endpoint .target, .progress,
    .mode .file, .mode .directory]
  | .planResolved => Condition.all

def Reached (o : Options) (onTerminal : Bool) (m : Milestone) : Prop :=
  ∀ c ∈ m.conditions, c.Holds o onTerminal

/-- A milestone that is reached is noted, but the transport only if it does without HTTP/2. -/
def Noted (o : Options) (onTerminal : Bool) (m : Milestone) : Prop :=
  m.Reached o onTerminal ∧ (m = .transportSettled → o.switch .disableHttp2 = true)

/-- The line of a milestone, with the values that the options denote. -/
def Says (o : Options) : Milestone → String → Prop
  | .endsRead, line => ∃ source target, Endpoint.read (o.text .source) = .ok source ∧
      Endpoint.read (o.text .target) = .ok target ∧
      line = "DEBUG s3sync::resolve: parsed connectors source=" ++ Log.endpointText source ++
        " target=" ++ Log.endpointText target
  | .transportSettled, line =>
    line = "DEBUG s3sync::resolve: http2 disabled for object-store client"
  | .planResolved, line => ∃ p : Plan, p.Denotes o ∧
      line = "DEBUG s3sync::resolve: configuration resolved acl=" ++ p.route.accessClass.label ++
        " on_fail=" ++ p.route.onFail.word ++
        " rate_limit_bandwidth=" ++ toString p.route.bandwidth ++
        " retry_secs=" ++ toString p.retryInterval ++
        " fs_file_perm=" ++ p.fileMode.text ++ " fs_dir_perm=" ++ p.directoryMode.text

/-- What is noted at a milestone. -/
def note? (o : Options) (onTerminal : Bool) : Milestone → Option Log.Event
  | .endsRead =>
    match Route.ofOptions o with
    | .ok route => some (.endpointsRead route.source route.target)
    | .error _ => none
  | .transportSettled =>
    match Route.ofOptions o, readModes o onTerminal with
    | .ok _, .ok _ => if o.switch .disableHttp2 then some .http2Disabled else none
    | _, _ => none
  | .planResolved =>
    match Plan.ofOptions o onTerminal with
    | .ok p => some (.planResolved p.summary)
    | .error _ => none

variable {o : Options} {onTerminal : Bool}

/-- The notes of the way to a plan are those of its milestones. -/
theorem resolve_fst : (Plan.resolve o onTerminal).1 = all.filterMap (note? o onTerminal) := by
  simp only [all, List.filterMap_cons, List.filterMap_nil, note?, Plan.ofOptions, Plan.resolve]
  cases Route.ofOptions o with
  | error r => rfl
  | ok route =>
      cases readModes o onTerminal with
      | error r => rfl
      | ok modes =>
          cases o.switch .disableHttp2 <;>
            cases o.switch .onlyModified && o.switch .disableAttributes <;>
              simp

theorem exists_ok_iff {α : Type} {x : Except Refusal α} {cs : List Condition}
    (h : errorOf? x = cs.findSome? (·.refusal? o onTerminal)) :
    (∃ a, x = .ok a) ↔ ∀ c ∈ cs, c.Holds o onTerminal := by
  rw [← errorOf?_eq_none_iff, h, List.findSome?_eq_none_iff]
  simp only [Condition.refusal?_eq_none_iff]

theorem reached_endsRead_iff :
    Milestone.endsRead.Reached o onTerminal ↔ ∃ route, Route.ofOptions o = .ok route :=
  (exists_ok_iff Condition.errorOf?_ofRoute).symm

theorem reached_transportSettled_iff :
    Milestone.transportSettled.Reached o onTerminal ↔
      (∃ route, Route.ofOptions o = .ok route) ∧ ∃ modes, readModes o onTerminal = .ok modes := by
  have hends : Milestone.endsRead.Reached o onTerminal ↔ _ := reached_endsRead_iff
  rw [← hends, exists_ok_iff Condition.errorOf?_readModes, Reached, Reached,
    ← List.forall_mem_append]
  rfl

theorem reached_planResolved_iff :
    Milestone.planResolved.Reached o onTerminal ↔
      ∃ plan, Plan.ofOptions o onTerminal = .ok plan :=
  (exists_ok_iff Condition.errorOf?_ofOptions).symm

theorem isSome_note?_iff (m : Milestone) :
    (m.note? o onTerminal).isSome ↔ m.Noted o onTerminal := by
  cases m with
  | endsRead =>
      rw [Noted, reached_endsRead_iff, note?]
      cases Route.ofOptions o <;> simp
  | transportSettled =>
      rw [Noted, reached_transportSettled_iff, note?]
      cases Route.ofOptions o <;> cases readModes o onTerminal <;> simp
  | planResolved =>
      rw [Noted, reached_planResolved_iff, note?]
      cases Plan.ofOptions o onTerminal <;> simp

theorem line_endpointsRead (source target : Endpoint) :
    (Log.Event.line true (.endpointsRead source target)).text false =
      "DEBUG s3sync::resolve: parsed connectors source=" ++ Log.endpointText source ++
        " target=" ++ Log.endpointText target := by
  simp [Log.Event.text_line, Log.Event.target, Log.Event.message, Log.Event.values, String.join,
    ← String.append_assoc]

theorem line_planResolved (s : Log.Summary) :
    (Log.Event.line true (.planResolved s)).text false =
      "DEBUG s3sync::resolve: configuration resolved acl=" ++ s.accessClass.label ++
        " on_fail=" ++ s.onFail.word ++ " rate_limit_bandwidth=" ++ toString s.bandwidth ++
        " retry_secs=" ++ toString s.retryInterval ++
        " fs_file_perm=" ++ s.fileMode.text ++ " fs_dir_perm=" ++ s.directoryMode.text := by
  simp [Log.Event.text_line, Log.Event.target, Log.Event.message, Log.Event.values, String.join,
    ← String.append_assoc]

theorem says_of_note? {m : Milestone} {e : Log.Event} (h : m.note? o onTerminal = some e) :
    m.Says o ((e.line true).text false) := by
  cases m with
  | endsRead =>
      rw [note?] at h
      split at h
      · next route hroute =>
          obtain rfl := Option.some.inj h
          obtain ⟨-, -, -, hsource, htarget⟩ := route_eq_ok hroute
          exact ⟨_, _, endpoint_eq_ok_iff.1 hsource, endpoint_eq_ok_iff.1 htarget,
            line_endpointsRead _ _⟩
      · simp at h
  | transportSettled =>
      rw [note?] at h
      split at h
      · obtain rfl := Option.some.inj (Option.ite_none_right_eq_some.1 h).2
        rfl
      · simp at h
  | planResolved =>
      rw [note?] at h
      split at h
      · next plan hplan =>
          obtain rfl := Option.some.inj h
          exact ⟨plan, denotes_of_ofOptions hplan, line_planResolved _⟩
      · simp at h

theorem conditions_prefix (m : Milestone) : m.conditions <+: Condition.all := by
  cases m <;> decide

end Milestone

/-- The first condition that does not hold. -/
structure Condition.IsFirstFailing (o : Options) (onTerminal : Bool) (c : Condition) : Prop where
  fails : ¬c.Holds o onTerminal
  first : ∃ before after, Condition.all = before ++ c :: after ∧
    ∀ b ∈ before, b.Holds o onTerminal

section Failing

variable {o : Options} {onTerminal : Bool} {c : Condition}

theorem exists_isFirstFailing {r : Refusal} (h : Plan.ofOptions o onTerminal = .error r) :
    ∃ c : Condition, c.IsFirstFailing o onTerminal ∧ c.Refuses o r := by
  rw [← errorOf?_eq_some_iff, Condition.errorOf?_ofOptions, List.findSome?_eq_some_iff] at h
  obtain ⟨before, c, after, hall, hc, hbefore⟩ := h
  have hfails : ¬c.Holds o onTerminal := by
    intro hholds
    rw [← Condition.refusal?_eq_none_iff, hc] at hholds
    simp at hholds
  have hholds : ∀ b ∈ before, b.Holds o onTerminal :=
    fun b hb => Condition.refusal?_eq_none_iff.1 (hbefore b hb)
  exact ⟨c, ⟨hfails, before, after, hall, hholds⟩, Condition.refuses_of_refusal? hc⟩

/-- The milestones that are reached are those that do not ask for the condition. -/
theorem Condition.IsFirstFailing.reached_iff (h : c.IsFirstFailing o onTerminal) (m : Milestone) :
    m.Reached o onTerminal ↔ c ∉ m.conditions := by
  obtain ⟨before, after, hall, hbefore⟩ := h.first
  refine ⟨fun hreached hc => h.fails (hreached c hc), fun hc b hb => hbefore b ?_⟩
  have hfront : before ++ [c] <+: Condition.all := ⟨after, by simp [hall]⟩
  obtain hshort | hlong := List.prefix_or_prefix_of_prefix m.conditions_prefix hfront
  · obtain hb | hb := List.mem_append.1 (hshort.subset hb)
    · exact hb
    · exact absurd (List.mem_singleton.1 hb ▸ ‹b ∈ m.conditions›) hc
  · exact absurd (hlong.subset (by simp)) hc

end Failing

/-- The first line of the log, which is about the config file. -/
def configLine : Option String → String
  | some path => "DEBUG s3sync: loaded config file path=" ++ path
  | none => "DEBUG s3sync: no s3sync.\x7btoml,yaml\x7d found; using defaults"

theorem line_configEvent (path : Option String) :
    ((configEvent path).line true).text false = configLine path := by
  rw [Log.Event.text_line]
  cases path with
  | none =>
      change "DEBUG " ++ "s3sync" ++ ": " ++ "no s3sync.\x7btoml,yaml\x7d found; using defaults" ++
        "" = "DEBUG s3sync: no s3sync.\x7btoml,yaml\x7d found; using defaults"
      simp
  | some path =>
      change "DEBUG " ++ "s3sync" ++ ": " ++ "loaded config file" ++
        ("" ++ (" " ++ "path" ++ "=" ++ path)) = "DEBUG s3sync: loaded config file path=" ++ path
      simp [← String.append_assoc]

/-- A log with the line of the config file and those of the milestones that are noted. -/
structure Chronicle (o : Options) (onTerminal : Bool) (path : Option String) (log : List String)
    (line? : Milestone → Option String) : Prop where
  log : log = configLine path :: Milestone.all.filterMap line?
  noted : ∀ m, (line? m).isSome ↔ m.Noted o onTerminal
  lines : ∀ m, ∀ line ∈ line? m, m.Says o line

/-- The line of what is noted at a milestone. -/
def Milestone.line? (o : Options) (onTerminal : Bool) (m : Milestone) : Option String :=
  (m.note? o onTerminal).map fun e => (e.line true).text false

section Runs

variable {arguments : List String} {c : CommandLine} {base : Options} {path : Option String}
  {env : Environment} {disk : Disk}

theorem chronicle_run (hread : CommandLine.read arguments = .ok c)
    (hload : ConfigFile.loadLayered disk c.config c.searchStart = .ok (base, path))
    (hdebug : (c.overlay base).switch .debug = true) :
    Chronicle (c.overlay base) env.onTerminal path (run arguments env disk).log
      (Milestone.line? (c.overlay base) env.onTerminal) := by
  refine ⟨?_, fun m => ?_, fun m line hline => ?_⟩
  · have hlayered : layeredOptions disk c = .ok (c.overlay base, path) := by
      rw [layeredOptions, hload]
      rfl
    have hlines : (run arguments env disk).lines = Log.shown true env.logFilter
        (configEvent path :: (Plan.resolve (c.overlay base) env.onTerminal).1) := by
      rw [run, hread]
      simp only [runWith, hlayered, hdebug]
      split <;> rfl
    rw [Outcome.log, hlines, Milestone.resolve_fst, Log.shown, if_pos rfl, List.map_cons,
      List.map_cons, line_configEvent, List.map_map, List.map_filterMap]
    rfl
  · rw [Milestone.line?, Option.isSome_map, Milestone.isSome_note?_iff]
  · obtain ⟨e, he, rfl⟩ := Option.map_eq_some_iff.1 hline
    exact Milestone.says_of_note? he

/-- The path that is told of is that of the file which is named or found. -/
theorem path_of_loadLayered
    (hload : ConfigFile.loadLayered disk c.config c.searchStart = .ok (base, path)) :
    path = c.config.or (ConfigFile.detect disk c.searchStart) := by
  rw [ConfigFile.loadLayered] at hload
  split at hload
  · next hnone =>
      obtain ⟨-, rfl⟩ := Prod.mk.inj (Except.ok.inj hload)
      exact hnone.symm
  · next selected hselected =>
      obtain ⟨o, -, ho⟩ := map_eq_ok_iff.1 hload
      obtain ⟨-, rfl⟩ := Prod.mk.inj ho
      exact hselected.symm

theorem line?_planResolved_iff {o : Options} {onTerminal : Bool} :
    (Milestone.planResolved.line? o onTerminal).isSome ↔
      ∃ plan, Plan.ofOptions o onTerminal = .ok plan := by
  rw [Milestone.line?, Option.isSome_map, Milestone.isSome_note?_iff, Milestone.Noted,
    Milestone.reached_planResolved_iff]
  simp

theorem exists_isFirstFailing_of_run {r : Refusal} (hread : CommandLine.read arguments = .ok c)
    (hload : ConfigFile.loadLayered disk c.config c.searchStart = .ok (base, path))
    (hr : (run arguments env disk).diagnostic = some (.refusal r)) :
    ∃ k : Condition, k.IsFirstFailing (c.overlay base) env.onTerminal ∧
      k.Refuses (c.overlay base) r := by
  cases hplan : Plan.ofOptions (c.overlay base) env.onTerminal with
  | ok plan => simp [(shows_run (.plan hread hload hplan)).2.2] at hr
  | error r' =>
      have hcomes : ComesTo arguments env disk (.error (.refusal r')) :=
        .resolution hread hload hplan
      obtain rfl : r' = r := by simpa [hr] using (shows_run hcomes).2.2.symm
      exact exists_isFirstFailing hplan

end Runs

/-- A run whose arguments cannot be read, or whose config file cannot be loaded, logs nothing. Any
other run with debugging on logs what became of the config file and then one line for each milestone
that is reached, with the values that the options denote, the transport only if it does without
HTTP/2. The plan is noted exactly where it is printed. Where the options are refused, the milestones
that ask for the first condition that does not hold are not noted, and all others are reached. -/
theorem run_log_by_milestones (arguments : List String) (env : Environment) (disk : Disk) :
    (∀ fault, CommandLine.read arguments = .error fault → (run arguments env disk).log = []) ∧
    (∀ c failure, CommandLine.read arguments = .ok c →
      ConfigFile.loadLayered disk c.config c.searchStart = .error failure →
        (run arguments env disk).log = []) ∧
    ∀ c base path, CommandLine.read arguments = .ok c →
      ConfigFile.loadLayered disk c.config c.searchStart = .ok (base, path) →
      (c.overlay base).switch .debug = true →
        path = c.config.or (ConfigFile.detect disk c.searchStart) ∧
        ∃ line?, Chronicle (c.overlay base) env.onTerminal path (run arguments env disk).log line? ∧
          ((line? .planResolved).isSome ↔
            ∃ plan, Plan.ofOptions (c.overlay base) env.onTerminal = .ok plan) ∧
          (∀ plan, Plan.ofOptions (c.overlay base) env.onTerminal = .ok plan →
            (run arguments env disk).output =
              plan.rendered c.outputFormat env.noColor.isNone ++ "\n") ∧
          (line? .planResolved = none → (run arguments env disk).output = "") ∧
          ∀ r, (run arguments env disk).diagnostic = some (.refusal r) →
            ∃ k : Condition, k.IsFirstFailing (c.overlay base) env.onTerminal ∧
              k.Refuses (c.overlay base) r ∧
              ∀ m : Milestone, (k ∈ m.conditions → line? m = none) ∧
                (k ∉ m.conditions → m.Reached (c.overlay base) env.onTerminal) := by
  refine ⟨fun fault hread => ?_, fun c failure hread hload => ?_, ?_⟩
  · rw [run, hread]
    dsimp only
    split <;> rfl
  · rw [run, hread]
    simp only [runWith, layeredOptions, hload]
    rfl
  · intro c base path hread hload hdebug
    have hchronicle : Chronicle _ env.onTerminal _ _ _ := chronicle_run hread hload hdebug
    refine ⟨path_of_loadLayered hload, _, hchronicle, line?_planResolved_iff, ?_, ?_, ?_⟩
    · intro plan hplan
      exact (shows_run (.plan hread hload hplan)).2.1
    · intro hnone
      cases hplan : Plan.ofOptions (c.overlay base) env.onTerminal with
      | ok plan =>
          have hsome := line?_planResolved_iff.2 ⟨plan, hplan⟩
          simp [hnone] at hsome
      | error r => exact (shows_run (.resolution hread hload hplan)).2.1
    · intro r hr
      obtain ⟨k, hk, hrefuses⟩ := exists_isFirstFailing_of_run hread hload hr
      refine ⟨k, hk, hrefuses, fun m => ⟨fun hm => ?_, (hk.reached_iff m).2⟩⟩
      rw [← Option.not_isSome_iff_eq_none, hchronicle.noted]
      exact fun hnoted => (hk.reached_iff m).1 hnoted.1 hm

/-- A config file that turns debugging on and HTTP/2 off. -/
def debuggedFile : FileTree :=
  .directory [("s3sync.toml", .file (Text.utf8 "debug = true\ndisable_http2 = true\n".toList))]

/-- Options that are refused at the last condition only, behind the line of the transport. -/
def debuggedArguments : List String :=
  ["s3://photos/2024", "/mnt", "--filter-modified", "--fs-disable-xattr"]

/-- The ends and the transport are noted, the plan is not. -/
theorem run_debuggedFile : ∃ c base line?, CommandLine.read debuggedArguments = .ok c ∧
    ConfigFile.loadLayered (debuggedFile.disk []) c.config c.searchStart =
      .ok (base, some "./s3sync.toml") ∧
    (c.overlay base).switch .debug = true ∧
    Chronicle (c.overlay base) false (some "./s3sync.toml")
      (run debuggedArguments {} (debuggedFile.disk [])).log line? ∧
    (line? .endsRead).isSome ∧ (line? .transportSettled).isSome ∧ line? .planResolved = none := by
  have hstages : ((CommandLine.read debuggedArguments).map fun c =>
      (ConfigFile.loadLayered (debuggedFile.disk []) c.config c.searchStart).map fun loaded =>
        ((c.overlay loaded.1).switch .debug, (c.overlay loaded.1).switch .disableHttp2,
          loaded.2)) =
      .ok (.ok (true, true, some "./s3sync.toml")) := by
    decide +kernel
  have hdiagnostic : (run debuggedArguments {} (debuggedFile.disk [])).diagnostic =
      some (.refusal .modifiedWithoutAttributes) := by
    decide +kernel
  obtain ⟨c, hread, hloaded⟩ := map_eq_ok_iff.1 hstages
  obtain ⟨⟨base, path⟩, hload, hswitches⟩ := map_eq_ok_iff.1 hloaded
  obtain ⟨hdebug, hhttp2, rfl⟩ : (c.overlay base).switch .debug = true ∧
      (c.overlay base).switch .disableHttp2 = true ∧ path = some "./s3sync.toml" := by
    simpa using hswitches
  obtain ⟨-, -, hruns⟩ := run_log_by_milestones debuggedArguments {} (debuggedFile.disk [])
  obtain ⟨-, line?, hchronicle, -, -, -, hrefused⟩ := hruns c base _ hread hload hdebug
  obtain ⟨k, -, hk, hmilestones⟩ := hrefused _ hdiagnostic
  obtain rfl : k = .modified := by
    cases k <;> simp [Condition.Refuses] at hk ⊢
  refine ⟨c, base, line?, hread, hload, hdebug, hchronicle, ?_, ?_,
    (hmilestones .planResolved).1 (by decide)⟩
  · exact (hchronicle.noted _).2 ⟨(hmilestones .endsRead).2 (by decide), by simp⟩
  · exact (hchronicle.noted _).2 ⟨(hmilestones .transportSettled).2 (by decide), fun _ => hhttp2⟩

end SyncPlan
