import SyncPlan.Log.Event
import SyncPlan.Options

/-!
The plan of a sync: the options after all of them have been checked. The checks have a fixed order,
and the first that fails is the refusal of the options.
-/

namespace SyncPlan

inductive Side
  | source
  | target
  deriving DecidableEq, Repr

def Side.name : Side → String
  | .source => "source"
  | .target => "target"

inductive ModeOption
  | file
  | directory
  deriving DecidableEq, Repr

def ModeOption.name : ModeOption → String
  | .file => "fs-file-perm"
  | .directory => "fs-dir-perm"

/-- Why options cannot be turned into a plan. -/
inductive Refusal
  | accessClass (value : String)
  | failureAction (value : String)
  | bandwidth (value : String)
  | endpoint (side : Side) (value : String) (fault : EndpointFault)
  | progressWithoutTerminal
  | mode (option : ModeOption) (value : String) (fault : Text.NumeralFault)
  | modifiedWithoutAttributes
  deriving DecidableEq, Repr

namespace Refusal

/-- The option that is to blame. -/
def option : Refusal → String
  | .accessClass _ => "s3-acl"
  | .failureAction _ => "on-fail"
  | .bandwidth _ => "ratelimit-bandwidth"
  | .endpoint side _ _ => side.name
  | .progressWithoutTerminal => "sync-progress"
  | .mode option _ _ => option.name
  | .modifiedWithoutAttributes => "filter-modified"

def wordMessage (option choices value : String) : String :=
  s!"--{option} must be one of \"{choices}\", got '{value}'"

def message : Refusal → String
  | .accessClass value => wordMessage "s3-acl" AccessClass.choices value
  | .failureAction value => wordMessage "on-fail" FailureAction.choices value
  | .bandwidth value =>
    s!"invalid value of --ratelimit-bandwidth '{value}': " ++
      "expected bytes/s with optional K, M or G suffix"
  | .endpoint side value fault => s!"invalid {side.name} endpoint '{value}': {fault.message}"
  | .progressWithoutTerminal => "progress (--sync-progress) requires stdout to be a tty"
  | .mode option value fault =>
    s!"failed to parse arg --{option.name} '{value}' as octal permissions: {fault.message}"
  | .modifiedWithoutAttributes =>
    "filter modified files (--filter-modified) requires xattr; drop --fs-disable-xattr"

/-- What lies behind a refusal, if it has a cause of its own. -/
def cause : Refusal → Option String
  | .mode _ _ fault => some fault.message
  | _ => none

end Refusal

def AccessClass.read (s : String) : Except Refusal AccessClass :=
  match AccessClass.ofWord? s with
  | some c => .ok c
  | none => .error (.accessClass s)

def FailureAction.read (s : String) : Except Refusal FailureAction :=
  match FailureAction.ofWord? s with
  | some a => .ok a
  | none => .error (.failureAction s)

def readRate (s : String) : Except Refusal UInt64 :=
  match Rate.read s with
  | some n => .ok n
  | none => .error (.bandwidth s)

def readEndpoint (side : Side) (s : String) : Except Refusal Endpoint :=
  match Endpoint.read s with
  | .ok e => .ok e
  | .error fault => .error (.endpoint side s fault)

def readMode (option : ModeOption) (s : String) : Except Refusal FileMode :=
  match FileMode.read s with
  | .ok m => .ok m
  | .error fault => .error (.mode option s fault)

/-- The two ends of a sync and what is checked before them. -/
structure Route where
  accessClass : AccessClass
  onFail : FailureAction
  bandwidth : UInt64
  source : Endpoint
  target : Endpoint
  deriving DecidableEq, Repr

def Route.ofOptions (o : Options) : Except Refusal Route := do
  let accessClass ← AccessClass.read (o.text .acl)
  let onFail ← FailureAction.read (o.text .onFail)
  let bandwidth ← readRate (o.text .bandwidth)
  let source ← readEndpoint .source (o.text .source)
  let target ← readEndpoint .target (o.text .target)
  pure { accessClass, onFail, bandwidth, source, target }

/-- The permissions of files and directories, checked after the display of progress. -/
def readModes (o : Options) (onTerminal : Bool) : Except Refusal (FileMode × FileMode) := do
  if o.switch .progress && !onTerminal then throw .progressWithoutTerminal
  let fileMode ← readMode .file (o.text .fileMode)
  let directoryMode ← readMode .directory (o.text .directoryMode)
  pure (fileMode, directoryMode)

structure Plan where
  options : Options
  route : Route
  /-- In seconds. -/
  retryInterval : UInt32
  fileMode : FileMode
  directoryMode : FileMode
  usesHttp2 : Bool

namespace Plan

def summary (p : Plan) : Log.Summary where
  accessClass := p.route.accessClass
  onFail := p.route.onFail
  bandwidth := p.route.bandwidth
  retryInterval := p.retryInterval
  fileMode := p.fileMode
  directoryMode := p.directoryMode

/-- Turns options into a plan, for an output that is a terminal or not, and notes how far that
goes. -/
def resolve (o : Options) (onTerminal : Bool) : List Log.Event × Except Refusal Plan :=
  match Route.ofOptions o with
  | .error r => ([], .error r)
  | .ok route =>
    let read := Log.Event.endpointsRead route.source route.target
    match readModes o onTerminal with
    | .error r => ([read], .error r)
    | .ok (fileMode, directoryMode) =>
      let retryInterval := o.count .retryInterval
      let usesHttp2 := !o.switch .disableHttp2
      let plan : Plan := { options := o, route, retryInterval, fileMode, directoryMode, usesHttp2 }
      let notes := read :: if usesHttp2 then [] else [.http2Disabled]
      if o.switch .onlyModified && o.switch .disableAttributes then
        (notes, .error .modifiedWithoutAttributes)
      else (notes ++ [.planResolved plan.summary], .ok plan)

def ofOptions (o : Options) (onTerminal : Bool) : Except Refusal Plan := (resolve o onTerminal).2

end Plan

end SyncPlan
