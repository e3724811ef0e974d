import SyncPlan.Endpoint
import SyncPlan.Text.Quoted
import SyncPlan.Vocabulary

/-!
What a run notes on its way, for those who ask for it. Every note is of the level for debugging and
belongs to a part of the program by which it can be chosen. It is written as a line, whose stretches
may be styled by escape sequences.
-/

namespace SyncPlan.Log

/-- What a plan was settled to. -/
structure Summary where
  accessClass : AccessClass
  onFail : FailureAction
  bandwidth : UInt64
  retryInterval : UInt32
  fileMode : FileMode
  directoryMode : FileMode
  deriving DecidableEq, Repr

inductive Event
  | configLoaded (path : String)
  | configMissing
  | endpointsRead (source target : Endpoint)
  | http2Disabled
  | planResolved (summary : Summary)
  deriving DecidableEq, Repr

/-- The part of the program that notes an event. -/
def Event.target : Event → String
  | .configLoaded _ | .configMissing => "s3sync"
  | _ => "s3sync::resolve"

def endpointText (e : Endpoint) : String :=
  let kind := if e.isObjectStore then "ObjectStore" else "Filesystem"
  s!"ConnectionDescriptor \x7b kind: {kind}, bucket: {Text.quoted e.bucket}, " ++
    s!"path: {Text.quoted e.path} \x7d"

/-- What an event says before its values. -/
def Event.message : Event → String
  | .configLoaded _ => "loaded config file"
  | .configMissing => "no s3sync.\x7btoml,yaml\x7d found; using defaults"
  | .endpointsRead .. => "parsed connectors"
  | .http2Disabled => "http2 disabled for object-store client"
  | .planResolved _ => "configuration resolved"

/-- The values that an event carries, each with its name. -/
def Event.values : Event → List (String × String)
  | .configLoaded path => [("path", path)]
  | .configMissing | .http2Disabled => []
  | .endpointsRead source target =>
    [("source", endpointText source), ("target", endpointText target)]
  | .planResolved s => [
    ("acl", s.accessClass.label), ("on_fail", s.onFail.word),
    ("rate_limit_bandwidth", toString s.bandwidth), ("retry_secs", toString s.retryInterval),
    ("fs_file_perm", s.fileMode.text), ("fs_dir_perm", s.directoryMode.text)]

/-- The names by which a filter can ask for an event. -/
def Event.fields (e : Event) : List String := "message" :: e.values.map (·.1)

/-- How a stretch of a line looks where lines are styled. -/
inductive Style
  | blue
  | dimmed
  | italic
  deriving DecidableEq, Repr

/-- The number of a style in an escape sequence. -/
def Style.code : Style → String
  | .blue => "34"
  | .dimmed => "2"
  | .italic => "3"

/-- A part of a line in one style, or in none. -/
structure Stretch where
  style : Option Style
  text : String
  deriving DecidableEq, Repr

/-- A stretch as it is written, between escape sequences if it has a style and lines are styled. -/
def Stretch.written (styled : Bool) (x : Stretch) : String :=
  match x.style with
  | some style => if styled then s!"\x1b[{style.code}m{x.text}\x1b[0m" else x.text
  | none => x.text

/-- A line of the log, behind the time at which it is written. -/
abbrev Line := List Stretch

def Line.text (styled : Bool) (l : Line) : String := String.join (l.map (Stretch.written styled))

/-- One value of an event, behind a space. -/
def valueStretches (name value : String) : List Stretch :=
  [⟨none, " "⟩, ⟨some .italic, name⟩, ⟨some .dimmed, "="⟩, ⟨none, value⟩]

/-- The line of an event, with the part of the program or without. -/
def Event.line (withTarget : Bool) (e : Event) : Line :=
  [⟨some .blue, "DEBUG"⟩, ⟨none, " "⟩] ++
    (if withTarget then [⟨some .dimmed, e.target⟩, ⟨some .dimmed, ":"⟩, ⟨none, " "⟩] else []) ++
    ⟨none, e.message⟩ :: e.values.flatMap fun (name, value) => valueStretches name value

end SyncPlan.Log
