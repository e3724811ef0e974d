import SyncPlan.Plan

/-!
A plan as lines for a person to read, each a label and what it says, with the labels in bold or not.
-/

namespace SyncPlan.Plan

structure Line where
  label : String
  content : String
  deriving DecidableEq, Repr

def boldOn : String := "\x1b[1m"

def boldOff : String := "\x1b[0m"

/-- The column at which labels end. -/
def labelWidth : Nat := 12

def padded (label : String) : String :=
  String.ofList (List.replicate (labelWidth - label.length) ' ') ++ label

def Line.text (bold : Bool) (l : Line) : String :=
  let label := if bold then boldOn ++ padded l.label ++ boldOff else padded l.label
  label ++ " " ++ l.content

def endpointText : Endpoint → String
  | .objectStore bucket path => s!"s3 bucket={bucket} prefix={path}"
  | .filesystem path => s!"fs path={path}"

/-- A rate of zero is none. -/
def bandwidthText (n : UInt64) : String := if n = 0 then "unlimited" else s!"{n} B/s"

/-- What is let in and what is kept out, on a line that is left out where both lists are empty. -/
def filterLine (label : String) (only never : List String) : List Line :=
  if only.isEmpty && never.isEmpty then []
  else [⟨label, "+[" ++ ",".intercalate only ++ "] -[" ++ ",".intercalate never ++ "]"⟩]

def lines (p : Plan) : List Line :=
  let o := p.options
  [⟨"source:", endpointText p.route.source⟩,
    ⟨"target:", endpointText p.route.target⟩,
    ⟨"workers:", toString (o.count .workers)⟩,
    ⟨"on-fail:", p.route.onFail.word⟩,
    ⟨"retries:", s!"{o.count .retries} (every {p.retryInterval}s)"⟩,
    ⟨"acl:", p.route.accessClass.label⟩,
    ⟨"perms:", s!"file={p.fileMode.text} dir={p.directoryMode.text}"⟩,
    ⟨"bandwidth:", bandwidthText p.route.bandwidth⟩] ++
  (if o.count .objectRate = 0 then [] else [⟨"objects:", s!"{o.count .objectRate}/s"⟩]) ++
  filterLine "ext:" (o.list .extensions) (o.list .notExtensions) ++
  filterLine "ct:" (o.list .contentTypes) (o.list .notContentTypes) ++
  (if o.switch .onlyModified then [⟨"filter:", "only modified"⟩] else []) ++
  (if p.usesHttp2 then [] else [⟨"http2:", "disabled"⟩])

def human (p : Plan) (bold : Bool) : String :=
  "\n".intercalate (p.lines.map (Line.text bold))

end SyncPlan.Plan
