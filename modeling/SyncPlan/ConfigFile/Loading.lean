import SyncPlan.ConfigFile.Discovery
import SyncPlan.Text.Utf8
import SyncPlan.Toml.Options
import SyncPlan.Yaml.Options

/-!
The options of a config file, which the caller names or which is searched for, and the usual options
where there is none. A file that is named or found is used or is a failure; no other takes its
place.
-/

namespace SyncPlan.ConfigFile

/-- A config file that cannot be used, and why. -/
structure Failure where
  path : String
  defect : Defect
  deriving DecidableEq, Repr

def isYaml (path : String) : Bool :=
  match (Path.ofText path).extension? with
  | some e => e == "yaml" || e == "yml"
  | none => false

/-- The options that the text of a file gives, in the format that its name tells. -/
def optionsOf (path : String) (cs : List Char) : Except Defect Options :=
  if isYaml path then Options.ofYaml cs else Options.ofToml cs

def contentOf (disk : Disk) (path : String) : Except Defect (List Char) :=
  match disk.read path with
  | .error fault => .error (.unreadable fault)
  | .ok octets =>
    match Text.decodeUtf8 octets with
    | .error _ => .error (.unreadable .notUtf8)
    | .ok cs => .ok cs

def load (disk : Disk) (path : String) : Except Failure Options :=
  match contentOf disk path >>= optionsOf path with
  | .ok o => .ok o
  | .error defect => .error ⟨path, defect⟩

/-- The options and the path that they come from, if they come from a file. -/
def loadLayered (disk : Disk) (explicit : Option String) (start : String) :
    Except Failure (Options × Option String) :=
  match explicit.or (detect disk start) with
  | none => .ok (.default, none)
  | some path => (load disk path).map fun o => (o, some path)

/-- The paths of the disk that the options depend on. -/
def probes (explicit : Option String) (start : String) : List String :=
  match explicit with
  | some path => [path]
  | none => (places start).flatMap fun place => (names ++ [boundary]).map (Path.join place)

end SyncPlan.ConfigFile
