import SyncPlan.Files.Tree

/-!
The search for a config file: in the directory of a path and in its parents, nearest first, up to
one that is the root of a repository.
-/

namespace SyncPlan.ConfigFile

/-- The names a config file may have, in the order in which they are tried. -/
def names : List String := ["s3sync.toml", "s3sync.yaml", "s3sync.yml"]

/-- The entry that marks the root of a repository. -/
def boundary : String := ".git"

/-- The first of some directories that holds a config file, unless the search ends before it. -/
def search (disk : Disk) : List String → Option String
  | [] => none
  | place :: rest =>
    match (names.map (Path.join place)).find? disk.isFile with
    | some path => some path
    | none => if disk.exists? (Path.join place boundary) then none else search disk rest

/-- The directories that are searched from a start on. -/
def places (start : String) : List String := (Path.ofText start).ancestry.map Path.text

def detect (disk : Disk) (start : String) : Option String := search disk (places start)

end SyncPlan.ConfigFile
