import SyncPlan.Files.Path

/-!
Trees of files and directories, and what a path leads to from a working directory. Every piece of a
path but the last must lead to a directory, also an idle one, and the parent of the root is the
root.
-/

namespace SyncPlan

/-- Why the content of a path cannot be had as text. -/
inductive ReadFault
  | notFound
  | isDirectory
  | notDirectory
  | nulInPath
  | notUtf8
  | other (text : String)
  deriving DecidableEq, Repr

def ReadFault.message : ReadFault → String
  | .notFound => "No such file or directory (os error 2)"
  | .isDirectory => "Is a directory (os error 21)"
  | .notDirectory => "Not a directory (os error 20)"
  | .nulInPath => "file name contained an unexpected NUL byte"
  | .notUtf8 => "stream did not contain valid UTF-8"
  | .other text => text

/-- What a program sees at a place of its disk; a file may be there without being open to it. -/
inductive FileTree
  | file (content : List UInt8)
  | closedFile (reason : String)
  | directory (entries : List (String × FileTree))
  deriving Repr

namespace FileTree

def entries : FileTree → List (String × FileTree)
  | file _ | closedFile _ => []
  | directory es => es

def isFile : FileTree → Bool
  | file _ | closedFile _ => true
  | directory _ => false

/-- What stands at a place, given by the names on the way from the root. -/
def at? (t : FileTree) : List String → Option FileTree
  | [] => some t
  | name :: names => (t.entries.lookup name).bind fun u => u.at? names

/-- Changes what stands at a place, making the directories on the way. -/
def alter (f : Option FileTree → Option FileTree) : List String → Option FileTree → Option FileTree
  | [], t => f t
  | name :: names, t =>
    let es := (t.map entries).getD []
    let changed := alter f names (es.lookup name)
    some (directory (es.filter (·.1 != name) ++ (changed.map fun u => (name, u)).toList))

def write (t : FileTree) (place : List String) (content : List UInt8) : FileTree :=
  (alter (fun _ => some (file content)) place (some t)).getD t

def makeDirectory (t : FileTree) (place : List String) : FileTree :=
  (alter (fun u => some (u.getD (directory []))) place (some t)).getD t

/-- Takes a file or a whole directory away, if it is there. -/
def remove (t : FileTree) (place : List String) : Option FileTree :=
  (t.at? place).bind fun _ => alter (fun _ => none) place (some t)

/-- Where one piece of a path leads from a directory. -/
def move (place : List String) (piece : String) : List String :=
  if Path.isIdle piece then place
  else if piece == ".." then place.dropLast
  else place ++ [piece]

/-- Follows pieces from a place. -/
def follow (t : FileTree) (place : List String) : List String → Except ReadFault FileTree
  | [] =>
    match t.at? place with
    | none => .error .notFound
    | some u => .ok u
  | piece :: pieces =>
    match t.at? place with
    | none => .error .notFound
    | some (directory _) => t.follow (move place piece) pieces
    | some _ => .error .notDirectory

/-- What a path leads to from a working directory. -/
def find (t : FileTree) (workingDirectory : List String) (path : String) :
    Except ReadFault FileTree :=
  if path.toList.contains '\x00' then .error .nulInPath
  else if path.isEmpty then .error .notFound
  else
    let p := Path.ofText path
    t.follow (if p.anchor = .root then [] else workingDirectory) p.pieces

end FileTree

/-- What stands behind a path, and of a closed file why it is. -/
inductive Found
  | file (content : List UInt8)
  | closedFile (fault : ReadFault)
  | directory
  deriving Repr

/-- The disk as a program sees it: what every path leads to, or why it leads nowhere. -/
abbrev Disk := String → Except ReadFault Found

namespace Disk

def exists? (d : Disk) (path : String) : Bool := (d path).isOk

def isFile (d : Disk) (path : String) : Bool :=
  match d path with
  | .ok (.file _) | .ok (.closedFile _) => true
  | _ => false

def read (d : Disk) (path : String) : Except ReadFault (List UInt8) :=
  match d path with
  | .ok (.file content) => .ok content
  | .ok (.closedFile fault) => .error fault
  | .ok .directory => .error .isDirectory
  | .error fault => .error fault

end Disk

/-- What is seen of a tree without going down into it. -/
def FileTree.found : FileTree → Found
  | file content => .file content
  | closedFile reason => .closedFile (.other reason)
  | directory _ => .directory

def FileTree.disk (t : FileTree) (workingDirectory : List String) : Disk := fun path =>
  (t.find workingDirectory path).map found

end SyncPlan
