import SyncPlan.Endpoint.Uri
import SyncPlan.Text.Utf8

/-!
The two ends of a sync. A text with the scheme of an object store names a bucket and a path in it,
which are cut from the text as it stands after its form as a URI has been checked; every other text
is a path of the file system.
-/

namespace SyncPlan

inductive Endpoint
  | objectStore (bucket path : String)
  | filesystem (path : String)
  deriving DecidableEq, Repr

namespace Endpoint

def kindName : Endpoint → String
  | .objectStore .. => "object-store"
  | .filesystem _ => "filesystem"

def bucket : Endpoint → String
  | .objectStore bucket _ => bucket
  | .filesystem _ => ""

def path : Endpoint → String
  | .objectStore _ path => path
  | .filesystem path => path

def isObjectStore : Endpoint → Bool
  | .objectStore .. => true
  | .filesystem _ => false

end Endpoint

/-- Why a text with the scheme of an object store names no place in one. -/
inductive EndpointFault
  | uri (fault : UriFault)
  | noBucket
  | path (fault : Text.Utf8Fault)
  deriving DecidableEq, Repr

def EndpointFault.message : EndpointFault → String
  | .uri fault => fault.message
  | .noBucket => "missing bucket name"
  | .path fault => fault.message

namespace Endpoint

def isSchemeChar (c : Char) : Bool := c.isAlphanum || c == '+' || c == '-' || c == '.'

/-- The scheme before the first colon: a letter and scheme characters. -/
def scheme? (cs : List Char) : Option (List Char) :=
  match cs.takeWhile (· != ':') with
  | [] => none
  | c :: rest =>
    if cs.contains ':' && c.isAlpha && rest.all isSchemeChar then some (c :: rest) else none

def isScheme (name : String) (scheme : List Char) : Bool :=
  scheme.map Char.toLower == name.toList

/-- The authority and the path behind it, where two slashes follow the first colon. -/
def authority? (cs : List Char) : Option (List Char × List Char) :=
  match cs.dropWhile (· != ':') with
  | ':' :: '/' :: '/' :: rest =>
    let rest := rest.takeWhile fun c => c != '?' && c != '#'
    some (rest.takeWhile (· != '/'), rest.dropWhile (· != '/'))
  | _ => none

/-- The characters of a path whose octets may be percent coded. -/
def decodePath (cs : List Char) : Except Text.Utf8Fault (List Char) :=
  Text.decodeUtf8 (Text.percentDecode (Text.utf8 cs))

def readObjectStore (cs : List Char) : Except EndpointFault Endpoint :=
  match Uri.fault? cs with
  | some fault => .error (.uri fault)
  | none =>
    match authority? cs with
    | none => .error .noBucket
    | some (authority, path) =>
      let bucket := (Uri.splitUserinfo authority).2
      if bucket.isEmpty then .error .noBucket
      else match decodePath (path.drop 1) with
      | .error fault => .error (.path fault)
      | .ok path => .ok (.objectStore (String.ofList bucket) (String.ofList path))

/-- The path that a text with the scheme of the file system names: all behind the scheme and its
slashes, or the text itself where these are not written in just this way. -/
def filesystemPath (cs : List Char) : List Char :=
  match cs with
  | 'f' :: 's' :: ':' :: '/' :: '/' :: rest => rest
  | _ => cs

def read (s : String) : Except EndpointFault Endpoint :=
  match scheme? s.toList with
  | none => .ok (.filesystem s)
  | some scheme =>
    if isScheme "s3" scheme then readObjectStore s.toList
    else if isScheme "fs" scheme then .ok (.filesystem (String.ofList (filesystemPath s.toList)))
    else .ok (.filesystem s)

end Endpoint

end SyncPlan
