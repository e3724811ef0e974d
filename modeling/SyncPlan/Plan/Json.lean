import SyncPlan.Json
import SyncPlan.Plan

/-!
A plan as a JSON document. Keys and secrets are not told, only whether they are given.
-/

namespace SyncPlan

/-- Stars for a secret that is given. -/
def mask (secret : String) : String := if secret.isEmpty then "" else "***"

/-- What an object store at one end needs besides its bucket and path. -/
structure Access where
  key : String
  secret : String
  region : String
  endpoint : String
  deriving DecidableEq, Repr

def Options.access (o : Options) : Side → Access
  | .source =>
    ⟨o.text .sourceKey, o.text .sourceSecret, o.text .sourceRegion, o.text .sourceEndpoint⟩
  | .target =>
    ⟨o.text .targetKey, o.text .targetSecret, o.text .targetRegion, o.text .targetEndpoint⟩

def Route.endpoint (r : Route) : Side → Endpoint
  | .source => r.source
  | .target => r.target

def Access.members (a : Access) : List (String × Json) := [
  ("key", .string (mask a.key)), ("secret", .string (mask a.secret)), ("region", .string a.region),
  ("endpoint", .string a.endpoint)]

namespace Plan

def endpointJson (p : Plan) (side : Side) : Json :=
  let e := p.route.endpoint side
  .object ([("kind", .string e.kindName), ("bucket", .string e.bucket), ("path", .string e.path)] ++
    if e.isObjectStore then (p.options.access side).members else [])

def listJson (texts : List String) : Json := .array (texts.map .string)

def countJson (n : UInt32) : Json := .number n.toNat

def numberJson (n : Int64) : Json := .number n.toInt

def json (p : Plan) : Json :=
  let o := p.options
  .object [
    ("source", p.endpointJson .source),
    ("target", p.endpointJson .target),
    ("s3", .object [
      ("retry", countJson (o.count .retries)),
      ("retry_interval_secs", countJson p.retryInterval),
      ("acl", .string p.route.accessClass.name),
      ("storage_class", .string (o.text .storageClass)),
      ("keys_per_req", numberJson (o.number .keysPerRequest))]),
    ("fs", .object [
      ("file_perm", .string p.fileMode.text),
      ("dir_perm", .string p.directoryMode.text),
      ("xattr", .bool (!o.switch .disableAttributes))]),
    ("filters", .object [
      ("ext", listJson (o.list .extensions)),
      ("not_ext", listJson (o.list .notExtensions)),
      ("ct", listJson (o.list .contentTypes)),
      ("not_ct", listJson (o.list .notContentTypes)),
      ("mtime_after", numberJson (o.number .modifiedAfter)),
      ("mtime_before", numberJson (o.number .modifiedBefore)),
      ("modified", .bool (o.switch .onlyModified))]),
    ("workers", countJson (o.count .workers)),
    ("list_buffer", countJson (o.count .listBuffer)),
    ("on_fail", .string p.route.onFail.word),
    ("sync_log", .bool (o.switch .syncLog)),
    ("progress", .bool (o.switch .progress)),
    ("http2", .bool p.usesHttp2),
    ("rate_limit", .object [
      ("objects_per_sec", countJson (o.count .objectRate)),
      ("bandwidth_bytes_per_sec", .number p.route.bandwidth.toNat)])]

end Plan

end SyncPlan
