import SyncPlan.Plan.Json
import SyncPlan.Proofs.Json.Writing
import SyncPlan.Proofs.Resolution
import SyncPlan.Proofs.Settings

/-!
What a plan tells as a document. All that is printed of a plan can be read back from its document,
in the one layout as in the other, so that plans with one text agree in all of it.
-/

namespace SyncPlan
open Text

/-- What is told of an object store besides its bucket and path. -/
structure StoreReport where
  hasKey : Bool
  hasSecret : Bool
  region : String
  endpoint : String
  deriving DecidableEq, Repr

structure EndReport where
  endpoint : Endpoint
  store : Option StoreReport
  deriving DecidableEq, Repr

/-- What is told of requests to a store. -/
structure RequestReport where
  retries : UInt32
  retryInterval : UInt32
  accessClass : AccessClass
  storageClass : String
  keysPerRequest : Int64
  deriving DecidableEq, Repr

/-- What is told of files. -/
structure FileReport where
  fileMode : FileMode
  directoryMode : FileMode
  attributes : Bool
  deriving DecidableEq, Repr

structure FilterReport where
  extensions : List String
  notExtensions : List String
  contentTypes : List String
  notContentTypes : List String
  modifiedAfter : Int64
  modifiedBefore : Int64
  onlyModified : Bool
  deriving DecidableEq, Repr

structure RateReport where
  objects : UInt32
  bandwidth : UInt64
  deriving DecidableEq, Repr

/-- All that a document tells of a plan. -/
structure Report where
  source : EndReport
  target : EndReport
  requests : RequestReport
  files : FileReport
  filters : FilterReport
  workers : UInt32
  listBuffer : UInt32
  onFail : FailureAction
  syncLog : Bool
  progress : Bool
  http2 : Bool
  rates : RateReport
  deriving DecidableEq, Repr

def Access.report (a : Access) : StoreReport where
  hasKey := a.key != ""
  hasSecret := a.secret != ""
  region := a.region
  endpoint := a.endpoint

namespace Plan

def endReport (p : Plan) (side : Side) : EndReport where
  endpoint := p.route.endpoint side
  store :=
    if (p.route.endpoint side).isObjectStore then some (p.options.access side).report else none

def report (p : Plan) : Report where
  source := p.endReport .source
  target := p.endReport .target
  requests := {
    retries := p.options.count .retries
    retryInterval := p.retryInterval
    accessClass := p.route.accessClass
    storageClass := p.options.text .storageClass
    keysPerRequest := p.options.number .keysPerRequest }
  files := {
    fileMode := p.fileMode
    directoryMode := p.directoryMode
    attributes := !p.options.switch .disableAttributes }
  filters := {
    extensions := p.options.list .extensions
    notExtensions := p.options.list .notExtensions
    contentTypes := p.options.list .contentTypes
    notContentTypes := p.options.list .notContentTypes
    modifiedAfter := p.options.number .modifiedAfter
    modifiedBefore := p.options.number .modifiedBefore
    onlyModified := p.options.switch .onlyModified }
  workers := p.options.count .workers
  listBuffer := p.options.count .listBuffer
  onFail := p.route.onFail
  syncLog := p.options.switch .syncLog
  progress := p.options.switch .progress
  http2 := p.usesHttp2
  rates := {
    objects := p.options.count .objectRate
    bandwidth := p.route.bandwidth }

end Plan

namespace Datum

/-- What a reader makes of the member of an object with some key. -/
def field? {α : Type} (key : String) (reader : Datum → Option α) : Datum → Option α
  | object members => (members.lookup key).bind reader
  | _ => none

def asBool? : Datum → Option Bool
  | bool b => some b
  | _ => none

def asText? : Datum → Option String
  | string s => some s
  | _ => none

def asTexts? : Datum → Option (List String)
  | array items => items.mapM asText?
  | _ => none

def asInteger? : Datum → Option Int
  | number q => if q.den = 1 then some q.num else none
  | _ => none

def asCount? (v : Datum) : Option UInt32 := v.asInteger?.bind countOf?

def asNumber? (v : Datum) : Option Int64 := v.asInteger?.bind numberOf?

def asRate? (v : Datum) : Option UInt64 :=
  v.asInteger?.bind fun n =>
    if 0 ≤ n ∧ n < boundOfBits 64 then some (UInt64.ofNat n.toNat) else none

def asMode? (v : Datum) : Option FileMode :=
  v.asText?.bind fun s => (FileMode.read s).toOption

def asAccessClass? (v : Datum) : Option AccessClass :=
  v.asText?.bind fun s => AccessClass.all.find? (·.name == s)

def asFailureAction? (v : Datum) : Option FailureAction := v.asText?.bind FailureAction.ofWord?

def asStore? (v : Datum) : Option StoreReport := do
  let key ← v.field? "key" asText?
  let secret ← v.field? "secret" asText?
  let region ← v.field? "region" asText?
  let endpoint ← v.field? "endpoint" asText?
  some { hasKey := key != "", hasSecret := secret != "", region, endpoint }

def asEnd? (v : Datum) : Option EndReport := do
  let kind ← v.field? "kind" asText?
  let bucket ← v.field? "bucket" asText?
  let path ← v.field? "path" asText?
  if kind = "object-store" then
    let store ← v.asStore?
    some { endpoint := .objectStore bucket path, store }
  else if kind = "filesystem" then some { endpoint := .filesystem path, store := none }
  else none

def asRequests? (v : Datum) : Option RequestReport := do
  let retries ← v.field? "retry" asCount?
  let retryInterval ← v.field? "retry_interval_secs" asCount?
  let accessClass ← v.field? "acl" asAccessClass?
  let storageClass ← v.field? "storage_class" asText?
  let keysPerRequest ← v.field? "keys_per_req" asNumber?
  some { retries, retryInterval, accessClass, storageClass, keysPerRequest }

def asFiles? (v : Datum) : Option FileReport := do
  let fileMode ← v.field? "file_perm" asMode?
  let directoryMode ← v.field? "dir_perm" asMode?
  let attributes ← v.field? "xattr" asBool?
  some { fileMode, directoryMode, attributes }

def asFilters? (v : Datum) : Option FilterReport := do
  let extensions ← v.field? "ext" asTexts?
  let notExtensions ← v.field? "not_ext" asTexts?
  let contentTypes ← v.field? "ct" asTexts?
  let notContentTypes ← v.field? "not_ct" asTexts?
  let modifiedAfter ← v.field? "mtime_after" asNumber?
  let modifiedBefore ← v.field? "mtime_before" asNumber?
  let onlyModified ← v.field? "modified" asBool?
  some {
    extensions, notExtensions, contentTypes, notContentTypes, modifiedAfter, modifiedBefore,
    onlyModified }

def asRates? (v : Datum) : Option RateReport := do
  let objects ← v.field? "objects_per_sec" asCount?
  let bandwidth ← v.field? "bandwidth_bytes_per_sec" asRate?
  some { objects, bandwidth }

/-- Reads back what the document of a plan tells. -/
def asReport? (v : Datum) : Option Report := do
  let source ← v.field? "source" asEnd?
  let target ← v.field? "target" asEnd?
  let requests ← v.field? "s3" asRequests?
  let files ← v.field? "fs" asFiles?
  let filters ← v.field? "filters" asFilters?
  let workers ← v.field? "workers" asCount?
  let listBuffer ← v.field? "list_buffer" asCount?
  let onFail ← v.field? "on_fail" asFailureAction?
  let syncLog ← v.field? "sync_log" asBool?
  let progress ← v.field? "progress" asBool?
  let http2 ← v.field? "http2" asBool?
  let rates ← v.field? "rate_limit" asRates?
  some {
    source, target, requests, files, filters, workers, listBuffer, onFail, syncLog, progress, http2,
    rates }

end Datum

open Json Datum

theorem asInteger?_number (n : Int) : asInteger? (.number n) = some n := by
  simp [asInteger?]

theorem asCount?_number (n : Int) : asCount? (.number n) = countOf? n := by
  rw [asCount?, asInteger?_number, Option.bind_some]

theorem asCount?_countJson (n : UInt32) : asCount? (Plan.countJson n).datum = some n := by
  rw [Plan.countJson, datum, asCount?_number, countOf?_toNat]

theorem asNumber?_numberJson (n : Int64) : asNumber? (Plan.numberJson n).datum = some n := by
  simp only [Plan.numberJson, datum, asNumber?, asInteger?_number, Option.bind_some,
    numberOf?_toInt]

theorem asRate?_number (n : UInt64) : asRate? (Json.number n.toNat).datum = some n := by
  have hlt : n.toNat < boundOfBits 64 := n.toNat_lt
  rw [datum, asRate?, asInteger?_number, Option.bind_some, if_pos (by omega)]
  simp

theorem asTexts?_listJson (texts : List String) :
    asTexts? (Plan.listJson texts).datum = some texts := by
  rw [Plan.listJson, datum, asTexts?]
  induction texts with
  | nil => rfl
  | cons s texts ih =>
      rw [List.map_cons, itemData, List.mapM_cons, ih]
      rfl

theorem asAccessClass?_name (c : AccessClass) :
    asAccessClass? (Json.string c.name).datum = some c := by
  rw [datum]
  cases c <;> decide

theorem asFailureAction?_word (a : FailureAction) :
    asFailureAction? (Json.string a.word).datum = some a := by
  rw [datum]
  exact FailureAction.ofWord?_word a

/-- Permission bits are read back from their octal digits. -/
theorem FileMode.read_text (m : FileMode) : FileMode.read m.text = .ok m := by
  obtain ⟨hdigits, hvalue⟩ :=
    isDigit_and_valueOf_toDigits (show 1 < 8 by decide) (by decide) m.bits.toNat
  rw [FileMode.read_eq_ok_iff, FileMode.text, String.toList_ofList]
  refine ⟨_, .inl rfl, ⟨?_, ?_⟩, ?_⟩
  · simp [Nat.toDigits_ne_nil]
  · intro c hc
    cases List.mem_append.1 hc with
    | inl hzero => exact (List.eq_of_mem_replicate hzero) ▸ by decide
    | inr hmem => exact hdigits c hmem
  · rw [valueOf_zeros, hvalue]

theorem asMode?_text (m : FileMode) : asMode? (Json.string m.text).datum = some m := by
  rw [datum, asMode?, asText?, Option.bind_some, FileMode.read_text]
  rfl

/-- A secret is masked by stars exactly when there is one. -/
theorem mask_ne_empty (s : String) : (mask s != "") = (s != "") := by
  by_cases hs : s = ""
  · rw [hs]
    decide
  · have hmask : mask s = "***" := by simp [mask, hs]
    rw [hmask, Bool.eq_iff_iff]
    simp [hs]

theorem datum_object (ms : List (String × Json)) :
    (Json.object ms).datum = .object (memberData ms) := by
  rw [datum]

theorem field?_cons_self {α : Type} (k : String) (reader : Datum → Option α) (v : Json)
    (ms : List (String × Json)) :
    field? k reader (.object (memberData ((k, v) :: ms))) = reader v.datum := by
  simp [field?, memberData]

theorem field?_cons_of_ne {α : Type} {k k' : String} (h : k ≠ k') (reader : Datum → Option α)
    (v : Json) (ms : List (String × Json)) :
    field? k reader (.object (memberData ((k', v) :: ms))) =
      field? k reader (.object (memberData ms)) := by
  have hne : (k == k') = false := by simpa using h
  simp only [field?, memberData, List.lookup_cons, hne]

theorem asBool?_bool (b : Bool) : asBool? (Json.bool b).datum = some b := by
  rw [datum, asBool?]

theorem asText?_string (s : String) : asText? (Json.string s).datum = some s := by
  rw [datum, asText?]

theorem asEnd?_endpointJson (p : Plan) (side : Side) :
    asEnd? (p.endpointJson side).datum = some (p.endReport side) := by
  rw [Plan.endpointJson, Plan.endReport]
  cases p.route.endpoint side with
  | objectStore bucket path =>
      simp [Endpoint.isObjectStore, Endpoint.kindName, Endpoint.bucket, Endpoint.path,
        Access.members, datum_object, asEnd?, asStore?, field?_cons_self, field?_cons_of_ne,
        asText?_string, mask_ne_empty, Access.report]
  | filesystem path =>
      simp [Endpoint.isObjectStore, Endpoint.kindName, Endpoint.bucket, Endpoint.path,
        datum_object, asEnd?, field?_cons_self, field?_cons_of_ne, asText?_string]

theorem asReport?_json (p : Plan) : asReport? p.json.datum = some p.report := by
  simp only [asReport?, asRequests?, asFiles?, asFilters?, asRates?, Plan.json, datum_object,
    ↓field?_cons_self, ↓field?_cons_of_ne, ne_eq, String.reduceEq, not_false_eq_true,
    Option.bind_eq_bind, Option.bind_some, asEnd?_endpointJson, asCount?_countJson,
    asNumber?_numberJson, asRate?_number, asTexts?_listJson, asBool?_bool, asText?_string,
    asAccessClass?_name, asFailureAction?_word, asMode?_text]
  rfl

/-- The keys of an object. -/
def Datum.keys : Datum → List String
  | .object members => members.map Prod.fst
  | _ => []

/-- The keys of an object, each with the keys of its own value. -/
def Datum.outline : Datum → List (String × List String)
  | .object members => members.map fun (k, v) => (k, v.keys)
  | _ => []

def Endpoint.keys (e : Endpoint) : List String :=
  ["kind", "bucket", "path"] ++
    if e.isObjectStore then ["key", "secret", "region", "endpoint"] else []

/-- The order of the keys in the document of a plan. -/
def Plan.outline (p : Plan) : List (String × List String) := [
  ("source", p.route.source.keys),
  ("target", p.route.target.keys),
  ("s3", ["retry", "retry_interval_secs", "acl", "storage_class", "keys_per_req"]),
  ("fs", ["file_perm", "dir_perm", "xattr"]),
  ("filters", ["ext", "not_ext", "ct", "not_ct", "mtime_after", "mtime_before", "modified"]),
  ("workers", []), ("list_buffer", []), ("on_fail", []), ("sync_log", []), ("progress", []),
  ("http2", []), ("rate_limit", ["objects_per_sec", "bandwidth_bytes_per_sec"])]

theorem keys_endpointJson (p : Plan) (side : Side) :
    (p.endpointJson side).datum.keys = (p.route.endpoint side).keys := by
  rw [Plan.endpointJson, datum_object, Endpoint.keys]
  cases (p.route.endpoint side).isObjectStore <;> rfl

theorem outline_json (p : Plan) : p.json.datum.outline = p.outline := by
  have hsource := keys_endpointJson p .source
  have htarget := keys_endpointJson p .target
  rw [Plan.json, datum_object, Plan.outline]
  simp only [memberData, Datum.outline, List.map_cons, List.map_nil, hsource, htarget]
  rfl

/-- Whichever of the two layouts it is written in, the document of a plan is one of the grammar, and
every reader of the grammar finds one value in it, with the keys in their order. From this value all
that is printed of the plan is read back, so two plans with one text agree in all of it. -/
theorem json_recovers_report (p : Plan) :
    (∃ v : Datum,
      (∀ layout ∈ [Layout.pretty, Layout.compact],
        (∀ w, IsDocument (p.json.text layout) w ↔ w = v) ∧
          read? (p.json.text layout) = some v) ∧
      v.outline = p.outline ∧ v.asReport? = some p.report) ∧
    ∀ q : Plan, ∀ layout ∈ [Layout.pretty, Layout.compact],
      ∀ layout' ∈ [Layout.pretty, Layout.compact],
        p.json.text layout = q.json.text layout' → p.report = q.report := by
  have hwhite : ∀ layout ∈ [Layout.pretty, Layout.compact], layout.IsWhite := by
    intro layout hlayout
    obtain rfl | rfl : layout = Layout.pretty ∨ layout = Layout.compact := by simpa using hlayout
    · exact Layout.isWhite_pretty
    · exact Layout.isWhite_compact
  refine ⟨⟨p.json.datum, ?_, outline_json p, asReport?_json p⟩, ?_⟩
  · intro layout hlayout
    have hdocument := isDocument_text (hwhite layout hlayout) p.json
    refine ⟨fun w => ⟨fun hw => hw.unique hdocument, fun heq => heq ▸ hdocument⟩, ?_⟩
    exact read?_text (hwhite layout hlayout) p.json
  · intro q layout hlayout layout' hlayout' htext
    have hp := read?_text (hwhite layout hlayout) p.json
    rw [htext, read?_text (hwhite layout' hlayout')] at hp
    have hreport := asReport?_json p
    rw [← Option.some.inj hp, asReport?_json q] at hreport
    exact (Option.some.inj hreport).symm

end SyncPlan
