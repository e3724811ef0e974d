import SyncPlan.Text.Numeral

/-!
The options of a sync before they are checked. Each has a kind, which fixes what it can hold, and
the options of one kind are named by a type of their own, so that whatever treats all options of a
kind alike is written once.
-/

namespace SyncPlan

inductive TextField
  | source
  | sourceKey
  | sourceSecret
  | sourceRegion
  | sourceEndpoint
  | target
  | targetKey
  | targetSecret
  | targetRegion
  | targetEndpoint
  | acl
  | storageClass
  | fileMode
  | directoryMode
  | onFail
  | bandwidth
  deriving DecidableEq, Repr

/-- Options that count something, up to thirty-two bits. -/
inductive CountField
  | retries
  | retryInterval
  | workers
  | listBuffer
  | objectRate
  deriving DecidableEq, Repr

/-- Options that are signed numbers of sixty-four bits. -/
inductive NumberField
  | keysPerRequest
  | modifiedAfter
  | modifiedBefore
  deriving DecidableEq, Repr

inductive SwitchField
  | disableAttributes
  | onlyModified
  | debug
  | syncLog
  | progress
  | disableHttp2
  deriving DecidableEq, Repr

inductive ListField
  | extensions
  | notExtensions
  | contentTypes
  | notContentTypes
  deriving DecidableEq, Repr

structure Options where
  text : TextField → String
  count : CountField → UInt32
  number : NumberField → Int64
  switch : SwitchField → Bool
  list : ListField → List String

namespace Options

def default : Options where
  text
    | .sourceRegion | .targetRegion => "us-east-1"
    | .acl => "private"
    | .fileMode => "0644"
    | .directoryMode => "0755"
    | .onFail => "fatal"
    | _ => ""
  count
    | .workers => 16
    | .listBuffer => 1000
    | _ => 0
  number
    | .keysPerRequest => 1000
    | _ => 0
  switch _ := false
  list _ := []

instance : Inhabited Options := ⟨default⟩

end Options

/-- An integer as the value of a count, if it is in range. -/
def countOf? (n : Int) : Option UInt32 :=
  if 0 ≤ n ∧ n < Text.boundOfBits 32 then some (UInt32.ofNat n.toNat) else none

/-- An integer as the value of a number, if it is in range. -/
def numberOf? (n : Int) : Option Int64 :=
  if -Text.boundOfBits 63 ≤ n ∧ n < Text.boundOfBits 63 then some (Int64.ofInt n) else none

/-- An option together with a value of its kind. -/
inductive Setting
  | text (f : TextField) (value : String)
  | count (f : CountField) (value : UInt32)
  | number (f : NumberField) (value : Int64)
  | switch (f : SwitchField) (value : Bool)
  | list (f : ListField) (value : List String)
  deriving DecidableEq, Repr

/-- Gives one option a value and leaves the others. -/
def Options.set (o : Options) : Setting → Options
  | .text f v => { o with text := fun g => if g = f then v else o.text g }
  | .count f v => { o with count := fun g => if g = f then v else o.count g }
  | .number f v => { o with number := fun g => if g = f then v else o.number g }
  | .switch f v => { o with switch := fun g => if g = f then v else o.switch g }
  | .list f v => { o with list := fun g => if g = f then v else o.list g }

/-- An option of any kind. -/
inductive Field
  | text (f : TextField)
  | count (f : CountField)
  | number (f : NumberField)
  | switch (f : SwitchField)
  | list (f : ListField)
  deriving DecidableEq, Repr

def Setting.field : Setting → Field
  | .text f _ => .text f
  | .count f _ => .count f
  | .number f _ => .number f
  | .switch f _ => .switch f
  | .list f _ => .list f

/-- All options, in the order in which they are listed to the user. -/
def Field.all : List Field := [
  .text .source, .text .sourceKey, .text .sourceSecret, .text .sourceRegion, .text .sourceEndpoint,
  .text .target, .text .targetKey, .text .targetSecret, .text .targetRegion, .text .targetEndpoint,
  .count .retries, .count .retryInterval, .text .acl, .text .storageClass, .number .keysPerRequest,
  .text .fileMode, .text .directoryMode, .switch .disableAttributes,
  .list .extensions, .list .notExtensions, .list .contentTypes, .list .notContentTypes,
  .number .modifiedAfter, .number .modifiedBefore, .switch .onlyModified,
  .count .workers, .switch .debug, .switch .syncLog, .switch .progress, .text .onFail,
  .switch .disableHttp2, .count .listBuffer, .count .objectRate, .text .bandwidth]

/-- The name of an option in a config file. -/
def Field.key : Field → String
  | .text .source => "source"
  | .text .sourceKey => "source_key"
  | .text .sourceSecret => "source_secret"
  | .text .sourceRegion => "source_region"
  | .text .sourceEndpoint => "source_endpoint"
  | .text .target => "target"
  | .text .targetKey => "target_key"
  | .text .targetSecret => "target_secret"
  | .text .targetRegion => "target_region"
  | .text .targetEndpoint => "target_endpoint"
  | .count .retries => "s3_retry"
  | .count .retryInterval => "s3_retry_interval"
  | .text .acl => "s3_acl"
  | .text .storageClass => "s3_storage_class"
  | .number .keysPerRequest => "s3_keys_per_req"
  | .text .fileMode => "fs_file_perm"
  | .text .directoryMode => "fs_dir_perm"
  | .switch .disableAttributes => "fs_disable_xattr"
  | .list .extensions => "filter_ext"
  | .list .notExtensions => "filter_not_ext"
  | .list .contentTypes => "filter_ct"
  | .list .notContentTypes => "filter_not_ct"
  | .number .modifiedAfter => "filter_mtime_after"
  | .number .modifiedBefore => "filter_mtime_before"
  | .switch .onlyModified => "filter_modified"
  | .count .workers => "workers"
  | .switch .debug => "debug"
  | .switch .syncLog => "sync_log"
  | .switch .progress => "show_progress"
  | .text .onFail => "on_fail"
  | .switch .disableHttp2 => "disable_http2"
  | .count .listBuffer => "list_buffer"
  | .count .objectRate => "rate_limit_objects"
  | .text .bandwidth => "rate_limit_bandwidth"

def Field.ofKey? (key : String) : Option Field := Field.all.find? (·.key == key)

theorem Field.mem_all (f : Field) : f ∈ Field.all := by
  rcases f with f | f | f | f | f <;> cases f <;> decide

theorem Field.ofKey?_key (f : Field) : Field.ofKey? f.key = some f := by
  rcases f with f | f | f | f | f <;> cases f <;> decide

end SyncPlan
