import SyncPlan.Options

/-!
The arguments of the command line: the names by which each is given, whether it takes a value, and
what the help text says of it. The two ends of a sync are given by position and have no name.
-/

namespace SyncPlan

inductive Argument
  | config
  | configDirectory
  | format
  | field (f : Field)
  | help
  | version
  deriving DecidableEq, Repr

namespace Argument

/-- The arguments with names, in the order of the help text. -/
def named : List Argument :=
  [.config, .configDirectory, .format] ++
    (Field.all.filter fun f => f != .text .source && f != .text .target).map .field ++
    [.help, .version]

def long : Argument → String
  | .config => "config"
  | .configDirectory => "config-dir"
  | .format => "output"
  | .help => "help"
  | .version => "version"
  | .field f =>
    match f with
    | .text .source => "source"
    | .text .target => "target"
    | .text .sourceKey => "sk"
    | .text .sourceSecret => "ss"
    | .text .sourceRegion => "sr"
    | .text .sourceEndpoint => "se"
    | .text .targetKey => "tk"
    | .text .targetSecret => "ts"
    | .text .targetRegion => "tr"
    | .text .targetEndpoint => "te"
    | .count .retries => "s3-retry"
    | .count .retryInterval => "s3-retry-sleep"
    | .text .acl => "s3-acl"
    | .text .storageClass => "s3-storage-class"
    | .number .keysPerRequest => "s3-keys-per-req"
    | .text .fileMode => "fs-file-perm"
    | .text .directoryMode => "fs-dir-perm"
    | .switch .disableAttributes => "fs-disable-xattr"
    | .list .extensions => "filter-ext"
    | .list .notExtensions => "filter-not-ext"
    | .list .contentTypes => "filter-ct"
    | .list .notContentTypes => "filter-not-ct"
    | .number .modifiedAfter => "filter-after-mtime"
    | .number .modifiedBefore => "filter-before-mtime"
    | .switch .onlyModified => "filter-modified"
    | .count .workers => "workers"
    | .switch .debug => "debug"
    | .switch .syncLog => "sync-log"
    | .switch .progress => "sync-progress"
    | .text .onFail => "on-fail"
    | .switch .disableHttp2 => "disable-http2"
    | .count .listBuffer => "list-buffer"
    | .count .objectRate => "ratelimit-objects"
    | .text .bandwidth => "ratelimit-bandwidth"

def short? : Argument → Option Char
  | .field (.count .workers) => some 'w'
  | .field (.switch .debug) => some 'd'
  | .field (.switch .progress) => some 'p'
  | .field (.text .onFail) => some 'f'
  | .help => some 'h'
  | .version => some 'V'
  | _ => none

def ofLong? (name : String) : Option Argument := named.find? (·.long == name)

def ofShort? (c : Char) : Option Argument := named.find? (·.short? == some c)

def takesValue : Argument → Bool
  | .field (.switch _) | .help | .version => false
  | _ => true

/-- The word that stands for the value in help and errors. -/
def valueName : Argument → String
  | .config => "CONFIG"
  | .configDirectory => "CONFIG_DIR"
  | .format => "OUTPUT"
  | .field f => f.key.toUpper
  | .help | .version => ""

/-- An argument as errors name it. -/
def display (a : Argument) : String :=
  if a.takesValue then s!"--{a.long} <{a.valueName}>" else s!"--{a.long}"

def helpText : Argument → String
  | .config => "Explicit config file (skips discovery)"
  | .configDirectory => "Directory to start config file discovery from [default: .]"
  | .format =>
    "Output format for the resolved plan [default: human] [possible values: human, json]"
  | .help => "Print help"
  | .version => "Print version"
  | .field f =>
    match f with
    | .text .source => "Source: s3://bucket/prefix, fs://path or a local path"
    | .text .target => "Target: s3://bucket/prefix, fs://path or a local path"
    | .text .sourceKey => "Source AWS key"
    | .text .sourceSecret => "Source AWS secret"
    | .text .sourceRegion => "Source AWS Region"
    | .text .sourceEndpoint => "Source AWS Endpoint"
    | .text .targetKey => "Target AWS key"
    | .text .targetSecret => "Target AWS secret"
    | .text .targetRegion => "Target AWS Region"
    | .text .targetEndpoint => "Target AWS Endpoint"
    | .count .retries => "Max numbers of retries to sync file"
    | .count .retryInterval => "Sleep interval (sec) between sync retries on error"
    | .text .acl =>
      "S3 ACL for uploaded files. Possible values: private, public-read, public-read-write, " ++
        "aws-exec-read, authenticated-read, bucket-owner-read, bucket-owner-full-control"
    | .text .storageClass => "S3 Storage Class for uploaded files"
    | .number .keysPerRequest => "Max numbers of keys retrieved via List request"
    | .text .fileMode => "File permissions"
    | .text .directoryMode => "Dir permissions"
    | .switch .disableAttributes => "Disable FS xattr for storing metadata"
    | .list .extensions => "Sync only files with given extensions"
    | .list .notExtensions => "Skip files with given extensions"
    | .list .contentTypes => "Sync only files with given Content-Type"
    | .list .notContentTypes => "Skip files with given Content-Type"
    | .number .modifiedAfter => "Sync only files modified after given unix timestamp"
    | .number .modifiedBefore => "Sync only files modified before given unix timestamp"
    | .switch .onlyModified => "Sync only modified files"
    | .count .workers => "Workers count"
    | .switch .debug => "Show debug logging"
    | .switch .syncLog => "Show sync log"
    | .switch .progress => "Show sync progress"
    | .text .onFail => "Action on failed. Possible values: fatal, skip, skipmissing"
    | .switch .disableHttp2 => "Disable HTTP2 for http client"
    | .count .listBuffer => "Size of list buffer"
    | .count .objectRate => "Rate limit objects per second"
    | .text .bandwidth => "Set bandwidth rate limit, byte/s, Allow suffixes: K, M, G"

/-- The entry of an argument in the help text. -/
def helpEntry (a : Argument) : String :=
  let short := match a.short? with
    | some c => "  -" ++ String.singleton c ++ ", "
    | none => "      "
  short ++ a.display ++ "\n          " ++ a.helpText ++ "\n"

def positionalEntry (a : Argument) : String := s!"  [{a.valueName}]  {a.helpText}\n"

end Argument

/-- The text of the help argument. -/
def usageText : String :=
  "Really fast sync tool for S3\n\nUsage: s3sync [OPTIONS] [SOURCE] [TARGET]\n\nArguments:\n" ++
    String.join ([Field.text .source, .text .target].map fun f =>
      (Argument.field f).positionalEntry) ++
    "\nOptions:\n" ++ String.join (Argument.named.map Argument.helpEntry)

/-- The text of the version argument, in the form of its short or its long name. -/
def versionText (long : Bool) : String :=
  if long then "s3sync 0.1.0, commit: none, built at: unknown\n" else "s3sync 0.1.0\n"

end SyncPlan
