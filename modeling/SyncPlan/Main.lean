import SyncPlan.Run

/-!
The program: it looks at the paths that the run depends on, carries the run out, and prints what
comes of it.
-/

namespace SyncPlan

/-- Whether a path can be resolved. -/
def resolves (path : String) : IO Bool := do
  try
    let _ ← IO.FS.realPath path
    return true
  catch _ => return false

/-- What stands behind a path that cannot be opened. Only a directory resolves with a dot behind
it. -/
def lookClosed (path : String) : IO (Except ReadFault Found) := do
  let fault := ReadFault.other "Permission denied (os error 13)"
  if ← resolves (path ++ "/.") then return .ok .directory
  if ← resolves path then return .ok (.closedFile fault)
  return .error fault

/-- What stands behind a path on the real disk. A directory opens, and reading it fails with the
error of number 21. -/
def look (path : String) : IO (Except ReadFault Found) := do
  if path.toList.contains '\x00' then return .error .nulInPath
  try
    let content ← IO.FS.readBinFile path
    return .ok (.file content.toList)
  catch
    | .noFileOrDirectory .. => return .error .notFound
    | .inappropriateType _ 21 _ => return .ok .directory
    | .inappropriateType .. => return .error .notDirectory
    | .permissionDenied .. => lookClosed path
    | e => return .error (.other (toString e))

/-- The disk as far as a command line makes the run depend on it. -/
def lookAround (arguments : List String) : IO Disk := do
  let paths := match CommandLine.read arguments with
    | .error _ => []
    | .ok c => ConfigFile.probes c.config c.searchStart
  let found ← paths.mapM fun path => return (path, ← look path)
  return fun path => (found.lookup path).getD (.error .notFound)

end SyncPlan

open SyncPlan in
def main (arguments : List String) : IO UInt32 := do
  let output ← IO.getStdout
  let env : Environment := {
    noColor := ← IO.getEnv "NO_COLOR"
    logFilter := ← IO.getEnv "RUST_LOG"
    onTerminal := ← output.isTty }
  let outcome := run arguments env (← lookAround arguments)
  output.putStr outcome.output
  let errors ← IO.getStderr
  errors.putStr outcome.errors
  return UInt32.ofNat outcome.exitCode
