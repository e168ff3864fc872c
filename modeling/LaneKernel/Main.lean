import LaneKernel.Command.Basic

/-!
# The program

Runs the command on the file system, standard output and standard error.
-/

namespace LaneKernel

/-- The reason that a failed file operation reports. -/
def failureReason : IO.Error → String
  | .noFileOrDirectory _ _ _ => Command.Session.noFile
  | .inappropriateType _ _ _ => Command.Session.isDirectory
  | .permissionDenied _ _ _ => "permission denied"
  | failure => toString failure

/-- A log record as one line. -/
def logLine (record : Command.LogRecord) : String :=
  let attributes :=
    record.attributes.map fun (key, value) => " " ++ key ++ "=" ++ value
  "level=" ++ record.level.name ++ " msg=" ++ Text.quote record.message ++
    String.join attributes

/-- A file operation with its failure as a value. -/
def tryFile (path : String) (action : IO α) :
    IO (Except Command.FileError α) := do
  try return .ok (← action)
  catch failure => return .error ⟨"open", path, failureReason failure⟩

/-- The file system, standard output and standard error as the host of a
command.  Debug records are shown on request. -/
def systemHost (verbose : Bool) : Command.Host IO where
  readFile path := tryFile path (IO.FS.readBinFile path)
  writeFile path content := tryFile path (IO.FS.writeBinFile path content)
  print text := IO.print text
  log record := do
    if verbose || record.level ≠ .debug then IO.eprintln (logLine record)
  setting := return (← IO.getEnv Capability.hidingVariable).getD ""

end LaneKernel

def main (arguments : List String) : IO UInt32 := do
  let verbose := match LaneKernel.Command.parseArguments arguments with
    | .ok options => options.verbose
    | .error _ => false
  let terminal ← (← IO.getStdout).isTty
  let status ← LaneKernel.Command.execute (LaneKernel.systemHost verbose)
      terminal 0 arguments
  IO.eprint status.report
  return status.code.toUInt32
