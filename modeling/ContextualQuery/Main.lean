import ContextualQuery.CommandLine.Command
/-!
# The program

Reads files for the command, and writes what it says.
-/

namespace ContextualQuery.CommandLine

/-- Why the system did not read a file. -/
def fileFault : IO.Error → FileFault
  | .noFileOrDirectory _ code reason => .refused reason code.toNat
  | .permissionDenied _ code reason => .refused reason code.toNat
  | .inappropriateType _ code reason => .refused reason code.toNat
  | .invalidArgument _ code reason => .refused reason code.toNat
  | .resourceExhausted _ code reason => .refused reason code.toNat
  | .otherError code reason => .refused reason code.toNat
  | _ => .notText

/-- Reads a file of the system. -/
def readSystemFile (name : String) : IO (Except FileFault String) := do
  try
    return .ok (← IO.FS.readFile name)
  catch e => return .error (fileFault e)

end ContextualQuery.CommandLine

/-- Runs the command. -/
def main (arguments : List String) : IO UInt32 := do
  let outcome ← ContextualQuery.CommandLine.command
    ContextualQuery.CommandLine.readSystemFile arguments
  IO.print outcome.output
  IO.eprint outcome.complaint
  return outcome.code.toUInt32
