import ContextualQuery.CommandLine.Help
import ContextualQuery.CommandLine.Session
/-!
# The command

The command reads its options, then the schema file, then the data file if one is named, and answers the
query. The window is looked at before any file. An inquiry about the command itself needs no file.
-/

namespace ContextualQuery.CommandLine

variable {m : Type → Type} [Monad m]

/-- Reads a file, given how to read files. -/
def readFile (read : String → m (Except FileFault String)) (name : String) : ExceptT Fault m String := do
  match ← read name with
  | .ok text => return text
  | .error f => throw (.file name f)

/-- Opens a session with the files named in the options. -/
def openSession (read : String → m (Except FileFault String)) (o : Options) : ExceptT Fault m Session := do
  let schema ← Session.readSchema (← readFile read o.schema)
  let planner : Planner := { schema := schema, settings := o.settings }
  match o.data with
  | none => return { planner := planner, store := none }
  | some name =>
    let store ← Session.readStore schema (← readFile read name)
    return { planner := planner, store := some store }

/-- The window that the options ask for. -/
def requestedWindow (o : Options) : Except Fault Window :=
  match Window.ofBounds o.offset o.limit with
  | .ok w => .ok w
  | .error f => .error (.window f)

/-- Does what the options say. -/
def execute (read : String → m (Except FileFault String)) (o : Options) : ExceptT Fault m String := do
  let w ← requestedWindow o
  let session ← openSession read o
  session.answer o.mode o.format.reports o.entity o.query w

/-- How the command ends: its exit code, and what it writes as output and about faults. -/
structure Outcome where
  code : Nat
  output : String := ""
  complaint : String := ""
  deriving DecidableEq, Repr

/-- Runs the command with its arguments. -/
def command (read : String → m (Except FileFault String)) (arguments : List String) : m Outcome := do
  match Request.ofArguments arguments with
  | .error f => return { code := 2, complaint := "error: " ++ f.message ++ "\n" }
  | .ok (.inform i) => return { code := 0, output := i.reply }
  | .ok (.answer o) =>
    match ← (execute read o).run with
    | .ok output => return { code := 0, output := output ++ "\n" }
    | .error f => return { code := 1, complaint := "Error: " ++ f.message ++ "\n" }

end ContextualQuery.CommandLine
