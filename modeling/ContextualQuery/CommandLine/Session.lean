import ContextualQuery.Catalog.Notation
import ContextualQuery.CommandLine.Report
import ContextualQuery.Store.Answering
import ContextualQuery.Store.Loading
/-!
# Sessions

A session is a schema with settings and, perhaps, data. Without data a query is answered by its plan, with
data by the rows that it selects.
-/

namespace ContextualQuery.CommandLine

/-! ## 1. Faults -/

/-- Why a file cannot be read. -/
inductive FileFault
  | refused (reason : String) (code : Nat)
  | notText
  deriving DecidableEq, Repr

/-- The reason in words. -/
def FileFault.describe : FileFault → String
  | refused reason code => reason ++ " (os error " ++ toString code ++ ")"
  | notText => "stream did not contain valid UTF-8"

/-- Why a query is not answered. A fault of the plan comes with the text of the query, the entity, and the
attributes of the entity. -/
inductive Fault
  | window (f : WindowFault)
  | file (name : String) (f : FileFault)
  | schema (f : SchemaFileFault)
  | dataText
  | data (f : DataFault)
  | plan (f : PlanFault) (query entity : String) (attributes : List String)

namespace Fault

/-- The picture of a fault of the plan; for an unknown field with the fields that there are. -/
def picture (f : PlanFault) (query entity : String) (attributes : List String) : String :=
  f.render query ++
    if f.kind = .unknownField ∧ attributes ≠ [] then
      "\navailable fields on " ++ entity ++ ": " ++ String.intercalate ", " attributes
    else ""

/-- The message about the fault. -/
def message : Fault → String
  | window f => f.message
  | file name f => "cannot read " ++ name ++ ": " ++ f.describe
  | schema .unreadable => "json error: the text is not a schema"
  | schema (.invalid f) => f.message
  | dataText => "invalid data file: the text is not JSON"
  | data f => f.message
  | plan f query entity attributes => picture f query entity attributes

end Fault

/-! ## 2. Sessions -/

/-- A planner, and a store if there are data. -/
structure Session where
  planner : Planner
  store : Option Store

namespace Session

/-- Reads the store of a data file. -/
def readStore (schema : Schema) (text : String) : Except Fault Store :=
  match Json.read? text with
  | none => .error .dataText
  | some j =>
    match Store.empty.load schema j with
    | .ok (s, _) => .ok s
    | .error f => .error (.data f)

/-- Reads the schema of a schema file. -/
def readSchema (text : String) : Except Fault Schema :=
  match Schema.read text with
  | .ok s => .ok s
  | .error f => .error (.schema f)

/-- A fault of the plan of a query. -/
def planFault (s : Session) (entity query : String) (f : PlanFault) : Fault :=
  .plan f query entity (s.planner.schema.attributeNames entity)

/-- The answer without data: the plan, the condition for counting, or both. -/
def describe (s : Session) (mode : Mode) (r : Reports) (entity query : String) :
    Except Fault String :=
  match s.planner.planOnce entity query with
  | .error f => .error (s.planFault entity query f)
  | .ok p => .ok <| match mode with
    | .selection => r.selection p
    | .count => r.count p.count
    | .both => together (r.selection p) (r.count p.count)

/-- The answer of a repository, whose gateway does not fail. -/
def settled {α : Type} (s : Session) (entity query : String) :
    Except (RepositoryFault Empty) α → Except Fault α
  | .ok a => .ok a
  | .error (.plan f) => .error (s.planFault entity query f)

/-- The rows of a window. -/
def findRows (s : Session) (store : Store) (entity query : String) (w : Window) :
    Except Fault (Page Record) :=
  let repository : Repository Id Empty Record := ⟨s.planner, store.gateway⟩
  s.settled entity query (repository.find entity query w .empty).1

/-- The number of rows. -/
def countRows (s : Session) (store : Store) (entity query : String) : Except Fault Nat :=
  let repository : Repository Id Empty Record := ⟨s.planner, store.gateway⟩
  s.settled entity query (repository.count entity query .empty).1

/-- The answer with data: the rows of a window, their number, or both. A page tells the number too. -/
def run (s : Session) (store : Store) (mode : Mode) (r : Reports) (entity query : String)
    (w : Window) : Except Fault String :=
  match mode with
  | .selection => (s.findRows store entity query w).map r.page
  | .count => (s.countRows store entity query).map r.total
  | .both => (s.findRows store entity query w).map fun p => together (r.page p) (r.total p.total)

/-- The answer to a query. -/
def answer (s : Session) (mode : Mode) (r : Reports) (entity query : String) (w : Window) :
    Except Fault String :=
  match s.store with
  | none => s.describe mode r entity query
  | some store => s.run store mode r entity query w

end Session

end ContextualQuery.CommandLine
