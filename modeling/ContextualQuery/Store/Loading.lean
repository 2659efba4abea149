import ContextualQuery.Record.Reading
import ContextualQuery.Store.Basic
/-!
# Data files

A data file is a JSON object with a list of records for every entity. Its records come into a store together,
or, if one of them does not fit the schema, not at all.
-/

namespace ContextualQuery

/-- Records that wait for their tables. -/
abbrev Batch := List (String × List Record)

namespace Batch

/-- The number of records. -/
def size : Batch → Nat
  | [] => 0
  | (_, rs) :: rest => rs.length + size rest

/-- Reads the records of an entity. -/
def readRows (s : Schema) (entity : String) (j : Json) : Except DataFault (List Record) :=
  match j with
  | .array rows => rows.mapM (Record.ofOrdered s entity)
  | _ => .error (.notRows entity)

/-- Reads the records of several entities. -/
def readTables (s : Schema) : List (String × Json) → Except DataFault Batch
  | [] => .ok []
  | (entity, j) :: rest =>
    match readRows s entity j with
    | .error f => .error f
    | .ok rs => (readTables s rest).map ((entity, rs) :: ·)

/-- Reads a data file. -/
def ofJson (s : Schema) (j : Json) : Except DataFault Batch :=
  match j.ordered with
  | .object members => readTables s members
  | _ => .error .notTables

end Batch

namespace Store

/-- Adds the records of a batch, each behind those of its entity. -/
def add (s : Store) (b : Batch) : Store := b.foldl (fun s e => s.extend e.1 e.2) s

/-- Adds the records of a data file, and says how many there are. -/
def load (s : Store) (schema : Schema) (j : Json) : Except DataFault (Store × Nat) :=
  (Batch.ofJson schema j).map fun b => (s.add b, b.size)

end Store

end ContextualQuery
