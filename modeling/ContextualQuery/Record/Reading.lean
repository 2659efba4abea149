import ContextualQuery.Catalog.Basic
import ContextualQuery.Json.Writing
import ContextualQuery.Record.Basic
/-!
# Records from data files

A data file is JSON. What an object in it may hold, and as what it is read, is told by the entity it is
read for. Objects are read in the order of their names, and the first thing that does not fit is the fault.
-/

namespace ContextualQuery

/-! ## 1. Faults -/

/-- What may be wrong with data. A context is an attribute after the name of its entity. -/
inductive DataFault
  | notTables
  | notRows (entity : String)
  | unknownEntity (entity : String)
  | notRecord (entity : String)
  | unknownField (name entity : String)
  | notArray (context : String)
  | notObject (context : String)
  | embedsUnknown (context entity : String)
  | unfit (context : String) (content : Json) (domain : Domain)

namespace DataFault

/-- What is wrong. -/
def describe : DataFault → String
  | notTables => "data must map entity names to record arrays"
  | notRows entity => "records of '" ++ entity ++ "' must be an array"
  | unknownEntity entity => "unknown entity '" ++ entity ++ "'"
  | notRecord entity => entity ++ " record must be a JSON object"
  | unknownField name entity => "unknown field '" ++ name ++ "' on entity '" ++ entity ++ "'"
  | notArray context => context ++ " must be an array"
  | notObject context => context ++ " must be an object"
  | embedsUnknown context entity => context ++ " embeds unknown entity '" ++ entity ++ "'"
  | unfit context content domain =>
    context ++ " cannot hold " ++ content.write ++ " as " ++ domain.describe

/-- The message about it. -/
def message (f : DataFault) : String := "invalid record: " ++ f.describe

end DataFault

/-! ## 2. Values -/

/-- The value of a domain that plain JSON stands for. Null stands for itself; dates, instants and identifiers
are texts, and an instant may also be a number of microseconds. -/
def Domain.ofData? (d : Domain) (j : Json) : Option Value :=
  match d, j with
  | _, .null => some .null
  | .text, .text s => some (.text s)
  | .int32, j => (Value.readInt32? j).map .int32
  | .int64, j => (Value.readInt64? j).map .int64
  | .float32, j => j.double?.map fun x => .float32 x.toSingle
  | .float64, j => j.double?.map .float64
  | .bool, .bool b => some (.bool b)
  | .timestamp, .text s => (readInstant? s.toList >>= int64?).map .timestamp
  | .timestamp, j => (Value.readInt64? j).map .timestamp
  | .date, .text s => (readDays? s.toList >>= int32?).map .date
  | .uuid, .text s => (Uuid.read? s.toList).map .uuid
  | .enumeration _ variants, .text s => (variants.find? (· == s)).map .member
  | _, _ => none

/-! ## 3. Records -/

namespace Record

/-- Reads a value, or says what is wrong with something that is neither a list nor an object. -/
def readLeaf (s : Schema) (context : String) (type : FieldType) (j : Json) : Except DataFault Datum :=
  match type.content with
  | .objects target =>
    if s.hasEntity target then .error (.notObject context)
    else .error (.embedsUnknown context target)
  | .values d =>
    match d.ofData? j with
    | some v => .ok (.scalar v)
    | none => .error (.unfit context j d)

mutual

/-- Reads the content of a field, or, inside a list, of one place of it. -/
def readDatum (s : Schema) (context : String) (type : FieldType) (inList : Bool) :
    Json → Except DataFault Datum
  | .null => if inList then readLeaf s context type .null else .ok (.scalar .null)
  | .array items =>
    if type.isArray && !inList then (readItems s context type items).map .list
    else readLeaf s context type (.array items)
  | .object members =>
    if type.isArray && !inList then .error (.notArray context)
    else match type.content with
    | .objects target =>
      match s.entity? target with
      | some e => (readMembers s e members).map .object
      | none => .error (.embedsUnknown context target)
    | .values _ => readLeaf s context type (.object members)
  | j => if type.isArray && !inList then .error (.notArray context) else readLeaf s context type j

/-- Reads the places of a list. -/
def readItems (s : Schema) (context : String) (type : FieldType) :
    List Json → Except DataFault (List Datum)
  | [] => .ok []
  | j :: rest =>
    match readDatum s context type true j with
    | .error f => .error f
    | .ok d => (readItems s context type rest).map (d :: ·)

/-- Reads the members of an object for an entity. -/
def readMembers (s : Schema) (e : Entity) : List (String × Json) → Except DataFault Record
  | [] => .ok empty
  | (name, j) :: rest =>
    match e.field? name with
    | none => .error (.unknownField name e.name)
    | some f =>
      match readDatum s (e.name ++ "." ++ name) f.type false j with
      | .error fault => .error fault
      | .ok d => (readMembers s e rest).map (·.set name d)

end

/-- Reads a record of an entity from JSON whose members are in order. -/
def ofOrdered (s : Schema) (entity : String) (j : Json) : Except DataFault Record :=
  match s.entity? entity, j with
  | none, _ => .error (.unknownEntity entity)
  | some e, .object members => readMembers s e members
  | some _, _ => .error (.notRecord entity)

/-- Reads a record of an entity. -/
def ofJson (s : Schema) (entity : String) (j : Json) : Except DataFault Record :=
  ofOrdered s entity j.ordered

end Record

end ContextualQuery
