import ContextualQuery.Value.Basic
/-!
# Types of fields

A field holds plain values, members of an enumeration, or objects of an embedded entity; and it holds
one of them, at most one, or any number.
-/

namespace ContextualQuery

/-- The kinds of plain values. -/
inductive ScalarType
  | bool
  | int32
  | int64
  | float32
  | float64
  | string
  | timestamp
  | date
  | uuid
  deriving DecidableEq, Repr

namespace ScalarType

/-- All kinds. -/
def all : List ScalarType :=
  [bool, int32, int64, float32, float64, string, timestamp, date, uuid]

/-- The name of the kind. -/
def name : ScalarType → String
  | bool => "bool"
  | int32 => "int32"
  | int64 => "int64"
  | float32 => "float32"
  | float64 => "float64"
  | string => "string"
  | timestamp => "timestamp"
  | date => "date"
  | uuid => "uuid"

/-- The domain of the values. -/
def domain : ScalarType → Domain
  | bool => .bool
  | int32 => .int32
  | int64 => .int64
  | float32 => .float32
  | float64 => .float64
  | string => .text
  | timestamp => .timestamp
  | date => .date
  | uuid => .uuid

end ScalarType

/-- How many values a field holds. -/
inductive Occurrence
  | one
  | optional
  | many
  deriving DecidableEq, Repr

/-- What a field holds at each of its places. -/
inductive FieldContent
  | values (d : Domain)
  | objects (entity : String)
  deriving DecidableEq, Repr

/-- The type of a field. There are no lists of members of an enumeration. -/
inductive FieldType
  | scalar (occurrence : Occurrence) (s : ScalarType)
  | enumeration (isOptional : Bool) (name : String) (variants : List String)
  | embedded (occurrence : Occurrence) (entity : String)
  deriving DecidableEq, Repr

namespace FieldType

/-- How many values the field holds. -/
def occurrence : FieldType → Occurrence
  | scalar o _ => o
  | enumeration isOptional _ _ => if isOptional then .optional else .one
  | embedded o _ => o

/-- Whether the field may be without a value. A list is never absent, though it may be empty. -/
def isNullable (t : FieldType) : Bool := t.occurrence == .optional

/-- Whether the field holds a list. -/
def isArray (t : FieldType) : Bool := t.occurrence == .many

/-- What the field holds. -/
def content : FieldType → FieldContent
  | scalar _ s => .values s.domain
  | enumeration _ name variants => .values (.enumeration name variants)
  | embedded _ entity => .objects entity

/-- The domain of the values, if it holds values. -/
def domain? (t : FieldType) : Option Domain :=
  match t.content with
  | .values d => some d
  | .objects _ => none

/-- The entity of the objects, if it holds objects. -/
def embedded? (t : FieldType) : Option String :=
  match t.content with
  | .values _ => none
  | .objects entity => some entity

end FieldType

end ContextualQuery
