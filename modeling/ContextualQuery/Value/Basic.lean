import ContextualQuery.Uuid
import ContextualQuery.Number.Decimal
/-!
# Values and their domains

A value is what an attribute of a record holds and what a term is read as. A domain is the set of
values that an attribute may hold; `Domain.admits` says which these are.
-/

namespace ContextualQuery

/-- A value. Instants are microseconds and dates are days since the first of January 1970; a member
is an element of an enumeration in its declared spelling. -/
inductive Value
  | null
  | bool (b : Bool)
  | int32 (n : Int32)
  | int64 (n : Int64)
  | float32 (x : Single)
  | float64 (x : Double)
  | text (s : String)
  | timestamp (micros : Int64)
  | date (days : Int32)
  | uuid (u : Uuid)
  | member (variant : String)
  deriving DecidableEq, Repr

/-- What values an attribute may hold. -/
inductive Domain
  | text
  | int32
  | int64
  | float32
  | float64
  | bool
  | timestamp
  | date
  | uuid
  | enumeration (name : String) (variants : List String)
  deriving DecidableEq, Repr

namespace Value

/-- Whether there is no value. -/
def isNull : Value → Bool
  | null => true
  | _ => false

/-- The name of the kind of value. -/
def typeName : Value → String
  | null => "null"
  | bool _ => "bool"
  | int32 _ => "int32"
  | int64 _ => "int64"
  | float32 _ => "float32"
  | float64 _ => "float64"
  | text _ => "string"
  | timestamp _ => "timestamp"
  | date _ => "date"
  | uuid _ => "uuid"
  | member _ => "enum"

/-- The truth value. -/
def bool? : Value → Option Bool
  | bool b => some b
  | _ => none

/-- The integer, of either width. -/
def integer? : Value → Option Int
  | int64 n => some n.toInt
  | int32 n => some n.toInt
  | _ => none

/-- The number as a double. Large integers are rounded. -/
def double? : Value → Option Double
  | float64 x => some x
  | float32 x => some x.toDouble
  | int64 n => some (.ofInt n.toInt)
  | int32 n => some (.ofInt n.toInt)
  | _ => none

/-- The floating point number as a double. -/
def float? : Value → Option Double
  | float64 x => some x
  | float32 x => some x.toDouble
  | _ => none

/-- The text; a member of an enumeration is a text too. -/
def text? : Value → Option String
  | text s => some s
  | member s => some s
  | _ => none

/-- The instant. -/
def timestamp? : Value → Option Int
  | timestamp t => some t.toInt
  | _ => none

/-- The identifier. -/
def uuid? : Value → Option Uuid
  | uuid u => some u
  | _ => none

end Value

namespace Domain

/-- Whether the domain is free text. -/
def isText : Domain → Bool
  | text => true
  | _ => false

/-- Whether the domain consists of numbers. -/
def isNumeric : Domain → Bool
  | int32 | int64 | float32 | float64 => true
  | _ => false

/-- Whether its values can be asked to be less or greater. -/
def isOrdered : Domain → Bool
  | text | int32 | int64 | float32 | float64 | timestamp | date => true
  | bool | uuid | enumeration _ _ => false

/-- The domain in words. -/
def describe : Domain → String
  | text => "text"
  | int32 => "int32"
  | int64 => "int64"
  | float32 => "float32"
  | float64 => "float64"
  | bool => "boolean"
  | timestamp => "timestamp"
  | date => "date"
  | uuid => "uuid"
  | enumeration name _ => "enum " ++ name

/-- Whether a value belongs to the domain. Null belongs to none. -/
def admits : Domain → Value → Bool
  | text, .text _ => true
  | int32, .int32 _ => true
  | int64, .int64 _ => true
  | float32, .float32 _ => true
  | float64, .float64 _ => true
  | bool, .bool _ => true
  | timestamp, .timestamp _ => true
  | date, .date _ => true
  | uuid, .uuid _ => true
  | enumeration _ variants, .member v => variants.contains v
  | _, _ => false

end Domain

/-- The integer of 32 bits, if it fits. -/
def int32? (n : Int) : Option Int32 :=
  if -2147483648 ≤ n ∧ n ≤ 2147483647 then some (Int32.ofInt n) else none

/-- The integer of 64 bits, if it fits. -/
def int64? (n : Int) : Option Int64 :=
  if -9223372036854775808 ≤ n ∧ n ≤ 9223372036854775807 then some (Int64.ofInt n) else none

end ContextualQuery
