import ContextualQuery.Value.Basic
import ContextualQuery.Json.Fields
import ContextualQuery.Temporal
import ContextualQuery.Text.Quoted
/-!
# Values in writing

A value is written in three ways:

* `Value.show`, with the name of its kind, for a reader of a predicate;
* `Value.plain`, as the JSON that data files use, with dates, instants and identifiers as texts;
* `Value.toJson`, as JSON that names the kind, which `Value.ofJson?` reads back.
-/

namespace ContextualQuery

namespace Value

/-! ## 1. For readers -/

/-- A list of numbers between brackets. -/
def showBytes (bytes : List UInt8) : String :=
  "[" ++ String.intercalate ", " (bytes.map fun b => toString b.toNat) ++ "]"

/-- The value after the name of its kind. -/
def «show» : Value → String
  | null => "Null"
  | bool b => "Bool(" ++ (if b then "true" else "false") ++ ")"
  | int32 n => "Int32(" ++ toString n.toInt ++ ")"
  | int64 n => "Int64(" ++ toString n.toInt ++ ")"
  | float32 x => "Float32(" ++ x.write exactLayout ++ ")"
  | float64 x => "Float64(" ++ x.write exactLayout ++ ")"
  | text s => "String(" ++ Quoted.text s ++ ")"
  | timestamp t => "Timestamp(" ++ toString t.toInt ++ ")"
  | date d => "Date(" ++ toString d.toInt ++ ")"
  | uuid u => "Uuid(" ++ showBytes u.bytes ++ ")"
  | member v => "Enum(" ++ Quoted.text v ++ ")"

/-! ## 2. As data -/

/-- The value as plain JSON. Dates and instants beyond the calendar are numbers; a number that is
not finite is null. -/
def plain : Value → Json
  | null => .null
  | bool b => .bool b
  | int32 n => .integer n.toInt
  | int64 n => .integer n.toInt
  | float32 x => .ofDouble x.toDouble
  | float64 x => .ofDouble x
  | text s => .text s
  | timestamp t =>
    match writeInstant? t.toInt with
    | some s => .text s
    | none => .integer t.toInt
  | date d =>
    match writeDays? d.toInt with
    | some s => .text s
    | none => .integer d.toInt
  | uuid u => .text u.write
  | member v => .text v

/-! ## 3. With the kind -/

/-- The content beside the kind. -/
def content : Value → Json
  | null => .null
  | bool b => .bool b
  | int32 n => .integer n.toInt
  | int64 n => .integer n.toInt
  | float32 x => .ofDouble x.toDouble
  | float64 x => .ofDouble x
  | text s => .text s
  | timestamp t => .integer t.toInt
  | date d => .integer d.toInt
  | uuid u => .array (u.bytes.map fun b => .integer b.toNat)
  | member v => .text v

/-- The value with its kind. -/
def toJson : Value → Json
  | null => .object [("type", .text "null")]
  | v => .object [("type", .text v.typeName), ("value", v.content)]

/-- An integer of 32 bits. -/
def readInt32? (j : Json) : Option Int32 := (j.integer? (-2147483648) 2147483648).map Int32.ofInt

/-- An integer of 64 bits. -/
def readInt64? (j : Json) : Option Int64 :=
  (j.integer? (-9223372036854775808) 9223372036854775808).map Int64.ofInt

/-- Sixteen bytes. -/
def readUuid? (j : Json) : Option Uuid := do
  let bytes ← j.list? fun b => (b.nat? 256).map UInt8.ofNat
  Uuid.ofBytes? bytes

/-- Reads the content of a value of a kind. -/
def ofContent? (kind : String) (content : Json) : Option Value :=
  match kind with
  | "bool" => content.bool?.map bool
  | "int32" => (readInt32? content).map int32
  | "int64" => (readInt64? content).map int64
  | "float32" => content.single?.map float32
  | "float64" => content.double?.map float64
  | "string" => content.text?.map text
  | "timestamp" => (readInt64? content).map timestamp
  | "date" => (readInt32? content).map date
  | "uuid" => (readUuid? content).map uuid
  | "enum" => content.text?.map member
  | _ => none

/-- Reads a value with its kind. -/
def ofJson? (j : Json) : Option Value := do
  let [kind, content] ← j.fields? ["type", "value"] | none
  let kind ← Json.required? Json.bareName? kind
  if kind = "null" then
    match content with
    | none | some .null => some null
    | _ => none
  else Json.required? (ofContent? kind) content

end Value

namespace Domain

/-- The word for the kind of domain. -/
def kind : Domain → String
  | text => "text"
  | int32 => "int32"
  | int64 => "int64"
  | float32 => "float32"
  | float64 => "float64"
  | bool => "bool"
  | timestamp => "timestamp"
  | date => "date"
  | uuid => "uuid"
  | enumeration _ _ => "enum"

/-- The domain as JSON. -/
def toJson : Domain → Json
  | enumeration name variants =>
    .object [("kind", .text "enum"), ("name", .text name),
      ("variants", .array (variants.map .text))]
  | d => .object [("kind", .text d.kind)]

/-- The domains without parameters. -/
def simple : List Domain := [text, int32, int64, float32, float64, bool, timestamp, date, uuid]

/-- Reads a domain. -/
def ofJson? (j : Json) : Option Domain := do
  let (kind, rest) ← j.tagged? "kind"
  if kind = "enum" then
    let [name, variants] ← rest.fields? ["name", "variants"] | none
    let name ← Json.required? Json.text? name
    let variants ← Json.required? (Json.list? Json.text?) variants
    return enumeration name variants
  else simple.find? (·.kind == kind)

end Domain

end ContextualQuery
