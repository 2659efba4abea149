import ContextualQuery.Catalog.Validity
import ContextualQuery.Json.Fields
import ContextualQuery.Json.Reading
import ContextualQuery.Json.Writing
/-!
# Schema files

A schema is written as JSON with a list of entities and a list of relations, both in the order of their
keys. `Schema.read?` reads such a file in any order of its entries; `Schema.read` also checks that the
schema is valid. What a structure has besides its fields is passed over.
-/

namespace ContextualQuery

/-! ## 1. Types of fields -/

/-- The name of the occurrence before the name of what occurs. -/
def Occurrence.mark : Occurrence → String
  | .one => ""
  | .optional => "optional_"
  | .many => "array_"

namespace FieldType

/-- The word for the form of the type. -/
def form (t : FieldType) : String :=
  t.occurrence.mark ++ match t with
    | scalar _ _ => "scalar"
    | enumeration _ _ _ => "enum"
    | embedded _ _ => "embedded"

/-- The type as JSON. -/
def toJson (t : FieldType) : Json :=
  .object [(t.form, match t with
    | scalar _ s => .text s.name
    | enumeration _ name variants =>
      .object [("name", .text name), ("variants", .array (variants.map .text))]
    | embedded _ entity => .object [("entity", .text entity)])]

/-- Reads the name of a kind of plain values. -/
def readScalar? (j : Json) : Option ScalarType :=
  j.named? (ScalarType.all.map fun s => (s.name, s))

/-- The fields of an enumeration. -/
def enumerationShape : Json.Shape := .plain ["name", "variants"]

/-- Reads an enumeration. -/
def readEnumeration? (isOptional : Bool) (j : Json) : Option FieldType := do
  let [name, variants] ← j.fields? enumerationShape.names | none
  return enumeration isOptional (← Json.required? Json.text? name)
    (← Json.required? (Json.list? Json.text?) variants)

/-- The field of an embedded entity. -/
def embeddedShape : Json.Shape := .plain ["entity"]

/-- Reads an embedded entity. -/
def readEmbedded? (o : Occurrence) (j : Json) : Option FieldType := do
  let [entity] ← j.fields? embeddedShape.names | none
  return embedded o (← Json.required? Json.text? entity)

/-- The forms of types. -/
def shape : Json.Shape :=
  .record [("scalar", .whole), ("optional_scalar", .whole), ("array_scalar", .whole),
    ("enum", enumerationShape), ("optional_enum", enumerationShape), ("embedded", embeddedShape),
    ("optional_embedded", embeddedShape), ("array_embedded", embeddedShape)]

/-- Reads a type. -/
def ofJson? (j : Json) : Option FieldType := do
  let (form, some content) ← j.choice? | none
  match form with
  | "scalar" => (readScalar? content).map (scalar .one)
  | "optional_scalar" => (readScalar? content).map (scalar .optional)
  | "array_scalar" => (readScalar? content).map (scalar .many)
  | "enum" => readEnumeration? false content
  | "optional_enum" => readEnumeration? true content
  | "embedded" => readEmbedded? .one content
  | "optional_embedded" => readEmbedded? .optional content
  | "array_embedded" => readEmbedded? .many content
  | _ => none

end FieldType

/-! ## 2. Fields, entities, relations -/

namespace Field

/-- The field as JSON. -/
def toJson (f : Field) : Json :=
  .object [("name", .text f.name), ("type", f.type.toJson), ("sortable", .bool f.isSortable)]

/-- The fields of a field. -/
def shape : Json.Shape :=
  .record [("name", .whole), ("type", FieldType.shape), ("sortable", .whole)]

/-- Reads a field. Records may be ordered by it unless it says otherwise. -/
def ofJson? (j : Json) : Option Field := do
  let [name, type, isSortable] ← j.fields? shape.names | none
  return {
    name := ← Json.required? Json.text? name
    type := ← Json.required? FieldType.ofJson? type
    isSortable := ← Json.defaulted? true Json.bool? isSortable }

end Field

namespace Entity

/-- The entity as JSON. -/
def toJson (e : Entity) : Json :=
  .object [("name", .text e.name), ("identity_field", .text e.identityField),
    ("fields", .array (e.fields.map Field.toJson))]

/-- The fields of an entity. -/
def shape : Json.Shape :=
  .record [("name", .whole), ("identity_field", .whole), ("fields", .list Field.shape)]

/-- Reads an entity. -/
def ofJson? (j : Json) : Option Entity := do
  let [name, identityField, fields] ← j.fields? shape.names | none
  return {
    name := ← Json.required? Json.text? name
    identityField := ← Json.defaulted? "" Json.text? identityField
    fields := ← Json.defaulted? [] (Json.list? Field.ofJson?) fields }

end Entity

/-- Reads the name of a cardinality. -/
def Cardinality.ofJson? (j : Json) : Option Cardinality :=
  j.named? (Cardinality.all.map fun c => (c.name, c))

namespace Relation

/-- The relation as JSON. -/
def toJson (r : Relation) : Json :=
  .object [("name", .text r.name), ("from_entity", .text r.fromEntity),
    ("to_entity", .text r.toEntity), ("cardinality", .text r.cardinality.name),
    ("from_field", .text r.fromField), ("to_field", .text r.toField),
    ("edge_entity", .ofText? r.edgeEntity)]

/-- The fields of a relation. -/
def shape : Json.Shape :=
  .plain ["name", "from_entity", "to_entity", "cardinality", "from_field", "to_field", "edge_entity"]

/-- Reads a relation. -/
def ofJson? (j : Json) : Option Relation := do
  let [name, fromEntity, toEntity, cardinality, fromField, toField, edgeEntity] ←
    j.fields? shape.names | none
  return {
    name := ← Json.required? Json.text? name
    fromEntity := ← Json.required? Json.text? fromEntity
    toEntity := ← Json.required? Json.text? toEntity
    cardinality := ← Json.required? Cardinality.ofJson? cardinality
    fromField := ← Json.required? Json.text? fromField
    toField := ← Json.required? Json.text? toField
    edgeEntity := ← Json.defaulted? none (Json.nullable? Json.text?) edgeEntity }

end Relation

/-! ## 3. Schemas -/

/-- Why a text is no valid schema. -/
inductive SchemaFileFault
  | unreadable
  | invalid (f : SchemaFault)
  deriving DecidableEq, Repr

namespace Schema

/-- The schema as JSON. -/
def toJson (s : Schema) : Json :=
  .object [("version", .integer s.version.toNat), ("created_at", .integer s.createdAt.toNat),
    ("entities", .array (s.entities.entries.map Entity.toJson)),
    ("relations", .array (s.relations.entries.map Relation.toJson))]

/-- Reads an integer of 64 bits without sign. -/
def readWord? (j : Json) : Option UInt64 := (j.nat? UInt64.size).map UInt64.ofNat

/-- The fields of a schema. -/
def shape : Json.Shape :=
  .record [("version", .whole), ("created_at", .whole), ("entities", .list Entity.shape),
    ("relations", .list Relation.shape)]

/-- Reads a schema; of entries with the same key the last counts. -/
def ofJson? (j : Json) : Option Schema := do
  let [version, createdAt, entities, relations] ← j.fields? shape.names | none
  let version ← Json.defaulted? 0 readWord? version
  let createdAt ← Json.defaulted? 0 readWord? createdAt
  let entities ← Json.defaulted? [] (Json.list? Entity.ofJson?) entities
  let relations ← Json.defaulted? [] (Json.list? Relation.ofJson?) relations
  return relations.foldl withRelation (entities.foldl withEntity (empty version createdAt))

/-- The file of a schema. -/
def write (s : Schema) : String := s.toJson.pretty

/-- Accepts a schema if it is valid. -/
def checked (s : Schema) : Except SchemaFileFault Schema :=
  match s.fault? with
  | none => .ok s
  | some f => .error (.invalid f)

/-- Reads the file of a schema. -/
def read? (text : String) : Option Schema := (Json.readAs? shape text).bind ofJson?

/-- Accepts what has been read if it is a valid schema. -/
def accept : Option Schema → Except SchemaFileFault Schema
  | none => .error .unreadable
  | some s => s.checked

/-- Reads the JSON of a valid schema. -/
def ofJson (j : Json) : Except SchemaFileFault Schema := accept (ofJson? j)

/-- Reads the file of a valid schema. -/
def read (text : String) : Except SchemaFileFault Schema := accept (read? text)

end Schema

end ContextualQuery
