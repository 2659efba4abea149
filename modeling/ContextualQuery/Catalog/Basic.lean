import ContextualQuery.Catalog.FieldType
import ContextualQuery.Register
/-!
# Schemas

A schema describes the entities that can be asked for, their fields, and the relations between them.
Fields and relations together are the attributes of an entity; `Schema.attribute?` looks one up by
name, fields first.
-/

namespace ContextualQuery

/-! ## 1. Fields and entities -/

/-- A field: its name, its type, and whether records may be ordered by it. -/
structure Field where
  name : String
  type : FieldType
  isSortable : Bool := true
  deriving DecidableEq, Repr

/-- An entity: its name, the field that identifies its records, and its fields. Entities whose
records are only parts of others have no such field, and leave its name empty. -/
structure Entity where
  name : String
  identityField : String := ""
  fields : List Field := []
  deriving DecidableEq, Repr

namespace Entity

/-- Adds a field behind the others. -/
def withField (e : Entity) (f : Field) : Entity := { e with fields := e.fields ++ [f] }

/-- The first field of a name. -/
def field? (e : Entity) (name : String) : Option Field := e.fields.find? (·.name == name)

/-- The field that identifies records. -/
def identity? (e : Entity) : Option Field := e.field? e.identityField

/-- Whether its records are only parts of others. -/
def isEmbedded (e : Entity) : Bool := e.identityField.isEmpty

end Entity

/-! ## 2. Relations -/

/-- How many records are related to one, on either side; the source comes first. -/
inductive Cardinality
  | oneToOne
  | manyToOne
  | oneToMany
  | manyToMany
  deriving DecidableEq, Repr

namespace Cardinality

/-- All cardinalities. -/
def all : List Cardinality := [oneToOne, manyToOne, oneToMany, manyToMany]

/-- The name of the cardinality. -/
def name : Cardinality → String
  | oneToOne => "one_to_one"
  | manyToOne => "many_to_one"
  | oneToMany => "one_to_many"
  | manyToMany => "many_to_many"

/-- Whether a source may have several targets. -/
def isCollection : Cardinality → Bool
  | oneToMany | manyToMany => true
  | oneToOne | manyToOne => false

end Cardinality

/-- A relation, named from its source: records are related when their join fields are equal or, with an
edge entity, when a record of that entity links them. -/
structure Relation where
  name : String
  fromEntity : String
  toEntity : String
  cardinality : Cardinality
  fromField : String
  toField : String
  edgeEntity : Option String := none
  deriving DecidableEq, Repr

namespace Relation

/-- The key of the relation with a name on an entity. -/
def keyOf (entity name : String) : String := entity ++ "." ++ name

/-- The key of the relation. -/
def key (r : Relation) : String := keyOf r.fromEntity r.name

/-- Whether a source may have several targets. -/
def isCollection (r : Relation) : Bool := r.cardinality.isCollection

/-- Whether each side may have several records of the other. -/
def isManyToMany (r : Relation) : Bool := r.cardinality == .manyToMany

end Relation

/-! ## 3. Schemas -/

/-- An attribute of an entity. -/
inductive Attribute
  | field (f : Field)
  | relation (r : Relation)
  deriving DecidableEq, Repr

/-- A schema: its version, the moment it was made in microseconds since 1970, its entities by name and its
relations by key. -/
structure Schema where
  version : UInt64
  createdAt : UInt64
  entities : Register Entity.name
  relations : Register Relation.key
  deriving DecidableEq, Repr

namespace Schema

/-- A schema that describes nothing. -/
def empty (version createdAt : UInt64) : Schema := ⟨version, createdAt, .empty, .empty⟩

/-- Adds an entity, in place of an earlier one of its name. -/
def withEntity (s : Schema) (e : Entity) : Schema := { s with entities := s.entities.insert e }

/-- Adds a relation, in place of an earlier one with its key. -/
def withRelation (s : Schema) (r : Relation) : Schema := { s with relations := s.relations.insert r }

/-- The entity of a name. -/
def entity? (s : Schema) (name : String) : Option Entity := s.entities.find? name

/-- Whether there is an entity of a name. -/
def hasEntity (s : Schema) (name : String) : Bool := s.entities.has name

/-- The relation stored under the key of an entity and a name. -/
def relation? (s : Schema) (entity name : String) : Option Relation :=
  s.relations.find? (Relation.keyOf entity name)

/-- The relations that start at an entity. -/
def relationsFrom (s : Schema) (entity : String) : List Relation :=
  s.relations.entries.filter (·.fromEntity == entity)

/-- The attribute of a name on an entity. A field hides a relation of its name. -/
def attribute? (s : Schema) (entity name : String) : Option Attribute := do
  let e ← s.entity? entity
  match e.field? name with
  | some f => return .field f
  | none => return .relation (← s.relation? entity name)

/-- The names of all attributes of an entity, in order. -/
def attributeNames (s : Schema) (entity : String) : List String :=
  match s.entity? entity with
  | none => []
  | some e =>
    (e.fields.map (·.name) ++ (s.relationsFrom entity).map (·.name)).mergeSort (fun a b => decide (a ≤ b))

end Schema

end ContextualQuery
