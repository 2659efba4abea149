import ContextualQuery.Catalog.Basic
/-!
# Valid schemas

A schema is valid if what its entities and relations refer to is there. `Schema.fault?` gives the first
reference that is not: entities come before relations, both in the order of their keys.
-/

namespace ContextualQuery

/-- What may be wrong with a schema. Relations are named by their keys. -/
inductive SchemaFault
  | noIdentity (entity field : String)
  | noVariants (enumeration entity field : String)
  | unknownEmbedded (entity field target : String)
  | unknownSource (relation entity : String)
  | unknownTarget (relation entity : String)
  | shadowsField (relation : String)
  | unknownJoinField (relation entity field : String)
  | noEdgeEntity (relation : String)
  deriving DecidableEq, Repr

namespace SchemaFault

/-- A text between quotes. -/
def quoted (s : String) : String := "'" ++ s ++ "'"

/-- What is wrong. -/
def describe : SchemaFault → String
  | noIdentity entity field =>
    "entity " ++ quoted entity ++ " has no identity field " ++ quoted field
  | noVariants enumeration entity field =>
    "enum " ++ quoted enumeration ++ " on " ++ quoted (entity ++ "." ++ field) ++ " has no variants"
  | unknownEmbedded entity field target =>
    "field " ++ quoted (entity ++ "." ++ field) ++ " embeds unknown type " ++ quoted target
  | unknownSource relation entity =>
    "relation " ++ quoted relation ++ " starts at unknown entity " ++ quoted entity
  | unknownTarget relation entity =>
    "relation " ++ quoted relation ++ " targets unknown entity " ++ quoted entity
  | shadowsField relation => "relation " ++ quoted relation ++ " shadows a field of the same name"
  | unknownJoinField relation entity field =>
    "relation " ++ quoted relation ++ " joins on unknown field " ++ quoted (entity ++ "." ++ field)
  | noEdgeEntity relation => "many-to-many relation " ++ quoted relation ++ " needs an edge entity"

/-- The message about it. -/
def message (f : SchemaFault) : String := "invalid schema: " ++ f.describe

end SchemaFault

namespace Schema

/-- What is wrong with a field of an entity. -/
def fieldFault? (s : Schema) (entity : String) (f : Field) : Option SchemaFault :=
  match f.type with
  | .enumeration _ name [] => some (.noVariants name entity f.name)
  | .embedded _ target =>
    if s.hasEntity target then none else some (.unknownEmbedded entity f.name target)
  | _ => none

/-- What is wrong with an entity: its identity first, then its fields. -/
def entityFault? (s : Schema) (e : Entity) : Option SchemaFault :=
  if !e.isEmbedded && e.identity?.isNone then some (.noIdentity e.name e.identityField)
  else e.fields.findSome? (s.fieldFault? e.name)

/-- What is wrong with a relation. -/
def relationFault? (s : Schema) (r : Relation) : Option SchemaFault :=
  match s.entity? r.fromEntity, s.entity? r.toEntity with
  | none, _ => some (.unknownSource r.key r.fromEntity)
  | some _, none => some (.unknownTarget r.key r.toEntity)
  | some source, some target =>
    if (source.field? r.name).isSome then some (.shadowsField r.key)
    else if (source.field? r.fromField).isNone then
      some (.unknownJoinField r.key source.name r.fromField)
    else if (target.field? r.toField).isNone then
      some (.unknownJoinField r.key target.name r.toField)
    else if r.isManyToMany && r.edgeEntity.isNone then some (.noEdgeEntity r.key)
    else none

/-- The first thing wrong with the schema. -/
def fault? (s : Schema) : Option SchemaFault :=
  (s.entities.entries.findSome? s.entityFault?).or (s.relations.entries.findSome? s.relationFault?)

/-- Whether everything that the schema refers to is there. -/
def isValid (s : Schema) : Bool := s.fault?.isNone

end Schema

end ContextualQuery
