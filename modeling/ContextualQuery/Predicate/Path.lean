import ContextualQuery.Value.Notation
/-!
# Paths

A path is a way from an entity to one of its attributes, or to an attribute of an object or record
that belongs to it. Every step names an attribute of the entity reached so far and says how to take
it: as a value, into an embedded object, or along a join to records of another entity. The last step
ends at values of the path's domain.
-/

namespace ContextualQuery

/-! ## 1. Steps -/

/-- A join from the records of one entity to those of another: they belong together when their join
fields are equal or, with an edge entity, when a record of that entity links the two. -/
structure Join where
  relation : String
  fromEntity : String
  toEntity : String
  fromField : String
  toField : String
  edgeEntity : Option String
  isCollection : Bool
  deriving DecidableEq, Repr

/-- How a step is taken. -/
inductive StepKind
  | value (isCollection : Bool)
  | embedded (entity : String) (isCollection : Bool)
  | join (j : Join)
  deriving DecidableEq, Repr

/-- A step: an attribute of an entity, and how it is taken. -/
structure Step where
  entity : String
  name : String
  kind : StepKind
  deriving DecidableEq, Repr

namespace Step

/-- Whether the step may lead to several places. -/
def isCollection (s : Step) : Bool :=
  match s.kind with
  | .value isCollection => isCollection
  | .embedded _ isCollection => isCollection
  | .join j => j.isCollection

/-- The join of the step, if it is one. -/
def join? (s : Step) : Option Join :=
  match s.kind with
  | .join j => some j
  | _ => none

end Step

/-! ## 2. Paths -/

/-- A path. It is nullable if it may lead to no value, a collection if it may lead to several, and
sortable if records may be ordered by it. -/
structure Path where
  entity : String
  steps : List Step
  domain : Domain
  isNullable : Bool
  isCollection : Bool
  isSortable : Bool
  deriving DecidableEq, Repr

namespace Path

/-- The names of the attributes with dots between them. -/
def dotted (p : Path) : String := String.intercalate "." (p.steps.map (·.name))

/-- The path with the entity it starts from. -/
def describe (p : Path) : String := p.entity ++ "." ++ p.dotted

/-- The name of the last attribute; empty for a path without steps. -/
def lastName (p : Path) : String :=
  match p.steps.getLast? with
  | some s => s.name
  | none => ""

/-- The number of steps. -/
def depth (p : Path) : Nat := p.steps.length

/-- Whether the path leaves the attributes of its entity. -/
def isNested (p : Path) : Bool := decide (1 < p.depth)

/-- The joins along the path. -/
def joins (p : Path) : List Join := p.steps.filterMap Step.join?

end Path

/-! ## 3. As JSON -/

namespace Join

/-- The members of a join. -/
def members (j : Join) : List (String × Json) :=
  [("collection", .bool j.isCollection), ("edge_entity", .ofText? j.edgeEntity),
    ("from_entity", .text j.fromEntity), ("from_field", .text j.fromField),
    ("kind", .text "join"), ("relation", .text j.relation), ("to_entity", .text j.toEntity),
    ("to_field", .text j.toField)]

/-- Reads a join. -/
def ofJson? (j : Json) : Option Join := do
  let [relation, fromEntity, toEntity, fromField, toField, edgeEntity, isCollection] ←
    j.fields? ["relation", "from_entity", "to_entity", "from_field", "to_field", "edge_entity",
      "collection"] | none
  return {
    relation := ← Json.required? Json.text? relation
    fromEntity := ← Json.required? Json.text? fromEntity
    toEntity := ← Json.required? Json.text? toEntity
    fromField := ← Json.required? Json.text? fromField
    toField := ← Json.required? Json.text? toField
    edgeEntity := ← Json.defaulted? none (Json.nullable? Json.text?) edgeEntity
    isCollection := ← Json.required? Json.bool? isCollection }

end Join

namespace StepKind

/-- A way to take a step, as JSON. -/
def toJson : StepKind → Json
  | value isCollection =>
    .object [("collection", .bool isCollection), ("kind", .text "attribute")]
  | embedded entity isCollection =>
    .object [("collection", .bool isCollection), ("entity", .text entity), ("kind", .text "embedded")]
  | join j => .object j.members

/-- Reads a way to take a step. -/
def ofJson? (j : Json) : Option StepKind := do
  let (kind, rest) ← j.tagged? "kind"
  match kind with
  | "attribute" =>
    let [isCollection] ← rest.fields? ["collection"] | none
    return value (← Json.required? Json.bool? isCollection)
  | "embedded" =>
    let [entity, isCollection] ← rest.fields? ["entity", "collection"] | none
    return embedded (← Json.required? Json.text? entity) (← Json.required? Json.bool? isCollection)
  | "join" => return join (← Join.ofJson? rest)
  | _ => none

end StepKind

namespace Step

/-- The step as JSON. -/
def toJson (s : Step) : Json :=
  .object [("attribute", .text s.name), ("entity", .text s.entity), ("kind", s.kind.toJson)]

/-- Reads a step. -/
def ofJson? (j : Json) : Option Step := do
  let [entity, name, kind] ← j.fields? ["entity", "attribute", "kind"] | none
  return {
    entity := ← Json.required? Json.text? entity
    name := ← Json.required? Json.text? name
    kind := ← Json.required? StepKind.ofJson? kind }

end Step

namespace Path

/-- The path as JSON. -/
def toJson (p : Path) : Json :=
  .object [("collection", .bool p.isCollection), ("domain", p.domain.toJson),
    ("entity", .text p.entity), ("nullable", .bool p.isNullable), ("sortable", .bool p.isSortable),
    ("steps", .array (p.steps.map Step.toJson))]

/-- Reads a path. -/
def ofJson? (j : Json) : Option Path := do
  let [entity, steps, domain, isNullable, isCollection, isSortable] ←
    j.fields? ["entity", "steps", "domain", "nullable", "collection", "sortable"] | none
  return {
    entity := ← Json.required? Json.text? entity
    steps := ← Json.required? (Json.list? Step.ofJson?) steps
    domain := ← Json.required? Domain.ofJson? domain
    isNullable := ← Json.required? Json.bool? isNullable
    isCollection := ← Json.required? Json.bool? isCollection
    isSortable := ← Json.required? Json.bool? isSortable }

end Path

end ContextualQuery
