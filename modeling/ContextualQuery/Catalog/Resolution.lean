import ContextualQuery.Catalog.Basic
import ContextualQuery.Predicate.Path
/-!
# From dotted names to paths

A dotted name is followed from an entity name by name: a relation leads to its target, an embedded field
into its object, and the last name has to be a field with values. `Schema.resolve` gives the path, or
the first reason why there is none.
-/

namespace ContextualQuery

/-! ## 1. Faults -/

/-- Why a name does not end at values although it exists. -/
inductive PathAmbiguity
  | tooManyHops (limit : Nat)
  | endsAtObject (name : String) (isCollection : Bool)
  | endsAtRelation (name target : String)
  | beyondValues (name : String)
  deriving DecidableEq, Repr

/-- The reason in words. -/
def PathAmbiguity.describe : PathAmbiguity → String
  | tooManyHops limit =>
    "paths may cross at most " ++ toString limit ++ " relations or embedded objects"
  | endsAtObject name isCollection =>
    "'" ++ name ++ "' is an embedded " ++ (if isCollection then "collection" else "object")
      ++ "; name one of its fields"
  | endsAtRelation name target =>
    "'" ++ name ++ "' is a relation to " ++ target ++ "; name one of its fields"
  | beyondValues name => "'" ++ name ++ "' is a plain attribute and has no sub-fields"

/-- What may be wrong with a name. -/
inductive NameFault
  | unknown
  | ambiguous (reason : PathAmbiguity)
  deriving DecidableEq, Repr

/-- Why a dotted name on an entity has no path. -/
inductive ResolutionFault
  | unknownEntity (entity : String)
  | unknownField (entity field : String)
  | ambiguousField (entity field : String) (reason : PathAmbiguity)
  deriving DecidableEq, Repr

/-- The fault in words. -/
def ResolutionFault.message : ResolutionFault → String
  | unknownEntity entity => "unknown entity '" ++ entity ++ "'"
  | unknownField entity field => "unknown field '" ++ field ++ "' on entity '" ++ entity ++ "'"
  | ambiguousField entity field reason =>
    "ambiguous field '" ++ field ++ "' on entity '" ++ entity ++ "': " ++ reason.describe

/-- The fault of a name, said of the whole dotted name and its entity. -/
def NameFault.of (entity field : String) : NameFault → ResolutionFault
  | unknown => .unknownField entity field
  | ambiguous reason => .ambiguousField entity field reason

/-! ## 2. Walks -/

/-- The names between the dots. -/
def dottedNames : List Char → List (List Char)
  | [] => [[]]
  | c :: rest =>
    if c = '.' then [] :: dottedNames rest
    else match dottedNames rest with
      | [] => [[c]]
      | name :: names => (c :: name) :: names

/-- A walk through the attributes: its steps, the field at its end, and whether values may be missing on
the way. -/
structure Walk where
  steps : List Step
  last : Field
  domain : Domain
  isNullable : Bool
  deriving DecidableEq, Repr

namespace Walk

/-- The walk with one more step at its beginning. -/
def after (w : Walk) (s : Step) (isNullable : Bool) : Walk :=
  { w with steps := s :: w.steps, isNullable := isNullable || w.isNullable }

/-- Whether some step may lead to several places. -/
def isCollection (w : Walk) : Bool := w.steps.any Step.isCollection

/-- The path of the walk. Records cannot be ordered by a collection. -/
def toPath (w : Walk) (entity : String) : Path where
  entity := entity
  steps := w.steps
  domain := w.domain
  isNullable := w.isNullable
  isCollection := w.isCollection
  isSortable := w.last.isSortable && !w.isCollection

end Walk

/-- The join that a relation stands for. -/
def Relation.toJoin (r : Relation) : Join where
  relation := r.name
  fromEntity := r.fromEntity
  toEntity := r.toEntity
  fromField := r.fromField
  toField := r.toField
  edgeEntity := r.edgeEntity
  isCollection := r.isCollection

namespace Schema

/-- The walk from an entity along names. An empty name is no attribute. -/
def walk (s : Schema) (entity : String) : List String → Except NameFault Walk
  | [] => .error .unknown
  | name :: rest =>
    if name.isEmpty then .error .unknown
    else match s.attribute? entity name with
    | none => .error .unknown
    | some (.field f) =>
      match f.type.content, rest with
      | .values d, [] =>
        .ok ⟨[⟨entity, name, .value f.type.isArray⟩], f, d, f.type.isNullable⟩
      | .values _, _ :: _ => .error (.ambiguous (.beyondValues name))
      | .objects _, [] => .error (.ambiguous (.endsAtObject name f.type.isArray))
      | .objects target, next :: more =>
        (walk s target (next :: more)).map
          (·.after ⟨entity, name, .embedded target f.type.isArray⟩ f.type.isNullable)
    | some (.relation r) =>
      match rest with
      | [] => .error (.ambiguous (.endsAtRelation name r.toEntity))
      | next :: more =>
        (walk s r.toEntity (next :: more)).map (·.after ⟨entity, name, .join r.toJoin⟩ true)

/-- The path of a dotted name on an entity, of at most `maxHops` steps before the last. -/
def resolve (s : Schema) (maxHops : Nat) (entity field : String) : Except ResolutionFault Path :=
  if !s.hasEntity entity then .error (.unknownEntity entity)
  else
    let names := (dottedNames field.toList).map String.ofList
    if maxHops < names.length - 1 then
      .error (.ambiguousField entity field (.tooManyHops maxHops))
    else match s.walk entity names with
      | .ok w => .ok (w.toPath entity)
      | .error f => .error (f.of entity field)

end Schema

end ContextualQuery
