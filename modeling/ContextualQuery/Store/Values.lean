import ContextualQuery.Predicate.Path
import ContextualQuery.Store.Basic
import ContextualQuery.Text.LetterCase
import ContextualQuery.Value.Order
/-!
# From records to values

A path leads from a record to values: into the objects that are part of it, and along joins to records of
other entities. `Store.values` gives the values at its end in the order in which they are reached.
-/

namespace ContextualQuery.Store

/-! ## 1. Joins -/

/-- The attribute of an edge record that holds the join field of an entity. -/
def edgeColumn (entity field : String) : String := asciiLower entity ++ "_" ++ field

/-- Whether an attribute holds a value equal to a key. -/
def holdsKey (r : Record) (field : String) (key : Value) : Bool :=
  match r.scalar? field with
  | some v => v.same key
  | none => false

/-- The target keys of the links of a source key, in the order of the edge records. -/
def linkedKeys (s : Store) (j : Join) (edge : String) (key : Value) : List Value :=
  ((s.rows edge).filter (holdsKey · (edgeColumn j.fromEntity j.fromField) key)).filterMap
    (·.scalar? (edgeColumn j.toEntity j.toField))

/-- The records of the target entity with a key. -/
def withKey (s : Store) (j : Join) (key : Value) : List Record :=
  (s.rows j.toEntity).filter (holdsKey · j.toField key)

/-- The records that a record is joined to. A record whose join field is missing or null is joined to none. -/
def joined (s : Store) (j : Join) (r : Record) : List Record :=
  match r.scalar? j.fromField with
  | none => []
  | some key =>
    if key.isNull then []
    else match j.edgeEntity with
      | none => s.withKey j key
      | some edge => (s.linkedKeys j edge key).flatMap (s.withKey j)

/-! ## 2. Steps and paths -/

/-- The records or objects that a step leads to. -/
def reached (s : Store) (step : Step) (r : Record) : List Record :=
  match step.kind with
  | .value _ => []
  | .embedded _ _ => ((r.get? step.name).map Datum.objects).getD []
  | .join j => s.joined j r

/-- The values at the end of a path. Steps behind a step to values are not taken. -/
def values (s : Store) : List Step → Record → List Value
  | [], _ => []
  | step :: rest, r =>
    match step.kind with
    | .value _ => ((r.get? step.name).map Datum.scalars).getD []
    | _ => (s.reached step r).flatMap (values s rest)

end ContextualQuery.Store
