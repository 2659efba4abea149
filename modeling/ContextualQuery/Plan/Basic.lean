import ContextualQuery.Plan.Fault
/-!
# Plans

A plan is what a query text comes to over a schema: a predicate, and the keys to sort by. Clauses are taken
from left to right, the filter before the sort specification, and the first fault ends the planning. Paths
found on the way are remembered, also when the planning fails later.
-/

namespace ContextualQuery

/-- The predicate and the sort keys of a query. -/
structure Plan where
  predicate : Predicate
  sort : List SortKey
  deriving Repr

namespace Plan

/-- Which records are wanted, and in what order. -/
def selection (p : Plan) : Selection := { predicate := p.predicate, sort := p.sort }

/-- Which records are to be counted. Their order does not matter. -/
def count (p : Plan) : Predicate := p.predicate

end Plan

/-- A schema and the settings for queries over it. -/
structure Planner where
  schema : Schema
  settings : Settings := {}

/-- A step of planning: it may remember paths, and it may fail. -/
abbrev Planning (α : Type) := ExceptT PlanFault (StateM PathCache) α

namespace Planner

/-- The resolver of names in queries. -/
def resolver (p : Planner) : Resolver :=
  { schema := p.schema, isCaching := p.settings.cachesPaths, maxHops := p.settings.maxPathHops }

/-- The path of a name in the text. -/
def path (p : Planner) (entity : String) (field : Located String) : Planning Path := do
  match ← modifyGet (p.resolver.resolve entity field.value) with
  | .ok path => return path
  | .error f => throw (.name f field.span)

/-- The predicate of a search clause. -/
def clause (p : Planner) (entity : String) (c : SearchClause) : Planning Predicate := do
  if c.isAllRecords then return .matchAll
  let path ← p.path entity c.field
  match Operand.ofTerm p.settings path.domain c.symbol.value c.modifiers c.term.value with
  | .ok operand => return .compare ⟨path, c.symbol.value.comparator, operand⟩
  | .error f => throw (.term f c.span)

mutual

/-- The predicate of a filter: the same tree, with comparisons for clauses. -/
def filter (p : Planner) (entity : String) : Filter → Planning Predicate
  | .combined op children _ => return .boolean op (← filters p entity children)
  | .clause c => p.clause entity c

/-- The predicates of several filters. -/
def filters (p : Planner) (entity : String) : List Filter → Planning (List Predicate)
  | [] => return []
  | f :: rest => return (← filter p entity f) :: (← filters p entity rest)

end

/-- The predicate of an optional filter; without one it holds of every record. -/
def predicate (p : Planner) (entity : String) : Option Filter → Planning Predicate
  | none => return .matchAll
  | some f => p.filter entity f

/-- The key of a sort clause. -/
def sortKey (p : Planner) (entity : String) (c : SortClause) : Planning SortKey := do
  let path ← p.path entity c.field
  if path.isSortable then return ⟨path, c.direction⟩
  else throw (.unsortable c.field.value path.isCollection c.span)

/-- The keys of a sort specification. -/
def sortKeys (p : Planner) (entity : String) : List SortClause → Planning (List SortKey)
  | [] => return []
  | c :: rest => return (← p.sortKey entity c) :: (← sortKeys p entity rest)

/-- The query that a text spells, if the text is not too long. -/
def query (p : Planner) (text : String) : Except PlanFault Query :=
  let length := byteLength text.toList
  if p.settings.maxQueryLength < length then .error (.tooLong length p.settings.maxQueryLength)
  else match Query.parse text p.settings.maxDepth with
    | .ok q => .ok q
    | .error f => .error (.text f)

/-- The plan of a query that has been read. -/
def ofQuery (p : Planner) (entity : String) (q : Query) : Planning Plan := do
  let predicate ← p.predicate entity q.filter
  let sort ← p.sortKeys entity q.sort
  return ⟨predicate, sort⟩

/-- The plan of a text, and the paths remembered afterwards. -/
def plan (p : Planner) (entity text : String) (c : PathCache) : Except PlanFault Plan × PathCache :=
  match p.query text with
  | .error f => (.error f, c)
  | .ok q => (p.ofQuery entity q).run c

/-- The plan of a text, with nothing remembered before. -/
def planOnce (p : Planner) (entity text : String) : Except PlanFault Plan :=
  (p.plan entity text .empty).1

end Planner

end ContextualQuery
