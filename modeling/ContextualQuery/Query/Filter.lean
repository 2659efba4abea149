import ContextualQuery.Query.Vocabulary
import ContextualQuery.Text.Span
/-!
# Filters and queries

A query is an optional filter and a list of sort clauses. A filter is a tree of connectives over
search clauses; every part knows the span it was written at.
-/

namespace ContextualQuery

/-- A search clause: an index name, a relation symbol with modifiers, and a term. -/
structure SearchClause where
  field : Located String
  symbol : Located RelationSymbol
  term : Located String
  modifiers : Modifiers
  deriving DecidableEq, Repr

namespace SearchClause

/-- The span from the index name to the term. -/
def span (c : SearchClause) : Span := c.field.span.merge c.term.span

/-- The index that every record answers to, whatever the term. -/
def allRecordsIndex : String := "cql.allRecords"

/-- Whether the clause holds of every record. -/
def isAllRecords (c : SearchClause) : Bool := sameIgnoringCase c.field.value allRecordsIndex

end SearchClause

/-- A filter. -/
inductive Filter
  | combined (op : Connective) (children : List Filter) (span : Span)
  | clause (c : SearchClause)
  deriving Repr

namespace Filter

/-- The span of the filter. A group does not count its parentheses. -/
def span : Filter → Span
  | combined _ _ s => s
  | clause c => c.span

mutual

/-- The height of the tree; a clause has height one. -/
def depth : Filter → Nat
  | combined _ children _ => 1 + depthOf children
  | clause _ => 1

/-- The greatest height in a list of trees. -/
def depthOf : List Filter → Nat
  | [] => 0
  | f :: rest => max (depth f) (depthOf rest)

end

mutual

/-- The search clauses in the order of the text. -/
def clauses : Filter → List SearchClause
  | combined _ children _ => clausesOf children
  | clause c => [c]

/-- The search clauses of a list of trees. -/
def clausesOf : List Filter → List SearchClause
  | [] => []
  | f :: rest => clauses f ++ clausesOf rest

end

/-- One tree from the parts of a chain: a single part stands for itself. -/
def chain (op : Connective) (first : Filter) : List Filter → Filter
  | [] => first
  | rest => .combined op (first :: rest) (rest.foldl (fun s f => s.merge f.span) first.span)

/-- The negation of a part, written with the reserved word at `word`. -/
def negation (word : Span) (part : Filter) : Filter :=
  .combined .not [part] (word.merge part.span)

end Filter

/-- A key of the sort specification. -/
structure SortClause where
  field : Located String
  direction : Direction
  span : Span
  deriving DecidableEq, Repr

/-- A query. Without a filter it selects every record. -/
structure Query where
  filter : Option Filter
  sort : List SortClause
  span : Span
  deriving Repr

/-- Whether the query has no filter. -/
def Query.isUnfiltered (q : Query) : Bool := q.filter.isNone

end ContextualQuery
