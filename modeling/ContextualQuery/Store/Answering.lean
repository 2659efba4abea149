import ContextualQuery.Repository
import ContextualQuery.Store.Matching
import ContextualQuery.Store.Sorting
/-!
# Answers of a store

Every request is answered by a look at all records of an entity: those of which the predicate holds, in the
order asked for, cut to the window; or their number.
-/

namespace ContextualQuery.Store

/-- The records of an entity of which a predicate holds, in the order asked for. -/
def matching (s : Store) (entity : String) (p : Predicate) (keys : List SortKey) : List Record :=
  s.sorted keys ((s.rows entity).filter (s.satisfies · p))

/-- The matching records in a window. -/
def execute (s : Store) (entity : String) (p : Predicate) (keys : List SortKey) (w : Window) :
    List Record :=
  w.cut (s.matching entity p keys)

/-- The number of records of an entity of which a predicate holds. -/
def count (s : Store) (entity : String) (p : Predicate) : Nat :=
  (s.rows entity).countP (s.satisfies · p)

/-- The store as a gateway. It never fails. -/
def gateway (s : Store) : Gateway Id Empty Record where
  execute entity p keys w := .ok (s.execute entity p keys w)
  count entity p := .ok (s.count entity p)

end ContextualQuery.Store
