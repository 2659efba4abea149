import ContextualQuery.Predicate.Basic
import ContextualQuery.Store.Values
/-!
# The order of records

Records are sorted by the first value at the end of each key's path. Records without a value come first under
an ascending key.
-/

namespace ContextualQuery.Store

/-- The value that a record is sorted by. -/
def sortValue (s : Store) (p : Path) (r : Record) : Option Value := (s.values p.steps r).head?

/-- The order of two records by one key. -/
def compareBy (s : Store) (k : SortKey) (a b : Record) : Ordering :=
  let order := Value.sortCompare? (s.sortValue k.path a) (s.sortValue k.path b)
  match k.direction with
  | .ascending => order
  | .descending => order.swap

/-- The order of two records: the first key that tells them apart decides. -/
def compareRecords (s : Store) (keys : List SortKey) (a b : Record) : Ordering :=
  match keys with
  | [] => .eq
  | k :: rest => (s.compareBy k a b).then (compareRecords s rest a b)

/-- The records in order; records that no key tells apart keep theirs. -/
def sorted (s : Store) (keys : List SortKey) (rs : List Record) : List Record :=
  rs.mergeSort fun a b => s.compareRecords keys a b != .gt

end ContextualQuery.Store
