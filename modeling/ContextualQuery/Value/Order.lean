import ContextualQuery.Value.Basic
/-!
# Equality and order of values

Numbers of the two integer widths, and of the two floating point widths, are compared by their
value; all other values only with values of their kind. There are two orders: `Value.compare?`,
which a filter asks for and which does not order everything, and `Value.sortCompare`, in which
records are sorted and which orders everything.
-/

namespace ContextualQuery.Value

/-- Equality. A NaN is not equal to itself. -/
def same : Value → Value → Bool
  | int32 a, int64 b => a.toInt == b.toInt
  | int64 a, int32 b => a.toInt == b.toInt
  | float32 a, float32 b => a.toDouble.same b.toDouble
  | float64 a, float64 b => a.same b
  | float32 a, float64 b => a.toDouble.same b
  | float64 a, float32 b => a.same b.toDouble
  | a, b => a == b

/-- The order of two values that can be compared: `false` comes before `true`, texts are ordered by
their characters, identifiers by their bytes. -/
def compare? : Value → Value → Option Ordering
  | bool a, bool b => some (compare a b)
  | int32 a, int32 b => some (compare a.toInt b.toInt)
  | int64 a, int64 b => some (compare a.toInt b.toInt)
  | int32 a, int64 b => some (compare a.toInt b.toInt)
  | int64 a, int32 b => some (compare a.toInt b.toInt)
  | float32 a, float32 b => a.toDouble.partialCompare b.toDouble
  | float64 a, float64 b => a.partialCompare b
  | float32 a, float64 b => a.toDouble.partialCompare b
  | float64 a, float32 b => a.partialCompare b.toDouble
  | text a, text b => some (compare a b)
  | member a, member b => some (compare a b)
  | timestamp a, timestamp b => some (compare a.toInt b.toInt)
  | date a, date b => some (compare a.toInt b.toInt)
  | uuid a, uuid b => some (compare a.rank b.rank)
  | _, _ => none

/-- The order of sorting: floating point numbers by their patterns, values that cannot be compared by
the names of their kinds. -/
def sortCompare (a b : Value) : Ordering :=
  match a.float?, b.float? with
  | some x, some y => x.totalCompare y
  | _, _ => (a.compare? b).getD (compare a.typeName b.typeName)

/-- The order of sorting where values may be missing; a missing value comes first. -/
def sortCompare? : Option Value → Option Value → Ordering
  | none, none => .eq
  | none, some _ => .lt
  | some _, none => .gt
  | some a, some b => a.sortCompare b

end ContextualQuery.Value
