import ContextualQuery.Dictionary
import ContextualQuery.Predicate.Path
import ContextualQuery.Query.Vocabulary
/-!
# Predicates and selections

A predicate is what a filter comes to once its index names are paths and its terms are values. A
selection adds the keys in whose order the records are wanted.
-/

namespace ContextualQuery

/-! ## 1. Comparisons -/

/-- A comparison of attribute and operand. -/
inductive Comparator
  | eq
  | ne
  | lt
  | le
  | gt
  | ge
  deriving DecidableEq, Repr

/-- Whether the comparison asks for an order. -/
def Comparator.isOrdering : Comparator → Bool
  | .lt | .le | .gt | .ge => true
  | .eq | .ne => false

/-- How a text is compared with an operand: as a whole, by containing it, or by fitting its mask. -/
inductive MatchMode
  | exact
  | contains
  | pattern
  deriving DecidableEq, Repr

/-- A value to compare with, and how. Case matters for everything but text. -/
structure Operand where
  value : Value
  mode : MatchMode
  isCaseSensitive : Bool
  deriving DecidableEq, Repr

namespace Operand

/-- A value to compare with as it is. -/
def exact (v : Value) : Operand := ⟨v, .exact, true⟩

/-- A text whose case does not matter. -/
def text (s : String) (mode : MatchMode) : Operand := ⟨.text s, mode, false⟩

end Operand

/-- A comparison of the values at the end of a path with an operand. -/
structure Comparison where
  path : Path
  comparator : Comparator
  operand : Operand
  deriving DecidableEq, Repr

/-! ## 2. Predicates -/

/-- A predicate on records. -/
inductive Predicate
  | matchAll
  | boolean (op : Connective) (children : List Predicate)
  | compare (c : Comparison)
  deriving Repr, Inhabited

namespace Predicate

/-- The conjunction of several predicates. -/
def and (children : List Predicate) : Predicate := boolean .and children

/-- The disjunction of several predicates. -/
def or (children : List Predicate) : Predicate := boolean .or children

/-- The negation of a predicate. -/
def not (child : Predicate) : Predicate := boolean .not [child]

/-- Whether the predicate is the one that holds of every record without a look at it. -/
def isMatchAll : Predicate → Bool
  | matchAll => true
  | _ => false

mutual

/-- The comparisons, from left to right. -/
def comparisons : Predicate → List Comparison
  | matchAll => []
  | boolean _ children => comparisonsOf children
  | compare c => [c]

/-- The comparisons of several predicates. -/
def comparisonsOf : List Predicate → List Comparison
  | [] => []
  | p :: rest => comparisons p ++ comparisonsOf rest

end

/-- The number of comparisons. -/
def leafCount (p : Predicate) : Nat := p.comparisons.length

/-- The dotted names of all attributes that the predicate reads. -/
def fields (p : Predicate) : List String := sortedSet (p.comparisons.map (·.path.dotted))

mutual

/-- The height of the tree; a comparison has height one. -/
def depth : Predicate → Nat
  | matchAll => 1
  | boolean _ children => 1 + depthOf children
  | compare _ => 1

/-- The greatest height in a list of trees. -/
def depthOf : List Predicate → Nat
  | [] => 0
  | p :: rest => max (depth p) (depthOf rest)

end

end Predicate

/-! ## 3. Selections -/

/-- A path to sort by, and the direction. -/
structure SortKey where
  path : Path
  direction : Direction
  deriving DecidableEq, Repr

/-- Which records are wanted, and in what order; earlier keys weigh more. -/
structure Selection where
  predicate : Predicate
  sort : List SortKey := []
  deriving Repr

/-- Adds a key that weighs less than those before it. -/
def Selection.withSort (s : Selection) (k : SortKey) : Selection := { s with sort := s.sort ++ [k] }

end ContextualQuery
