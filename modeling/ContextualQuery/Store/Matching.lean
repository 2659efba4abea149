import ContextualQuery.Mask
import ContextualQuery.Predicate.Basic
import ContextualQuery.Store.Values
/-!
# What holds of a record

A comparison holds of a record if it holds of one of the values at the end of its path, except that
inequality asks for a value and for none that is equal. `Store.satisfies` says of which records a predicate
holds.
-/

namespace ContextualQuery

/-! ## 1. Comparing values -/

/-- Whether an order is one that the comparison asks for. -/
def Comparator.accepts : Comparator → Ordering → Bool
  | .eq, o => o == .eq
  | .ne, o => o != .eq
  | .lt, o => o == .lt
  | .le, o => o != .gt
  | .gt, o => o == .gt
  | .ge, o => o != .lt

/-- Whether a text stands somewhere in another. -/
def containsText (text part : List Char) : Bool :=
  part.isPrefixOf text || match text with
    | [] => false
    | _ :: rest => containsText rest part

/-- A text as it is compared: in lower case if case does not matter. -/
def folded (isCaseSensitive : Bool) (s : String) : List Char :=
  if isCaseSensitive then s.toList else lowercase s.toList

namespace Operand

/-- Whether a comparison with a text holds of another. Masks and containment are asked for by equality only;
otherwise texts are ordered character by character. -/
def testText (c : Comparator) (mode : MatchMode) (actual expected : List Char) : Bool :=
  match mode, c with
  | .contains, .eq => containsText actual expected
  | .pattern, .eq => maskMatches actual expected
  | _, c => c.accepts (compare (String.ofList actual) (String.ofList expected))

/-- Whether a comparison with the operand holds of a value. -/
def test (o : Operand) (c : Comparator) (actual : Value) : Bool :=
  match actual, o.value with
  | .text a, .text e =>
    testText c o.mode (folded o.isCaseSensitive a) (folded o.isCaseSensitive e)
  | a, e =>
    match c with
    | .eq => a.same e
    | .ne => !a.same e
    | c =>
      match a.compare? e with
      | some order => c.accepts order
      | none => false

/-- Whether a comparison with the operand holds of several values at once. -/
def testAll (o : Operand) (c : Comparator) (actual : List Value) : Bool :=
  match c with
  | .ne => !actual.isEmpty && !actual.any (o.test .eq)
  | c => actual.any (o.test c)

end Operand

/-! ## 2. Predicates -/

namespace Store

/-- Whether a comparison holds of a record. -/
def meets (s : Store) (r : Record) (c : Comparison) : Bool :=
  c.operand.testAll c.comparator (s.values c.path.steps r)

mutual

/-- Whether a predicate holds of a record. -/
def satisfies (s : Store) (r : Record) : Predicate → Bool
  | .matchAll => true
  | .compare c => s.meets r c
  | .boolean .and children => satisfiesAll s r children
  | .boolean .or children => satisfiesAny s r children
  | .boolean .not children => !satisfiesAll s r children

/-- Whether all predicates of a list hold. -/
def satisfiesAll (s : Store) (r : Record) : List Predicate → Bool
  | [] => true
  | p :: rest => satisfies s r p && satisfiesAll s r rest

/-- Whether some predicate of a list holds. -/
def satisfiesAny (s : Store) (r : Record) : List Predicate → Bool
  | [] => false
  | p :: rest => satisfies s r p || satisfiesAny s r rest

end

end Store

end ContextualQuery
