import ContextualQuery.Dictionary
import ContextualQuery.Number.Decimal
/-!
# JSON values

A document is a tree of the six kinds of JSON value. Numbers are integers or doubles, as they were
written; the members of an object stand in the order of the text, repeated names included, and
`Json.members?` is the view of an object as a dictionary.
-/

namespace ContextualQuery

/-- A JSON value. -/
inductive Json
  | null
  | bool (b : Bool)
  | integer (n : Int)
  | double (x : Double)
  | text (s : String)
  | array (items : List Json)
  | object (members : List (String × Json))
  deriving Inhabited

namespace Json

/-- A double as JSON; what is not finite has no number and becomes null. -/
def ofDouble (x : Double) : Json := if x.isFinite then .double x else .null

/-- An optional text, null where there is none. -/
def ofText? : Option String → Json
  | some s => .text s
  | none => .null

/-! ## Views -/

/-- The text, if it is one. -/
def text? : Json → Option String
  | .text s => some s
  | _ => none

/-- The truth value, if it is one. -/
def bool? : Json → Option Bool
  | .bool b => some b
  | _ => none

/-- The items, if it is an array. -/
def array? : Json → Option (List Json)
  | .array items => some items
  | _ => none

/-- The dictionary, if it is an object. -/
def members? : Json → Option (Dictionary Json)
  | .object members => some (Dictionary.ofList members)
  | _ => none

/-- An integer within bounds, the upper one excluded. A double is no integer, whatever its value. -/
def integer? (low high : Int) : Json → Option Int
  | .integer n => if low ≤ n ∧ n < high then some n else none
  | _ => none

/-- A natural number below a bound. -/
def nat? (high : Nat) (j : Json) : Option Nat := (j.integer? 0 high).map Int.toNat

/-- The number as a double; integers are rounded. -/
def double? : Json → Option Double
  | .integer n => some (.ofInt n)
  | .double x => some x
  | _ => none

/-- The number as a single; integers are rounded once. -/
def single? : Json → Option Single
  | .integer n => some (.ofInt n)
  | .double x => some x.toSingle
  | _ => none

/-- Null. -/
def isNull : Json → Bool
  | .null => true
  | _ => false

/-! ## Order of members -/

mutual

/-- The same value with the members of every object in the order of their names, each name once. -/
def ordered : Json → Json
  | .array items => .array (orderedItems items)
  | .object members => .object (Dictionary.ofList (orderedMembers members))
  | j => j

/-- The items with their members in order. -/
def orderedItems : List Json → List Json
  | [] => []
  | j :: rest => ordered j :: orderedItems rest

/-- The members with the members below them in order. -/
def orderedMembers : List (String × Json) → List (String × Json)
  | [] => []
  | (name, j) :: rest => (name, ordered j) :: orderedMembers rest

end

end Json

end ContextualQuery
