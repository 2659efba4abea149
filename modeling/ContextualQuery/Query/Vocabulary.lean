import ContextualQuery.Text.LetterCase
/-!
# The fixed words of the query language

Relation symbols, reserved words, modifiers and sort directions. Words are recognised whatever the
case of their ASCII letters; symbols and words have one spelling in which they are shown.
-/

namespace ContextualQuery

/-! ## 1. Connectives and directions -/

/-- How the parts of a filter or of a predicate are combined; `not` has one part. -/
inductive Connective
  | and
  | or
  | not
  deriving DecidableEq, Repr

/-- The direction of a sort key. -/
inductive Direction
  | ascending
  | descending
  deriving DecidableEq, Repr

/-- A sort direction by the name of its modifier, with or without the context set `sort`. -/
def Direction.ofName? (name : String) : Option Direction :=
  if sameIgnoringCase name "sort.ascending" || sameIgnoringCase name "ascending" then
    some .ascending
  else if sameIgnoringCase name "sort.descending" || sameIgnoringCase name "descending" then
    some .descending
  else none

/-! ## 2. Relation symbols -/

/-- A relation symbol. `word` is `=`, whose meaning for text is configurable; `exact` is `==`. -/
inductive RelationSymbol
  | word
  | exact
  | notEqual
  | less
  | atMost
  | greater
  | atLeast
  deriving DecidableEq, Repr

namespace RelationSymbol

/-- The spelling of the symbol. -/
def spelling : RelationSymbol → String
  | word => "="
  | exact => "=="
  | notEqual => "<>"
  | less => "<"
  | atMost => "<="
  | greater => ">"
  | atLeast => ">="

/-- All symbols. -/
def all : List RelationSymbol := [word, exact, notEqual, less, atMost, greater, atLeast]

/-- The symbol of a spelling. -/
def ofSpelling? (s : String) : Option RelationSymbol := all.find? (·.spelling == s)

/-- Whether the symbol asks for an order. -/
def isOrdering : RelationSymbol → Bool
  | less | atMost | greater | atLeast => true
  | word | exact | notEqual => false

end RelationSymbol

/-! ## 3. Reserved words -/

/-- A reserved word. -/
inductive Keyword
  | and
  | or
  | not
  | sortBy
  deriving DecidableEq, Repr

/-- The reserved word that a word spells. -/
def Keyword.ofWord? (word : String) : Option Keyword :=
  if sameIgnoringCase word "and" then some .and
  else if sameIgnoringCase word "or" then some .or
  else if sameIgnoringCase word "not" then some .not
  else if sameIgnoringCase word "sortby" then some .sortBy
  else none

/-! ## 4. Relation modifiers -/

/-- A modifier of a relation. -/
inductive Modifier
  | ignoreCase
  | respectCase
  | masked
  | unmasked
  deriving DecidableEq, Repr

namespace Modifier

/-- The spelling in which the modifier is shown. -/
def name : Modifier → String
  | ignoreCase => "ignoreCase"
  | respectCase => "respectCase"
  | masked => "masked"
  | unmasked => "unmasked"

/-- All modifiers, in the order in which they are listed. -/
def all : List Modifier := [ignoreCase, respectCase, masked, unmasked]

/-- The modifier of a name. -/
def ofName? (s : String) : Option Modifier := all.find? fun m => sameIgnoringCase m.name s

/-- The modifier that says the contrary. -/
def opposite : Modifier → Modifier
  | ignoreCase => respectCase
  | respectCase => ignoreCase
  | masked => unmasked
  | unmasked => masked

end Modifier

/-- A set of modifiers. -/
structure Modifiers where
  ignoreCase : Bool := false
  respectCase : Bool := false
  masked : Bool := false
  unmasked : Bool := false
  deriving DecidableEq, Repr

namespace Modifiers

/-- No modifier. -/
def empty : Modifiers := {}

/-- Whether the modifier is in the set. -/
def contains (s : Modifiers) : Modifier → Bool
  | .ignoreCase => s.ignoreCase
  | .respectCase => s.respectCase
  | .masked => s.masked
  | .unmasked => s.unmasked

/-- Puts a modifier into the set. -/
def insert (s : Modifiers) : Modifier → Modifiers
  | .ignoreCase => { s with ignoreCase := true }
  | .respectCase => { s with respectCase := true }
  | .masked => { s with masked := true }
  | .unmasked => { s with unmasked := true }

/-- The modifiers of the set, in their listed order. -/
def toList (s : Modifiers) : List Modifier := Modifier.all.filter s.contains

/-- The set of the modifiers of a list. -/
def ofList (ms : List Modifier) : Modifiers := ms.foldl insert empty

@[simp] theorem contains_empty (m : Modifier) : empty.contains m = false := by cases m <;> rfl

@[simp] theorem contains_insert (s : Modifiers) (m n : Modifier) :
    (s.insert m).contains n = (decide (n = m) || s.contains n) := by
  cases m <;> cases n <;> simp [insert, contains]

end Modifiers

end ContextualQuery
