/-!
# What of a document is looked at

A reader of structures needs a few members of each object and passes over the others. A shape says which
members these are, at every level of a document.
-/

namespace ContextualQuery.Json

/-- What of a value is looked at: all of it, the items of a list, or some members of an object. A structure
that is written as an array has its fields in the same order. -/
inductive Shape
  | whole
  | list (item : Shape)
  | record (fields : List (String × Shape))

namespace Shape

/-- The record of fields that are looked at as wholes. -/
def plain (names : List String) : Shape := record (names.map fun n => (n, whole))

/-- The names of the fields. -/
def names : Shape → List String
  | record fields => fields.map (·.1)
  | _ => []

/-- What of the item at a position is looked at. -/
def item (position : Nat) : Shape → Shape
  | whole => whole
  | list s => s
  | record fields => ((fields[position]?).map (·.2)).getD whole

/-- What of a member is looked at, if anything is. -/
def member? (name : String) : Shape → Option Shape
  | record fields => (fields.find? (·.1 == name)).map (·.2)
  | _ => some whole

end Shape

end ContextualQuery.Json
