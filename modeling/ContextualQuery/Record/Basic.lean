import ContextualQuery.Value.Notation
/-!
# Records

A record holds data under the names of attributes: values, objects, and lists of these. The attributes
stand in the order of their names, each name once.
-/

namespace ContextualQuery

/-- The content of an attribute. An object is a record inside another. -/
inductive Datum
  | scalar (v : Value)
  | object (attributes : List (String × Datum))
  | list (items : List Datum)
  deriving Repr, Inhabited

/-- A record. -/
abbrev Record := Dictionary Datum

namespace Datum

/-- The values of a list of records. -/
def values (vs : List Value) : Datum := list (vs.map scalar)

/-- The value, if it is one. -/
def scalar? : Datum → Option Value
  | scalar v => some v
  | _ => none

mutual

/-- The values in the datum that are not null, in order. Objects hold none themselves. -/
def scalars : Datum → List Value
  | scalar v => if v.isNull then [] else [v]
  | object _ => []
  | list items => scalarsOf items

/-- The values in several data. -/
def scalarsOf : List Datum → List Value
  | [] => []
  | d :: rest => scalars d ++ scalarsOf rest

end

mutual

/-- The objects in the datum, in order. -/
def objects : Datum → List Record
  | scalar _ => []
  | object attributes => [attributes]
  | list items => objectsOf items

/-- The objects in several data. -/
def objectsOf : List Datum → List Record
  | [] => []
  | d :: rest => objects d ++ objectsOf rest

end

mutual

/-- The datum as plain JSON. -/
def toJson : Datum → Json
  | scalar v => v.plain
  | object attributes => .object (membersOf attributes)
  | list items => .array (itemsOf items)

/-- Several data as plain JSON. -/
def itemsOf : List Datum → List Json
  | [] => []
  | d :: rest => toJson d :: itemsOf rest

/-- Attributes as plain JSON. -/
def membersOf : List (String × Datum) → List (String × Json)
  | [] => []
  | (name, d) :: rest => (name, toJson d) :: membersOf rest

end

end Datum

namespace Record

/-- A record without attributes. -/
def empty : Record := []

/-- Sets an attribute, in place of an earlier one of its name. -/
def set (r : Record) (name : String) (d : Datum) : Record := r.insert name d

/-- The content of an attribute. -/
def get? (r : Record) (name : String) : Option Datum := Dictionary.find? name r

/-- The value of an attribute, if it holds a single value. -/
def scalar? (r : Record) (name : String) : Option Value := r.get? name >>= Datum.scalar?

/-- The number of attributes. -/
def size (r : Record) : Nat := r.length

/-- The record as a plain JSON object. -/
def toJson (r : Record) : Json := .object (Datum.membersOf r)

/-- Behind a setting stands the new content under its name, and all else as before. -/
theorem get?_set (r : Record) (name other : String) (d : Datum) :
    (r.set name d).get? other = if name = other then some d else r.get? other :=
  Dictionary.find?_insert name other d r

end Record

end ContextualQuery
