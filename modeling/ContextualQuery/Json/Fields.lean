import ContextualQuery.Json.Basic
/-!
# Structures as JSON

A structure is written as an object with one member per field, or as an array of its fields in
order, of which the last may be missing. Members with other names are ignored; a field that is
given twice is refused. A choice between named alternatives is an object with one member, or, for
an alternative without content, its name alone. In a tagged structure a field in front of the others
says which of several structures it is.
-/

namespace ContextualQuery.Json

/-- The only member of a name, if there is one; `none` if there are several. -/
def only? (name : String) (members : List (String × Json)) : Option (Option Json) :=
  match members.filter (·.1 == name) with
  | [] => some none
  | [m] => some (some m.2)
  | _ => none

/-- The fields with the given names, in this order. -/
def fields? (names : List String) : Json → Option (List (Option Json))
  | .object members => names.mapM fun n => only? n members
  | .array items =>
    if items.length ≤ names.length then
      some (items.map some ++ List.replicate (names.length - items.length) none)
    else none
  | _ => none

/-- A field that has to be given. -/
def required? {α : Type} (read : Json → Option α) (field : Option Json) : Option α :=
  field.bind read

/-- A field with a value of its own where it is not given. -/
def defaulted? {α : Type} (default : α) (read : Json → Option α) : Option Json → Option α
  | none => some default
  | some j => read j

/-- A field that may be null; null is written where there is nothing. -/
def nullable? {α : Type} (read : Json → Option α) : Json → Option (Option α)
  | .null => some none
  | j => (read j).map some

/-- A list of values of one kind. -/
def list? {α : Type} (read : Json → Option α) (j : Json) : Option (List α) := do
  (← j.array?).mapM read

/-- The chosen alternative, with its content if there is any. -/
def choice? : Json → Option (String × Option Json)
  | .text name => some (name, none)
  | .object [(name, content)] => some (name, some content)
  | _ => none

/-- The name of an alternative without content. -/
def bareName? (j : Json) : Option String := do
  let (name, content) ← j.choice?
  match content with
  | none | some .null => some name
  | _ => none

/-- An alternative without content, by its name. -/
def named? {α : Type} (alternatives : List (String × α)) (j : Json) : Option α := do
  let name ← j.bareName?
  (alternatives.find? (·.1 == name)).map (·.2)

/-- The tag of a structure, and what its other fields are read from. -/
def tagged? (tag : String) : Json → Option (String × Json)
  | .object members => do
    let kind ← required? text? (← only? tag members)
    return (kind, .object members)
  | .array (kind :: rest) => kind.text?.map fun k => (k, .array rest)
  | _ => none

end ContextualQuery.Json
