import ContextualQuery.Json.Fields
import ContextualQuery.Json.Reading
/-!
# Windows and pages

A window is a run of rows that is asked for: where it starts, and how many rows it has at most. A page is
the rows in a window, with the number of all rows.
-/

namespace ContextualQuery

/-- The greatest row number. -/
def maxRow : Nat := UInt64.size - 1

/-- A window. It has room for a row. -/
structure Window where
  offset : Nat
  limit : Nat
  offset_le : offset ≤ maxRow
  limit_pos : 0 < limit
  limit_lt : limit < UInt32.size
  deriving DecidableEq, Repr

/-- Why bounds make no window. -/
inductive WindowFault
  | zeroLimit
  deriving DecidableEq, Repr

/-- The message about it. -/
def WindowFault.message : WindowFault → String
  | zeroLimit => "invalid page request: limit must be positive"

namespace Window

/-- The window with given bounds: an offset of 64 bits, and a limit of 32 bits. -/
def ofBounds (offset : UInt64) (limit : UInt32) : Except WindowFault Window :=
  if h : limit.toNat = 0 then .error .zeroLimit
  else .ok
    { offset := offset.toNat
      limit := limit.toNat
      offset_le := Nat.le_pred_of_lt offset.toNat_lt
      limit_pos := Nat.pos_of_ne_zero h
      limit_lt := limit.toNat_lt }

/-- The window of the first rows. -/
def first (limit : UInt32) : Except WindowFault Window := ofBounds 0 limit

/-- The row after the last; rows beyond the greatest number are not counted. -/
def stop (w : Window) : Nat := min (w.offset + w.limit) maxRow

/-- The window after this one. -/
def next (w : Window) : Window := { w with offset := w.stop, offset_le := Nat.min_le_right _ _ }

/-- The rows of a list that lie in the window. -/
def cut {α : Type} (w : Window) (rows : List α) : List α := (rows.drop w.offset).take w.limit

/-- The window as JSON. -/
def toJson (w : Window) : Json := .object [("limit", .integer w.limit), ("offset", .integer w.offset)]

/-- The fields. -/
def shape : Json.Shape := .plain ["offset", "limit"]

/-- Reads a window. -/
def ofJson? (j : Json) : Option Window := do
  let [offset, limit] ← j.fields? shape.names | none
  let offset ← Json.required? (Json.nat? UInt64.size) offset
  let limit ← Json.required? (Json.nat? UInt32.size) limit
  match ofBounds (.ofNat offset) (.ofNat limit) with
  | .ok w => some w
  | .error _ => none

/-- Reads the text of a window. -/
def read? (text : String) : Option Window := (Json.readAs? shape text).bind ofJson?

end Window

/-- The rows in a window, and the number of all rows. -/
structure Page (α : Type) where
  content : List α
  total : Nat
  window : Window

namespace Page

/-- The number of rows on the page. -/
def size {α : Type} (p : Page α) : Nat := p.content.length

/-- Whether the page has no rows. -/
def isEmpty {α : Type} (p : Page α) : Bool := p.content.isEmpty

/-- Whether there are rows after the window. -/
def hasNext {α : Type} (p : Page α) : Bool := decide (p.window.stop < p.total)

/-- The same page with other rows. -/
def map {α β : Type} (f : α → β) (p : Page α) : Page β := ⟨p.content.map f, p.total, p.window⟩

/-- The page as JSON. -/
def toJson {α : Type} (row : α → Json) (p : Page α) : Json :=
  .object [("content", .array (p.content.map row)), ("request", p.window.toJson),
    ("total", .integer p.total)]

end Page

end ContextualQuery
