/-!
# Places in a text

A place is a byte offset into the UTF-8 form of a text, a span is a range of such offsets.
The file fixes

* `Span`, its union `Span.merge` and its length,
* `Located`, a value together with the span it was written at,
* `Position`, the line and column a reader counts, found by walking the characters, and
* `lines`, the lines of a text as they are shown.
-/

namespace ContextualQuery

/-! ## 1. Spans -/

/-- A range of bytes; `stop` is the first byte after it. -/
structure Span where
  start : Nat
  stop : Nat
  deriving DecidableEq, Repr

namespace Span

/-- The least span that covers both. -/
def merge (a b : Span) : Span := ⟨min a.start b.start, max a.stop b.stop⟩

/-- The number of bytes in the span. -/
def length (s : Span) : Nat := s.stop - s.start

/-- A span is empty when it starts where it stops. -/
def isEmpty (s : Span) : Bool := s.start == s.stop

end Span

/-- A value and the place it was written at. -/
structure Located (α : Type) where
  value : α
  span : Span
  deriving DecidableEq, Repr

/-! ## 2. Bytes of a list of characters -/

/-- The number of bytes that the characters take in UTF-8. -/
def byteLength : List Char → Nat
  | [] => 0
  | c :: rest => c.utf8Size + byteLength rest

@[simp] theorem byteLength_nil : byteLength [] = 0 := rfl

@[simp] theorem byteLength_cons (c : Char) (cs : List Char) :
    byteLength (c :: cs) = c.utf8Size + byteLength cs := rfl

@[simp] theorem byteLength_append (as bs : List Char) :
    byteLength (as ++ bs) = byteLength as + byteLength bs := by
  induction as with
  | nil => simp
  | cons a as ih => simp [ih, Nat.add_assoc]

/-! ## 3. Lines and columns -/

/-- A line and a column in characters, both counted from one. -/
structure Position where
  line : Nat
  column : Nat
  deriving DecidableEq, Repr

namespace Position

/-- The position before any character. -/
def origin : Position := ⟨1, 1⟩

/-- The position after one more character. -/
def advance (p : Position) (c : Char) : Position :=
  if c = '\n' then ⟨p.line + 1, 1⟩ else ⟨p.line, p.column + 1⟩

/-- Walks the characters that start before `bytes` further bytes have passed. -/
def walk : List Char → Nat → Position → Position
  | [], _, p => p
  | c :: rest, bytes, p => if bytes = 0 then p else walk rest (bytes - c.utf8Size) (p.advance c)

/-- The position of a byte offset; an offset inside a character counts as the place after it. -/
def ofOffset (text : String) (offset : Nat) : Position := walk text.toList offset origin

end Position

/-- Drops one carriage return that ends a line. -/
def dropCarriageReturn : List Char → List Char
  | [] => []
  | [c] => if c = '\r' then [] else [c]
  | c :: rest => c :: dropCarriageReturn rest

/-- The lines of a text without their ends; what follows the last line feed is a line only if
it is not empty, and keeps a carriage return. -/
def linesFrom : List Char → List Char → List (List Char)
  | [], [] => []
  | [], current => [current.reverse]
  | c :: rest, current =>
    if c = '\n' then dropCarriageReturn current.reverse :: linesFrom rest []
    else linesFrom rest (c :: current)

/-- The lines of a text as they are shown. -/
def lines (text : String) : List (List Char) := linesFrom text.toList []

end ContextualQuery
