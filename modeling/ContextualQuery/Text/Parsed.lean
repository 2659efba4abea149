/-!
# Results of reading a part of an input

A reader of a list takes some of its elements from the front and leaves the rest. The result says how many
elements have been taken at least, which is what makes repeated reading end: for a value that is `Parsed` there
was one, for one that is `Trailing` there may have been none.
-/

namespace ContextualQuery

/-- A value read from the front of `input`, and a rest that is shorter by `least` elements or more. -/
structure Portion (least : Nat) {τ : Type} (α : Type) (input : List τ) where
  value : α
  rest : List τ
  enough : rest.length + least ≤ input.length

/-- A value for which something has been taken. -/
abbrev Parsed {τ : Type} (α : Type) (input : List τ) := Portion 1 α input

/-- A value for which perhaps nothing has been taken. -/
abbrev Trailing {τ : Type} (α : Type) (input : List τ) := Portion 0 α input

theorem Portion.shorter {τ α : Type} {input : List τ} (p : Parsed α input) :
    p.rest.length < input.length := p.enough

end ContextualQuery
