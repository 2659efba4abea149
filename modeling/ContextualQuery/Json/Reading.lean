import ContextualQuery.Json.Scalar
import ContextualQuery.Json.Shape
import ContextualQuery.Json.Skipping
import ContextualQuery.Text.Parsed
/-!
# Reading JSON texts

A text is one value between blanks. `readAs?` reads it for a shape: the members that the shape does not name
are passed over and stand in the result as null. `read?` looks at everything. Arrays and objects that are
looked at nest at most 127 deep.
-/

namespace ContextualQuery.Json

/-- Reads a value of some kind from the front of a list. -/
abbrev Reader (α : Type) := (input : List Char) → Option (Parsed α input)

/-! ## 1. Arrays and objects -/

/-- The items of an array from a position on, after its first bracket or after a comma, up to the closing
bracket. How an item is read depends on its position. -/
def arrayItems? (value : Nat → Reader Json) (position : Nat) (input : List Char) :
    Option (Parsed (List Json) input) := do
  let ⟨first, rest, h⟩ ← value position input
  match hb : skipBlanks rest with
  | [] => none
  | c :: more =>
    have := length_of_skipBlanks hb
    if c = ',' then
      let ⟨others, rest, h'⟩ ← arrayItems? value (position + 1) more
      return ⟨first :: others, rest, by omega⟩
    else if c = ']' then return ⟨[first], more, by omega⟩
    else none
termination_by input.length

/-- A name, a colon and a value. How the value is read depends on the name. -/
def objectMember? (value : String → Reader Json) (input : List Char) :
    Option (Parsed (String × Json) input) :=
  match hq : skipBlanks input with
  | [] => none
  | q :: rest =>
    if q = Char.ofNat 0x22 then
      match hn : characters? rest with
      | none => none
      | some (cs, after) =>
        let name := String.ofList cs
        match hc : skipBlanks after with
        | [] => none
        | c :: start =>
          if c = ':' then do
            let ⟨v, rest, h⟩ ← value name start
            have := length_of_skipBlanks hq
            have := length_of_characters? hn
            have := length_of_skipBlanks hc
            return ⟨(name, v), rest, by omega⟩
          else none
    else none

/-- The members of an object after its first brace, or after a comma, up to the closing brace. -/
def objectMembers? (value : String → Reader Json) (input : List Char) :
    Option (Parsed (List (String × Json)) input) := do
  let ⟨first, rest, h⟩ ← objectMember? value input
  match hb : skipBlanks rest with
  | [] => none
  | c :: more =>
    have := length_of_skipBlanks hb
    if c = ',' then
      let ⟨others, rest, h'⟩ ← objectMembers? value more
      return ⟨first :: others, rest, by omega⟩
    else if c = '\x7d' then return ⟨[first], more, by omega⟩
    else none
termination_by input.length

/-! ## 2. Values -/

/-- Passes over a value. -/
def passed? (input : List Char) : Option (Parsed Json input) :=
  match h : skip? input with
  | none => none
  | some rest => some ⟨.null, rest, length_of_skip? h⟩

/-- A value that holds no other one, after blanks. -/
def leaf? (input : List Char) : Option (Parsed Json input) :=
  match h : scalar? (skipBlanks input) with
  | none => none
  | some (j, rest) =>
    some ⟨j, rest, Nat.lt_of_lt_of_le (length_of_scalar? h) (length_skipBlanks_le input)⟩

/-- How the content of a member is read, if the members that are looked at are read so. -/
def content (value : Shape → Reader Json) (shape : Shape) (name : String) : Reader Json :=
  match shape.member? name with
  | some s => value s
  | none => passed?

/-- A value, as far as a shape tells, in which arrays and objects nest at most `depth` deep. -/
def value? : (depth : Nat) → Shape → Reader Json
  | 0, _, input => leaf? input
  | depth + 1, shape, input =>
    match hb : skipBlanks input with
    | [] => none
    | b :: rest =>
      match hc : skipBlanks rest with
      | [] => leaf? input
      | c :: more =>
        have : rest.length < input.length := length_of_skipBlanks hb
        have : more.length < rest.length := length_of_skipBlanks hc
        if b = '[' then
          if c = ']' then some ⟨.array [], more, by omega⟩
          else do
            let ⟨items, rest, h⟩ ← arrayItems? (fun i => value? depth (shape.item i)) 0 (c :: more)
            return ⟨.array items, rest, by simp at h; omega⟩
        else if b = '\x7b' then
          if c = '\x7d' then some ⟨.object [], more, by omega⟩
          else do
            let ⟨members, rest, h⟩ ← objectMembers? (content (value? depth) shape) (c :: more)
            return ⟨.object members, rest, by simp at h; omega⟩
        else leaf? input

/-- Reads a whole text, as far as a shape tells. -/
def readAs? (shape : Shape) (text : String) : Option Json := do
  let ⟨j, rest, _⟩ ← value? 127 shape text.toList
  if (skipBlanks rest).isEmpty then some j else none

/-- Reads a whole text. -/
def read? (text : String) : Option Json := readAs? .whole text

end ContextualQuery.Json
