import ContextualQuery.Json.Scalar
/-!
# Values that are passed over

A value that nobody looks at only has to be well formed: its numbers may be of any size, its escapes
may be halves of surrogate pairs, and it may nest to any depth. The file fixes

* `skipCharacters?` and `skipScalar?`, which pass over values that hold no other one,
* `advance?`, one step under the brackets that are open, with the lemma that it takes something, and
* `skip?`, which passes over a whole value.
-/

namespace ContextualQuery.Json

/-! ## 1. Scalars -/

/-- What follows the closing quote of a text. -/
def skipCharacters? : List Char → Option (List Char)
  | [] => none
  | '\\' :: 'u' :: a :: b :: c :: d :: rest =>
    if (hex4? a b c d).isSome then skipCharacters? rest else none
  | '\\' :: e :: rest => if (simpleEscape? e).isSome then skipCharacters? rest else none
  | c :: rest =>
    if c = Char.ofNat 0x22 then some rest
    else if c.toNat < 0x20 ∨ c = '\\' then none
    else skipCharacters? rest

/-- What follows a value that holds no other one. -/
def skipScalar? : List Char → Option (List Char)
  | [] => none
  | c :: rest =>
    if c = Char.ofNat 0x22 then skipCharacters? rest
    else if c = '-' ∨ c.isDigit then (numeral? (c :: rest)).map (·.2)
    else (literal? (c :: rest)).map (·.2)

/-- The quote at least is passed. -/
theorem length_of_skipCharacters? {cs rest : List Char} (h : skipCharacters? cs = some rest) :
    rest.length < cs.length := by
  fun_induction skipCharacters? cs <;> simp_all <;> omega

/-- A scalar has characters. -/
theorem length_of_skipScalar? {cs rest : List Char} (h : skipScalar? cs = some rest) :
    rest.length < cs.length := by
  unfold skipScalar? at h
  split at h
  · simp at h
  · split at h
    · have := length_of_skipCharacters? h
      simp only [List.length_cons]
      omega
    · split at h
      · obtain ⟨r, hr, rfl⟩ := Option.map_eq_some_iff.1 h
        exact length_of_numeral? hr
      · obtain ⟨r, hr, rfl⟩ := Option.map_eq_some_iff.1 h
        exact length_of_literal? hr

/-! ## 2. One step -/

/-- What may be open around a value. -/
inductive Bracket
  | array
  | object
  deriving DecidableEq, Repr

/-- The bracket that a character opens. -/
def Bracket.ofOpening? (c : Char) : Option Bracket :=
  if c = '[' then some array else if c = '\x7b' then some object else none

/-- The character that closes the bracket. -/
def Bracket.closing : Bracket → Char
  | array => ']'
  | object => '\x7d'

/-- Passes over a name and its colon. -/
def skipName? (input : List Char) : Option (List Char) :=
  match skipBlanks input with
  | [] => none
  | c :: rest =>
    if c = Char.ofNat 0x22 then
      (skipCharacters? rest).bind fun rest =>
        match skipBlanks rest with
        | ':' :: rest => some rest
        | _ => none
    else none

/-- Passes over what stands before a value: inside an object its name. The innermost bracket is the first. -/
def skipLead? : List Bracket → List Char → Option (List Char)
  | .object :: _, input => skipName? input
  | _, input => some input

/-- Closes brackets after a value, up to a comma or until none is open. Gives what is still open. -/
def close? : List Bracket → List Char → Option (List Bracket × List Char)
  | [], input => some ([], input)
  | b :: outer, input =>
    match skipBlanks input with
    | [] => none
    | c :: rest =>
      if c = ',' then some (b :: outer, rest)
      else if c = b.closing then close? outer rest
      else none

/-- Passes over the start of a value: over its opening bracket, or, if nothing stands in the value, over it and
what closes behind it. Gives what is open then. -/
def advance? (opened : List Bracket) (input : List Char) : Option (List Bracket × List Char) :=
  (skipLead? opened input).bind fun start =>
    match skipBlanks start with
    | [] => none
    | c :: rest =>
      match Bracket.ofOpening? c with
      | some b =>
        match skipBlanks rest with
        | [] => none
        | d :: more => if d = b.closing then close? opened more else some (b :: opened, d :: more)
      | none => (skipScalar? (c :: rest)).bind (close? opened)

/-- No more is left after a name. -/
theorem length_of_skipName? {input rest : List Char} (h : skipName? input = some rest) :
    rest.length < input.length := by
  have := length_skipBlanks_le input
  unfold skipName? at h
  split at h
  · simp at h
  · rename_i c more hc
    split at h
    · obtain ⟨r, hr, h⟩ := Option.bind_eq_some_iff.1 h
      have := length_of_skipCharacters? hr
      have := length_skipBlanks_le r
      grind
    · simp at h

/-- No more is left after what stands before a value. -/
theorem length_of_skipLead? {opened : List Bracket} {input rest : List Char}
    (h : skipLead? opened input = some rest) : rest.length ≤ input.length := by
  unfold skipLead? at h
  split at h
  · exact Nat.le_of_lt (length_of_skipName? h)
  · simp_all

/-- No more is left after closing. -/
theorem length_of_close? {opened left : List Bracket} {input rest : List Char}
    (h : close? opened input = some (left, rest)) : rest.length ≤ input.length := by
  fun_induction close? opened input with
  | case1 => simp_all
  | case2 => simp at h
  | case3 b outer input more hc =>
    have := length_skipBlanks_le input
    grind
  | case4 b outer input more hc _ ih =>
    have := length_skipBlanks_le input
    grind
  | case5 => simp at h

/-- A step takes something. -/
theorem length_of_advance? {opened left : List Bracket} {input rest : List Char}
    (h : advance? opened input = some (left, rest)) : rest.length < input.length := by
  obtain ⟨start, hs, h⟩ := Option.bind_eq_some_iff.1 h
  have := length_of_skipLead? hs
  have := length_skipBlanks_le start
  split at h
  · simp at h
  · rename_i c more hc
    split at h
    · have := length_skipBlanks_le more
      split at h
      · simp at h
      · split at h
        · have := length_of_close? h
          grind
        · grind
    · obtain ⟨r, hr, h⟩ := Option.bind_eq_some_iff.1 h
      have := length_of_skipScalar? hr
      have := length_of_close? h
      grind

/-! ## 3. Values -/

/-- Passes over a value under open brackets, and over everything up to the last of these. -/
def skipWithin? (opened : List Bracket) (input : List Char) : Option (List Char) :=
  match h : advance? opened input with
  | none => none
  | some ([], rest) => some rest
  | some (b :: outer, rest) =>
    have : rest.length < input.length := length_of_advance? h
    skipWithin? (b :: outer) rest
termination_by input.length

/-- Passes over a value. -/
def skip? (input : List Char) : Option (List Char) := skipWithin? [] input

/-- Something is passed. -/
theorem length_of_skipWithin? {opened : List Bracket} {input rest : List Char}
    (h : skipWithin? opened input = some rest) : rest.length < input.length := by
  fun_induction skipWithin? opened input with
  | case1 => simp at h
  | case2 _ _ _ ha =>
    obtain rfl := Option.some.inj h
    exact length_of_advance? ha
  | case3 _ _ _ _ _ ha _ ih =>
    have := ih h
    omega

/-- A value has characters. -/
theorem length_of_skip? {input rest : List Char} (h : skip? input = some rest) :
    rest.length < input.length :=
  length_of_skipWithin? h

end ContextualQuery.Json
