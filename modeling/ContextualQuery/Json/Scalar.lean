import ContextualQuery.Json.Basic
/-!
# Scalars in JSON texts

The values without parts: numbers, texts and the three words. An integer that fits into 64 bits stays an
integer; every other number is a double, computed from the first digits that fit into 64 bits and one power
of ten, and a number beyond the doubles is refused. Escapes of half a surrogate pair are refused.
-/

namespace ContextualQuery.Json

/-! ## 1. Numbers -/

/-- A number as it is written, in parts. -/
structure Numeral where
  negative : Bool
  whole : List Char
  fraction : Option (List Char)
  exponent : Option (Bool × List Char)

/-- The digit's value. -/
def digitValue (c : Char) : Nat := c.toNat - '0'.toNat

/-- Appends digits to a significand as long as it stays below 2^64; the digits that are left over
follow. -/
def gather (significand : Nat) : List Char → Nat × List Char
  | [] => (significand, [])
  | d :: rest =>
    let next := 10 * significand + digitValue d
    if next < UInt64.size then gather next rest else (significand, d :: rest)

/-- Divides by a power of ten, at most 308 at a time, until nothing is left of the number. -/
def scaleDown (x : Double) (exponent : Nat) : Double :=
  if exponent ≤ 308 then x.overPowerOfTen exponent
  else if x.magnitude = 0 then x
  else scaleDown (x.overPowerOfTen 308) (exponent - 308)
termination_by exponent

/-- The double `significand * 10 ^ exponent`, computed with one multiplication or with divisions. -/
def assemble? (negative : Bool) (significand : Nat) (exponent : Int) : Option Double :=
  let x := Double.ofInt significand
  let sign (y : Double) : Double := if negative then y.negate else y
  if 0 ≤ exponent then
    if 308 < exponent then (if significand = 0 then some (sign x) else none)
    else
      let y := x.timesPowerOfTen exponent.toNat
      if y.isFinite then some (sign y) else none
  else some (sign (scaleDown x (-exponent).toNat))

/-- The exponents that are computed with; what lies outside counts as the bound. -/
def clampExponent (e : Int) : Int := max (-2147483648) (min 2147483647 e)

/-- The value of a numeral. -/
def Numeral.value? (n : Numeral) : Option Json :=
  let (significand, left) := gather 0 n.whole
  if n.fraction.isNone && n.exponent.isNone && left.isEmpty &&
      (if n.negative then significand ≠ 0 && 2 * significand ≤ UInt64.size else true) then
    some (.integer (if n.negative then -(significand : Int) else significand))
  else
    let fraction := n.fraction.getD []
    let (significand, dropped) := gather significand fraction
    let start : Int := left.length - (fraction.length - dropped.length : Nat)
    let exponent := match n.exponent with
      | none => some start
      | some (down, digits) =>
        let e := digitsValue digits
        if e ≤ 2147483647 then
          some (clampExponent (if down then start - e else start + e))
        else if significand ≠ 0 && !down then none
        else some (-2147483648)
    exponent.bind fun e =>
      if significand = 0 then some (.double (Double.ofMagnitude n.negative 0))
      else (assemble? n.negative significand e).map .double

/-- The sign at the front, if there is one. -/
def takeSign : List Char → Bool × List Char
  | '-' :: rest => (true, rest)
  | cs => (false, cs)

/-- The digits at the front. -/
def takeDigits (cs : List Char) : List Char × List Char :=
  (cs.takeWhile Char.isDigit, cs.dropWhile Char.isDigit)

/-- The digits after a point, if there is one; at least one digit follows it. -/
def takeFraction? : List Char → Option (Option (List Char) × List Char)
  | '.' :: rest =>
    let (digits, rest) := takeDigits rest
    if digits.isEmpty then none else some (some digits, rest)
  | cs => some (none, cs)

/-- The exponent after its letter, if there is one: whether it is below zero, and at least one digit. -/
def takeExponent? : List Char → Option (Option (Bool × List Char) × List Char)
  | [] => some (none, [])
  | c :: rest =>
    if c = 'e' ∨ c = 'E' then
      let (down, rest) := if rest.head? = some '+' then (false, rest.tail) else takeSign rest
      let (digits, rest) := takeDigits rest
      if digits.isEmpty then none else some (some (down, digits), rest)
    else some (none, c :: rest)

/-- Takes a numeral from the front. No zero stands before another digit. -/
def numeral? (cs : List Char) : Option (Numeral × List Char) := do
  let (negative, body) := takeSign cs
  let (whole, rest) := takeDigits body
  if whole.isEmpty || (1 < whole.length && whole.head? == some '0') then none
  let (fraction, rest) ← takeFraction? rest
  let (exponent, rest) ← takeExponent? rest
  return (⟨negative, whole, fraction, exponent⟩, rest)

/-- Digits and what follows them make up the input. -/
theorem length_takeDigits (cs : List Char) :
    (takeDigits cs).1.length + (takeDigits cs).2.length = cs.length := by
  simp only [takeDigits]
  rw [← List.length_append, List.takeWhile_append_dropWhile]

/-- A sign is one character or none. -/
theorem length_takeSign_le (cs : List Char) : (takeSign cs).2.length ≤ cs.length := by
  unfold takeSign
  split <;> simp

/-- No more is left after a fraction. -/
theorem length_of_takeFraction? {cs rest : List Char} {f : Option (List Char)}
    (h : takeFraction? cs = some (f, rest)) : rest.length ≤ cs.length := by
  unfold takeFraction? at h
  split at h
  · rename_i more
    have := length_takeDigits more
    grind
  · grind

/-- No more is left after an exponent. -/
theorem length_of_takeExponent? {cs rest : List Char} {e : Option (Bool × List Char)}
    (h : takeExponent? cs = some (e, rest)) : rest.length ≤ cs.length := by
  unfold takeExponent? at h
  split at h
  · grind
  · rename_i c more
    have := length_takeSign_le more
    have := length_takeDigits (takeSign more).2
    have := length_takeDigits more.tail
    grind

/-- A numeral has digits. -/
theorem length_of_numeral? {cs rest : List Char} {n : Numeral} (h : numeral? cs = some (n, rest)) :
    rest.length < cs.length := by
  have hs := length_takeSign_le cs
  have hd := length_takeDigits (takeSign cs).2
  unfold numeral? at h
  simp only [Option.bind_eq_bind] at h
  split at h
  · simp at h
  · rename_i hw
    have hw : 0 < (takeDigits (takeSign cs).2).1.length := by
      cases hl : (takeDigits (takeSign cs).2).1 <;> simp_all
    obtain ⟨f, hf, h⟩ := Option.bind_eq_some_iff.1 h
    obtain ⟨e, he, h⟩ := Option.bind_eq_some_iff.1 h
    have := length_of_takeFraction? hf
    have := length_of_takeExponent? he
    simp at h
    obtain ⟨_, rfl⟩ := h
    omega

/-! ## 2. Texts -/

/-- The value of a hexadecimal digit. -/
def hexValue? (c : Char) : Option Nat :=
  if c.isDigit then some (c.toNat - 48)
  else if 'a' ≤ c ∧ c ≤ 'f' then some (c.toNat - 87)
  else if 'A' ≤ c ∧ c ≤ 'F' then some (c.toNat - 55)
  else none

/-- The value of four hexadecimal digits. -/
def hex4? (a b c d : Char) : Option Nat := do
  return 4096 * (← hexValue? a) + 256 * (← hexValue? b) + 16 * (← hexValue? c) + (← hexValue? d)

/-- The character of a one-letter escape. -/
def simpleEscape? (c : Char) : Option Char :=
  if c = Char.ofNat 0x22 ∨ c = '\\' ∨ c = '/' then some c
  else if c = 'b' then some '\x08'
  else if c = 'f' then some '\x0c'
  else if c = 'n' then some '\n'
  else if c = 'r' then some '\r'
  else if c = 't' then some '\t'
  else none

/-- The character of a code unit. After the first half of a surrogate pair the second has to follow. -/
def ofUnit? (n : Nat) (rest : List Char) : Option (Char × List Char) :=
  if 0xDC00 ≤ n ∧ n < 0xE000 then none
  else if 0xD800 ≤ n ∧ n < 0xDC00 then
    match rest with
    | '\\' :: 'u' :: a :: b :: c :: d :: rest =>
      (hex4? a b c d).bind fun m =>
        if 0xDC00 ≤ m ∧ m < 0xE000 then
          some (Char.ofNat (0x10000 + (n - 0xD800) * 0x400 + (m - 0xDC00)), rest)
        else none
    | _ => none
  else some (Char.ofNat n, rest)

/-- The character of an escape, after its backslash. -/
def escape? : List Char → Option (Char × List Char)
  | [] => none
  | 'u' :: a :: b :: c :: d :: rest => (hex4? a b c d).bind (ofUnit? · rest)
  | e :: rest => (simpleEscape? e).map fun c => (c, rest)

/-- No more is left after a code unit. -/
theorem length_of_ofUnit? {n : Nat} {input rest : List Char} {c : Char}
    (h : ofUnit? n input = some (c, rest)) : rest.length ≤ input.length := by
  unfold ofUnit? at h
  split at h
  · simp at h
  · split at h
    · split at h
      · obtain ⟨m, -, h⟩ := Option.bind_eq_some_iff.1 h
        grind
      · simp at h
    · grind

/-- An escape has a letter. -/
theorem length_of_escape? {input rest : List Char} {c : Char} (h : escape? input = some (c, rest)) :
    rest.length < input.length := by
  unfold escape? at h
  split at h
  · simp at h
  · obtain ⟨n, -, h⟩ := Option.bind_eq_some_iff.1 h
    have := length_of_ofUnit? h
    simp only [List.length_cons]
    omega
  · obtain ⟨e, -, h⟩ := Option.map_eq_some_iff.1 h
    grind

/-- The characters of a text up to its closing quote, and what follows the quote. -/
def characters? (input : List Char) : Option (List Char × List Char) :=
  match input with
  | [] => none
  | c :: rest =>
    if c = Char.ofNat 0x22 then some ([], rest)
    else if c = '\\' then
      match h : escape? rest with
      | none => none
      | some (e, after) =>
        have : after.length < rest.length := length_of_escape? h
        (characters? after).map fun r => (e :: r.1, r.2)
    else if c.toNat < 0x20 then none
    else (characters? rest).map fun r => (c :: r.1, r.2)
termination_by input.length

/-- The quote at least is taken. -/
theorem length_of_characters? {input cs rest : List Char} (h : characters? input = some (cs, rest)) :
    rest.length < input.length := by
  fun_induction characters? input generalizing cs rest <;>
    grind [Option.map_eq_some_iff]

/-! ## 3. Scalars -/

/-- Blanks between the parts of a document. -/
def isBlank (c : Char) : Bool := c = ' ' || c = '\n' || c = '\t' || c = '\r'

/-- The input after its blanks. -/
def skipBlanks (cs : List Char) : List Char := cs.dropWhile isBlank

/-- No more is left after the blanks. -/
theorem length_skipBlanks_le (cs : List Char) : (skipBlanks cs).length ≤ cs.length :=
  (List.dropWhile_suffix (l := cs) isBlank).length_le

/-- What follows the first character after the blanks. -/
theorem length_of_skipBlanks {cs rest : List Char} {c : Char} (h : skipBlanks cs = c :: rest) :
    rest.length < cs.length := by
  have := length_skipBlanks_le cs
  rw [h] at this
  exact this

/-- A word of the notation with the value it stands for. -/
def literal? : List Char → Option (Json × List Char)
  | 'n' :: 'u' :: 'l' :: 'l' :: rest => some (.null, rest)
  | 't' :: 'r' :: 'u' :: 'e' :: rest => some (.bool true, rest)
  | 'f' :: 'a' :: 'l' :: 's' :: 'e' :: rest => some (.bool false, rest)
  | _ => none

/-- A value that holds no other one. -/
def scalar? : List Char → Option (Json × List Char)
  | [] => none
  | c :: rest =>
    if c = Char.ofNat 0x22 then
      (characters? rest).map fun r => (.text (String.ofList r.1), r.2)
    else if c = '-' ∨ c.isDigit then do
      let (n, rest) ← numeral? (c :: rest)
      return (← n.value?, rest)
    else literal? (c :: rest)

/-- A word has letters. -/
theorem length_of_literal? {cs rest : List Char} {j : Json} (h : literal? cs = some (j, rest)) :
    rest.length < cs.length := by
  unfold literal? at h
  split at h <;> simp_all <;> omega

/-- A scalar has characters. -/
theorem length_of_scalar? {cs rest : List Char} {j : Json} (h : scalar? cs = some (j, rest)) :
    rest.length < cs.length := by
  unfold scalar? at h
  split at h
  · simp at h
  · split at h
    · obtain ⟨⟨t, r⟩, hr, h⟩ := Option.map_eq_some_iff.1 h
      have := length_of_characters? hr
      simp only [Prod.mk.injEq] at h
      obtain ⟨_, rfl⟩ := h
      simp only [List.length_cons]
      omega
    · split at h
      · obtain ⟨⟨n, r⟩, hr, h⟩ := Option.bind_eq_some_iff.1 h
        obtain ⟨v, hv, h⟩ := Option.bind_eq_some_iff.1 h
        simp at h
        obtain ⟨_, rfl⟩ := h
        exact length_of_numeral? hr
      · exact length_of_literal? h

end ContextualQuery.Json
