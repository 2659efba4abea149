import ContextualQuery.Number.Binary
/-!
# Decimal texts of numbers

A finite number is written with the fewest decimal digits that read back as the same number, and
with those of them that lie nearest to it. Which of two equally near decimals is taken, where the point
stands and when an exponent is written is up to a `DecimalLayout`; the two layouts of the library are
`exactLayout` and `dataLayout`.
-/

namespace ContextualQuery

/-! ## 1. Shortest digits -/

/-- The reals that round to a positive magnitude: the value and both ends of the interval in
quarters of its last bit, and whether the ends belong to it. -/
structure RoundingInterval where
  low : Nat
  value : Nat
  high : Nat
  closed : Bool

/-- The interval of a positive finite magnitude. Below a power of two the grid is twice as fine. -/
def BinaryFormat.interval (f : BinaryFormat) (magnitude : Nat) : RoundingInterval :=
  let m := (f.split magnitude).1
  let atPower := m == Nat.pow 2 f.fractionBits && Nat.pow 2 (f.fractionBits + 1) ≤ magnitude
  ⟨4 * m - (if atPower then 1 else 2), 4 * m, 4 * m + 2, m % 2 == 0⟩

/-- The greatest `e` with `10 ^ e` at most the fraction. -/
def floorLog10 (numerator denominator : Nat) : Int :=
  let e : Int := ((Nat.toDigits 10 numerator).length : Int) - (Nat.toDigits 10 denominator).length
  let reached :=
    if 0 ≤ e then denominator * Nat.pow 10 e.toNat ≤ numerator
    else denominator ≤ numerator * Nat.pow 10 (-e).toNat
  if reached then e else e - 1

/-- Which neighbour on a grid is taken for a value that lies halfway between two of them. -/
inductive TieRule
  | up
  | even
  deriving DecidableEq, Repr

/-- Whether the lower neighbour is taken for such a value. -/
def TieRule.takesLower : TieRule → (lower : Nat) → Bool
  | up, _ => false
  | even, lower => lower % 2 == 0

/-- The multiple of `10 ^ exponent` nearest to the value among its two neighbours on that grid,
if it lies in the interval. `scale` is the quarter bit as a fraction. -/
def RoundingInterval.onGrid? (i : RoundingInterval) (tie : TieRule) (scale : Nat × Nat)
    (exponent : Int) : Option Nat :=
  -- on the grid, a point `d` is `d * unit / scale.1` quarter bits
  let top := if 0 ≤ exponent then scale.1 else scale.1 * Nat.pow 10 (-exponent).toNat
  let unit := if 0 ≤ exponent then scale.2 * Nat.pow 10 exponent.toNat else scale.2
  let below := i.value * top / unit
  let inside (d : Nat) : Bool :=
    if i.closed then i.low * top ≤ d * unit && d * unit ≤ i.high * top
    else i.low * top < d * unit && d * unit < i.high * top
  let twiceAbove := 2 * (i.value * top - below * unit)
  let takesBelow : Bool := twiceAbove < unit || (twiceAbove == unit && tie.takesLower below)
  match inside below, inside (below + 1) with
  | true, true => some (if takesBelow then below else below + 1)
  | true, false => some below
  | false, true => some (below + 1)
  | false, false => none

/-- Tries one digit more at a time, `fuel` times. -/
def RoundingInterval.search (i : RoundingInterval) (tie : TieRule) (scale : Nat × Nat) :
    (fuel : Nat) → (exponent : Int) → Nat × Int
  | 0, exponent => (i.value * scale.1 / scale.2, exponent)
  | fuel + 1, exponent =>
    match i.onGrid? tie scale exponent with
    | some digits => (digits, exponent)
    | none => i.search tie scale fuel (exponent - 1)

/-- Moves the zeros at the end of the digits into the exponent. -/
def stripZeros : (fuel : Nat) → Nat × Int → Nat × Int
  | 0, p => p
  | fuel + 1, (digits, exponent) =>
    if digits ≠ 0 ∧ digits % 10 = 0 then stripZeros fuel (digits / 10, exponent + 1)
    else (digits, exponent)

/-- The shortest decimal of a positive finite magnitude: digits and the power of ten of the last
one. Seventeen digits are enough for every format of at most 64 bits. -/
def BinaryFormat.shortest (f : BinaryFormat) (tie : TieRule) (magnitude : Nat) : Nat × Int :=
  let q := (f.split magnitude).2 - 2
  let scale : Nat × Nat := if 0 ≤ q then (Nat.pow 2 q.toNat, 1) else (1, Nat.pow 2 (-q).toNat)
  let i := f.interval magnitude
  stripZeros 20 (i.search tie scale 18 (floorLog10 (i.value * scale.1) scale.2))

/-! ## 2. Layout -/

/-- How the digits are chosen and set: what becomes of ties, the powers of ten of the leading digit that
are written without an exponent (`least ≤ p < limit`), and whether a positive exponent carries a plus
sign. -/
structure DecimalLayout where
  tie : TieRule
  least : Int
  limit : Int
  plus : Bool

/-- Values shown between the marks of their type: ties go up, and there is an exponent below 1e-4 and from
1e16 on. -/
def exactLayout : DecimalLayout := ⟨.up, -4, 16, false⟩

/-- Values written as data: ties go to the even digit, and there is an exponent below 1e-5 and from 1e16 on,
with its sign. -/
def dataLayout : DecimalLayout := ⟨.even, -5, 16, true⟩

/-- The decimal digits of a number, as characters. -/
def decimalDigits (n : Nat) : List Char := Nat.toDigits 10 n

/-- The digits with a point after the first, and the exponent. -/
def DecimalLayout.scientific (l : DecimalLayout) (digits : List Char) (power : Int) : List Char :=
  let point := match digits with
    | [] => []
    | [d] => [d]
    | d :: rest => d :: '.' :: rest
  let sign := if power < 0 then ['-'] else if l.plus then ['+'] else []
  point ++ 'e' :: sign ++ decimalDigits power.natAbs

/-- The digits with the point at its place; a whole number ends in `.0`. -/
def positional (digits : List Char) (exponent power : Int) : List Char :=
  if 0 ≤ exponent then digits ++ List.replicate exponent.toNat '0' ++ ['.', '0']
  else if 0 ≤ power then
    digits.take (power.toNat + 1) ++ '.' :: digits.drop (power.toNat + 1)
  else '0' :: '.' :: List.replicate (-power - 1).toNat '0' ++ digits

/-- A magnitude in a layout. -/
def DecimalLayout.write (l : DecimalLayout) (f : BinaryFormat) (magnitude : Nat) : List Char :=
  if magnitude = 0 then ['0', '.', '0']
  else
    let (n, exponent) := f.shortest l.tie magnitude
    let digits := decimalDigits n
    let power := exponent + digits.length - 1
    if l.least ≤ power && power < l.limit then positional digits exponent power
    else l.scientific digits power

/-- A sign before a text. -/
def signed (negative : Bool) (text : List Char) : List Char := if negative then '-' :: text else text

/-- A magnitude with its sign; infinities and NaNs are named. -/
def DecimalLayout.writeSigned (l : DecimalLayout) (f : BinaryFormat) (negative : Bool)
    (magnitude : Nat) : String :=
  if f.infinity < magnitude then "NaN"
  else String.ofList (signed negative
    (if magnitude = f.infinity then ['i', 'n', 'f'] else l.write f magnitude))

/-- The text of a double in a layout. -/
def Double.write (l : DecimalLayout) (x : Double) : String :=
  l.writeSigned .double x.isNegative x.magnitude

/-- The text of a single in a layout. -/
def Single.write (l : DecimalLayout) (x : Single) : String :=
  l.writeSigned .single x.isNegative x.magnitude

/-! ## 3. Reading -/

/-- The parts of a decimal as it is written. -/
structure DecimalText where
  negative : Bool
  whole : List Char
  fraction : List Char
  exponent : Int

/-- The number that a list of decimal digits spells. -/
def digitsValue (digits : List Char) : Nat :=
  digits.foldl (fun n d => 10 * n + (d.toNat - '0'.toNat)) 0

/-- An exponent after its letter: an optional sign and at least one digit, and nothing more. -/
def readExponent? (cs : List Char) : Option Int :=
  let (negative, digits) := match cs with
    | '-' :: rest => (true, rest)
    | '+' :: rest => (false, rest)
    | _ => (false, cs)
  if digits.isEmpty || !digits.all Char.isDigit then none
  else some (if negative then -(digitsValue digits : Int) else digitsValue digits)

/-- A decimal: an optional sign, digits with an optional point among or around them, and an optional
exponent. The names of infinities and NaNs are not decimals. -/
def readDecimal? (cs : List Char) : Option DecimalText := do
  let (negative, body) := match cs with
    | '-' :: rest => (true, rest)
    | '+' :: rest => (false, rest)
    | _ => (false, cs)
  let whole := body.takeWhile Char.isDigit
  let afterWhole := body.dropWhile Char.isDigit
  let (fraction, rest) := match afterWhole with
    | '.' :: more => (more.takeWhile Char.isDigit, more.dropWhile Char.isDigit)
    | _ => ([], afterWhole)
  if whole.isEmpty && fraction.isEmpty then none
  match rest with
  | [] => some ⟨negative, whole, fraction, 0⟩
  | e :: more =>
    if e = 'e' ∨ e = 'E' then (readExponent? more).map fun x => ⟨negative, whole, fraction, x⟩
    else none

/-- The magnitude nearest to a decimal. -/
def DecimalText.round (t : DecimalText) (f : BinaryFormat) : Nat :=
  f.roundDecimal (digitsValue (t.whole ++ t.fraction)) (t.exponent - t.fraction.length)

/-- Reads a finite double. -/
def Double.read? (cs : List Char) : Option Double := do
  let t ← readDecimal? cs
  let x := Double.ofMagnitude t.negative (t.round .double)
  if x.isFinite then some x else none

/-- Reads a finite single, rounding the decimal once. -/
def Single.read? (cs : List Char) : Option Single := do
  let t ← readDecimal? cs
  let x := Single.ofMagnitude t.negative (t.round .single)
  if x.isFinite then some x else none

end ContextualQuery
