/-!
# Binary floating point numbers, as bit patterns

A number is its bit pattern, so that signs of zero and kinds of NaN stay apart, and every operation
is exact arithmetic on natural numbers followed by one rounding. The file fixes

* `BinaryFormat`, the layout of a magnitude (a pattern without its sign bit),
* `BinaryFormat.split`, which reads a finite magnitude as `m * 2 ^ q`,
* `BinaryFormat.round`, the nearest magnitude to a fraction, ties to the even one,
* `Double` and `Single`, their two orders, and the conversions between them.
-/

namespace ContextualQuery

/-! ## 1. Magnitudes -/

/-- A binary interchange format: the width of the fraction and of the exponent field. -/
structure BinaryFormat where
  fractionBits : Nat
  exponentBits : Nat

namespace BinaryFormat

/-- The format of 64 bits. -/
def double : BinaryFormat := ⟨52, 11⟩

/-- The format of 32 bits. -/
def single : BinaryFormat := ⟨23, 8⟩

variable (f : BinaryFormat)

/-- The exponent of the last bit of a subnormal number. -/
def leastExponent : Int := 2 - Nat.pow 2 (f.exponentBits - 1) - f.fractionBits

/-- The magnitude of infinity; above it lie the NaNs. -/
def infinity : Nat := (Nat.pow 2 f.exponentBits - 1) * Nat.pow 2 f.fractionBits

/-- The integer `m` and the exponent `q` for which a finite magnitude is `m * 2 ^ q`. -/
def split (magnitude : Nat) : Nat × Int :=
  let field := magnitude / Nat.pow 2 f.fractionBits
  let fraction := magnitude % Nat.pow 2 f.fractionBits
  if field = 0 then (fraction, f.leastExponent)
  else (Nat.pow 2 f.fractionBits + fraction, f.leastExponent + (field - 1 : Nat))

/-- A finite magnitude as a numerator and a denominator. -/
def fraction (magnitude : Nat) : Nat × Nat :=
  let (m, q) := f.split magnitude
  if 0 ≤ q then (m * Nat.pow 2 q.toNat, 1) else (m, Nat.pow 2 (-q).toNat)

/-- The magnitude of `m` steps of the grid `2 ^ (leastExponent + step)`, where `m` fills the
significand or `step` is zero; what does not fit is infinity. -/
def join (m step : Nat) : Nat := min (step * Nat.pow 2 f.fractionBits + m) f.infinity

end BinaryFormat

/-- The integer nearest to a fraction; a half goes to the even neighbour. -/
def roundHalfEven (numerator denominator : Nat) : Nat :=
  let q := numerator / denominator
  let r := numerator % denominator
  if 2 * r < denominator then q
  else if denominator < 2 * r then q + 1
  else q + q % 2

/-- The greatest exponent `e` with `2 ^ e` at most the fraction. -/
def floorLog2 (numerator denominator : Nat) : Int :=
  let e : Int := (numerator.log2 : Int) - denominator.log2
  let reached :=
    if 0 ≤ e then denominator * Nat.pow 2 e.toNat ≤ numerator
    else denominator ≤ numerator * Nat.pow 2 (-e).toNat
  if reached then e else e - 1

/-- The magnitude nearest to a fraction: it is rounded on the grid whose steps fill the
significand, or on the finest grid if the fraction is too small for that. -/
def BinaryFormat.round (f : BinaryFormat) (numerator denominator : Nat) : Nat :=
  if numerator = 0 then 0
  else
    let step := (floorLog2 numerator denominator - f.fractionBits - f.leastExponent).toNat
    let q : Int := f.leastExponent + step
    let m := if 0 ≤ q then roundHalfEven numerator (denominator * Nat.pow 2 q.toNat)
      else roundHalfEven (numerator * Nat.pow 2 (-q).toNat) denominator
    f.join m step

/-- The magnitude nearest to `digits * 10 ^ exponent`. Powers of ten far outside the formats are
not built: they round to zero or to infinity. -/
def BinaryFormat.roundDecimal (f : BinaryFormat) (digits : Nat) (exponent : Int) : Nat :=
  if digits = 0 then 0
  else
    let top : Int := (Nat.toDigits 10 digits).length + exponent
    if top < -400 then 0
    else if 400 < top then f.infinity
    else if 0 ≤ exponent then f.round (digits * Nat.pow 10 exponent.toNat) 1
    else f.round digits (Nat.pow 10 (-exponent).toNat)

/-! ## 2. Numbers with a sign -/

/-- A number of 64 bits. -/
structure Double where
  bits : UInt64
  deriving DecidableEq, Repr

/-- A number of 32 bits. -/
structure Single where
  bits : UInt32
  deriving DecidableEq, Repr

namespace Double

/-- The value of the sign bit. -/
def signBit : Nat := 0x8000000000000000

/-- Whether the sign bit is set. -/
def isNegative (x : Double) : Bool := signBit ≤ x.bits.toNat

/-- The pattern without its sign bit. -/
def magnitude (x : Double) : Nat := x.bits.toNat % signBit

/-- The number with a sign and a magnitude. -/
def ofMagnitude (negative : Bool) (magnitude : Nat) : Double :=
  ⟨UInt64.ofNat (magnitude + if negative then signBit else 0)⟩

/-- Neither infinite nor a NaN. -/
def isFinite (x : Double) : Bool := x.magnitude < BinaryFormat.double.infinity

/-- Not a number. -/
def isNaN (x : Double) : Bool := BinaryFormat.double.infinity < x.magnitude

/-- The integer in which numbers are ordered; both zeros are 0. -/
def rank (x : Double) : Int := if x.isNegative then -(x.magnitude : Int) else x.magnitude

/-- The numeric order. A NaN stands in no order to anything. -/
def partialCompare (x y : Double) : Option Ordering :=
  if x.isNaN || y.isNaN then none else some (compare x.rank y.rank)

/-- Numeric equality: the zeros are equal, a NaN is not equal to itself. -/
def same (x y : Double) : Bool := x.partialCompare y == some .eq

/-- The integer in which patterns are ordered: negative NaNs, negative numbers, minus zero, zero,
positive numbers, positive NaNs. -/
def totalRank (x : Double) : Int := if x.isNegative then -(x.magnitude : Int) - 1 else x.magnitude

/-- The order of all patterns. -/
def totalCompare (x y : Double) : Ordering := compare x.totalRank y.totalRank

/-- The double nearest to an integer. -/
def ofInt (n : Int) : Double := ofMagnitude (n < 0) (BinaryFormat.double.round n.natAbs 1)

/-- The magnitude of ten to a power. -/
def powerOfTen (exponent : Nat) : Nat := BinaryFormat.double.roundDecimal 1 exponent

/-- A finite number times ten to a power, rounded once. -/
def timesPowerOfTen (x : Double) (exponent : Nat) : Double :=
  let (n, d) := BinaryFormat.double.fraction x.magnitude
  let (p, r) := BinaryFormat.double.fraction (powerOfTen exponent)
  ofMagnitude x.isNegative (BinaryFormat.double.round (n * p) (d * r))

/-- A finite number over ten to a power, rounded once. -/
def overPowerOfTen (x : Double) (exponent : Nat) : Double :=
  let (n, d) := BinaryFormat.double.fraction x.magnitude
  let (p, r) := BinaryFormat.double.fraction (powerOfTen exponent)
  ofMagnitude x.isNegative (BinaryFormat.double.round (n * r) (d * p))

/-- The sign bit turned over. -/
def negate (x : Double) : Double := ofMagnitude (!x.isNegative) x.magnitude

end Double

namespace Single

/-- The value of the sign bit. -/
def signBit : Nat := 0x80000000

/-- Whether the sign bit is set. -/
def isNegative (x : Single) : Bool := signBit ≤ x.bits.toNat

/-- The pattern without its sign bit. -/
def magnitude (x : Single) : Nat := x.bits.toNat % signBit

/-- The number with a sign and a magnitude. -/
def ofMagnitude (negative : Bool) (magnitude : Nat) : Single :=
  ⟨UInt32.ofNat (magnitude + if negative then signBit else 0)⟩

/-- Neither infinite nor a NaN. -/
def isFinite (x : Single) : Bool := x.magnitude < BinaryFormat.single.infinity

/-- The single nearest to an integer. -/
def ofInt (n : Int) : Single := ofMagnitude (n < 0) (BinaryFormat.single.round n.natAbs 1)

/-- The same number with more digits. A NaN keeps its payload at the upper end and becomes quiet. -/
def toDouble (x : Single) : Double :=
  let m := x.magnitude
  let wide := BinaryFormat.double.infinity
  let narrow := BinaryFormat.single.infinity
  Double.ofMagnitude x.isNegative <|
    if m < narrow then
      let (n, d) := BinaryFormat.single.fraction m
      BinaryFormat.double.round n d
    else if m = narrow then wide
    else wide + (0x8000000000000 + (m - narrow) % 0x400000 * 0x20000000)

end Single

/-- The single nearest to a double. A NaN keeps the upper part of its payload and becomes quiet. -/
def Double.toSingle (x : Double) : Single :=
  let m := x.magnitude
  let wide := BinaryFormat.double.infinity
  let narrow := BinaryFormat.single.infinity
  Single.ofMagnitude x.isNegative <|
    if m < wide then
      let (n, d) := BinaryFormat.double.fraction m
      BinaryFormat.single.round n d
    else if m = wide then narrow
    else narrow + (0x400000 + (m - wide) / 0x20000000 % 0x400000)

end ContextualQuery
