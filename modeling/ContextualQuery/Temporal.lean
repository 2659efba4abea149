import ContextualQuery.Calendar
import ContextualQuery.Text.Blank
import ContextualQuery.Number.Decimal
/-!
# Texts of dates and instants

An instant is a number of microseconds since the first of January 1970, universal time. It may be
written

* with an offset (`2024-03-01T12:00:00.5+02:00`, `Z` for none), every field at its full width;
* without one, meaning universal time, the date and the time separated by `T` or by blanks; or
* as a bare date, meaning its midnight.

The last two forms are looser: blanks may stand before a number, numbers may be short, and a year
with a sign may have any length. A minute may have a second 60. Of a fraction the first nine digits
count, and of these the first six matter.
-/

namespace ContextualQuery

/-- A reader of the front of a list of characters. -/
abbrev TextReader (α : Type) := List Char → Option (α × List Char)

namespace Temporal

/-! ## 1. Parts -/

/-- Up to `width` digits, but at least one. -/
def digits (width : Nat) (cs : List Char) : Option (List Char × List Char) :=
  let ds := (cs.take width).takeWhile Char.isDigit
  if ds.isEmpty then none else some (ds, cs.drop ds.length)

/-- A number of exactly `width` digits. -/
def fixed (width : Nat) : TextReader Nat := fun cs => do
  let (ds, rest) ← digits width cs
  if ds.length = width then some (digitsValue ds, rest) else none

/-- A number of up to `width` digits after any blanks. -/
def loose (width : Nat) : TextReader Nat := fun cs => do
  let (ds, rest) ← digits width (trimLeft cs)
  return (digitsValue ds, rest)

/-- A year after any blanks: up to four digits, or a sign and any number of digits. -/
def looseYear : TextReader Int := fun cs =>
  match trimLeft cs with
  | '-' :: rest => (digits rest.length rest).map fun r => (-(digitsValue r.1 : Int), r.2)
  | '+' :: rest => (digits rest.length rest).map fun r => ((digitsValue r.1 : Int), r.2)
  | rest => (digits 4 rest).map fun r => ((digitsValue r.1 : Int), r.2)

/-- One given character. -/
def mark (c : Char) : TextReader Unit
  | [] => none
  | d :: rest => if d = c then some ((), rest) else none

/-- The microseconds of a fraction that may follow, with its point. -/
def fraction : TextReader Nat
  | '.' :: rest => do
    let (ds, _) ← digits rest.length rest
    let six := (ds ++ List.replicate 6 '0').take 6
    return (digitsValue six, rest.drop ds.length)
  | cs => some (0, cs)

/-- A time of day: hour, minute, second and microseconds. -/
structure TimeOfDay where
  hour : Nat
  minute : Nat
  second : Nat
  micros : Nat
  deriving DecidableEq, Repr

/-- Whether a clock can show the time; a minute may have a second 60. -/
def TimeOfDay.isValid (t : TimeOfDay) : Bool := t.hour < 24 && t.minute < 60 && t.second ≤ 60

/-- The microseconds since midnight. -/
def TimeOfDay.toMicros (t : TimeOfDay) : Nat :=
  ((t.hour * 60 + t.minute) * 60 + t.second) * 1000000 + t.micros

/-- The microseconds of a day. -/
def dayMicros : Nat := 86400000000

/-- The instant of a date and a time, if both exist. -/
def instant? (d : CivilDate) (t : TimeOfDay) : Option Int :=
  if d.isValid && t.isValid then some (d.toDays * dayMicros + t.toMicros) else none

/-! ## 2. The form with an offset -/

/-- The offset in minutes: `Z`, or a sign, hours and minutes with a colon between them. -/
def offset : TextReader Int := fun cs =>
  match cs with
  | 'Z' :: rest | 'z' :: rest => some (0, rest)
  | sign :: rest => do
    let negative ←
      if sign = '+' then some false
      else if sign = '-' ∨ sign = Char.ofNat 0x2212 then some true
      else none
    let (hours, rest) ← fixed 2 rest
    let (_, rest) ← mark ':' rest
    let (minutes, rest) ← fixed 2 rest
    if hours < 24 ∧ minutes < 60 then
      let total : Int := hours * 60 + minutes
      some (if negative then -total else total, rest)
    else none
  | [] => none

/-- An instant with its offset. -/
def withOffset? (cs : List Char) : Option Int := do
  let (year, rest) ← fixed 4 cs
  let (_, rest) ← mark '-' rest
  let (month, rest) ← fixed 2 rest
  let (_, rest) ← mark '-' rest
  let (day, rest) ← fixed 2 rest
  let rest ← match rest with
    | c :: rest => if c = 'T' ∨ c = 't' ∨ c = ' ' then some rest else none
    | [] => none
  let (hour, rest) ← fixed 2 rest
  let (_, rest) ← mark ':' rest
  let (minute, rest) ← fixed 2 rest
  let (_, rest) ← mark ':' rest
  let (second, rest) ← fixed 2 rest
  let (micros, rest) ← fraction rest
  let (minutes, rest) ← offset rest
  if !rest.isEmpty then none
  let local_ ← instant? ⟨year, month, day⟩ ⟨hour, minute, second, micros⟩
  return local_ - minutes * 60000000

/-! ## 3. The forms without an offset -/

/-- A date in the looser form. -/
def looseDate : TextReader CivilDate := fun cs => do
  let (year, rest) ← looseYear cs
  let (_, rest) ← mark '-' rest
  let (month, rest) ← loose 2 rest
  let (_, rest) ← mark '-' rest
  let (day, rest) ← loose 2 rest
  return (⟨year, month, day⟩, rest)

/-- A time in the looser form. -/
def looseTime : TextReader TimeOfDay := fun cs => do
  let (hour, rest) ← loose 2 cs
  let (_, rest) ← mark ':' rest
  let (minute, rest) ← loose 2 rest
  let (_, rest) ← mark ':' rest
  let (second, rest) ← loose 2 rest
  let (micros, rest) ← fraction rest
  return (⟨hour, minute, second, micros⟩, rest)

/-- An instant without offset; `separator` takes what stands between the date and the time. -/
def withoutOffset? (separator : TextReader Unit) (cs : List Char) : Option Int := do
  let (date, rest) ← looseDate cs
  let (_, rest) ← separator rest
  let (time, rest) ← looseTime rest
  if rest.isEmpty then instant? date time else none

/-- Any number of blanks. -/
def blanks : TextReader Unit := fun cs => some ((), trimLeft cs)

/-- A whole text that is a date. -/
def date? (cs : List Char) : Option CivilDate := do
  let (date, rest) ← looseDate cs
  if rest.isEmpty && date.isValid then some date else none

end Temporal

/-! ## 4. Reading -/

/-- Reads an instant in any of its forms. -/
def readInstant? (cs : List Char) : Option Int :=
  Temporal.withOffset? cs
    <|> Temporal.withoutOffset? (Temporal.mark 'T') cs
    <|> Temporal.withoutOffset? Temporal.blanks cs
    <|> (Temporal.date? cs).map fun d => d.toDays * (Temporal.dayMicros : Int)

/-- Reads a date as its day number. -/
def readDays? (cs : List Char) : Option Int := (Temporal.date? cs).map CivilDate.toDays

/-! ## 5. Writing -/

/-- A number filled up with zeros on the left. -/
def padded (width n : Nat) : List Char :=
  let ds := decimalDigits n
  List.replicate (width - ds.length) '0' ++ ds

/-- A year: four digits, or from five digits on and before the year 0 with a sign. -/
def writeYear (year : Int) : List Char :=
  if 0 ≤ year ∧ year ≤ 9999 then padded 4 year.toNat
  else (if year < 0 then '-' else '+') :: padded 4 year.natAbs

/-- A date as year, month and day. -/
def CivilDate.write (d : CivilDate) : List Char :=
  writeYear d.year ++ '-' :: padded 2 d.month ++ '-' :: padded 2 d.day

/-- The date of a day number, if the calendar holds it. -/
def writeDays? (days : Int) : Option String :=
  (CivilDate.ofDays? days).map fun d => String.ofList d.write

/-- A fraction of a second: none, three digits, or six. -/
def writeFraction (micros : Nat) : List Char :=
  if micros = 0 then []
  else if micros % 1000 = 0 then '.' :: padded 3 (micros / 1000)
  else '.' :: padded 6 micros

/-- The instant with offset zero, if the calendar holds its day. -/
def writeInstant? (micros : Int) : Option String :=
  (CivilDate.ofDays? (micros / Temporal.dayMicros)).map fun d =>
    let t := (micros % Temporal.dayMicros).toNat
    let seconds := t / 1000000
    String.ofList (d.write ++ 'T' :: padded 2 (seconds / 3600) ++ ':' :: padded 2 (seconds / 60 % 60)
      ++ ':' :: padded 2 (seconds % 60) ++ writeFraction (t % 1000000) ++ ['+', '0', '0', ':', '0', '0'])

end ContextualQuery
