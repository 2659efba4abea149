/-!
# Universally unique identifiers

Sixteen bytes, written as 32 hexadecimal digits in five groups. They are read with or without the
hyphens between the groups; with them also between braces or after the name of their namespace, in letters of
either case.
-/

namespace ContextualQuery

/-- An identifier of sixteen bytes. -/
structure Uuid where
  bytes : List UInt8
  size : bytes.length = 16
  deriving DecidableEq, Repr

namespace Uuid

/-- The identifier of a list of bytes, if there are sixteen. -/
def ofBytes? (bytes : List UInt8) : Option Uuid :=
  if h : bytes.length = 16 then some ⟨bytes, h⟩ else none

/-- The number that the bytes spell, the first byte weighing most. -/
def rank (u : Uuid) : Nat := u.bytes.foldl (fun n b => 256 * n + b.toNat) 0

/-! ## 1. Writing -/

/-- A byte as two hexadecimal digits. -/
def writeByte (b : UInt8) : List Char :=
  [Nat.digitChar (b.toNat / 16), Nat.digitChar (b.toNat % 16)]

/-- Bytes as hexadecimal digits. -/
def writeBytes (bytes : List UInt8) : List Char := bytes.flatMap writeByte

/-- The five groups with hyphens between them. -/
def write (u : Uuid) : String :=
  let group (first count : Nat) := writeBytes ((u.bytes.drop first).take count)
  String.ofList (group 0 4 ++ '-' :: group 4 2 ++ '-' :: group 6 2 ++ '-' :: group 8 2 ++ '-'
    :: group 10 6)

/-! ## 2. Reading -/

/-- The value of a hexadecimal digit of either case. -/
def digitValue? (c : Char) : Option Nat :=
  if '0' ≤ c ∧ c ≤ '9' then some (c.toNat - 48)
  else if 'a' ≤ c ∧ c ≤ 'f' then some (c.toNat - 87)
  else if 'A' ≤ c ∧ c ≤ 'F' then some (c.toNat - 55)
  else none

/-- Pairs of digits as bytes. -/
def readBytes? : List Char → Option (List UInt8)
  | [] => some []
  | a :: b :: rest => do
    let high ← digitValue? a
    let low ← digitValue? b
    let bytes ← readBytes? rest
    return UInt8.ofNat (16 * high + low) :: bytes
  | [_] => none

/-- 32 digits. -/
def readPlain? (cs : List Char) : Option Uuid := readBytes? cs >>= ofBytes?

/-- Five groups with hyphens between them. -/
def readGroups? (cs : List Char) : Option Uuid :=
  let hyphens := [8, 13, 18, 23]
  if hyphens.all fun i => cs[i]? == some '-' then
    readPlain? (cs.take 8 ++ (cs.drop 9).take 4 ++ (cs.drop 14).take 4 ++ (cs.drop 19).take 4
      ++ cs.drop 24)
  else none

/-- The name of the namespace of identifiers. -/
def namespacePrefix : List Char := ['u', 'r', 'n', ':', 'u', 'u', 'i', 'd', ':']

/-- Reads an identifier in one of its four forms, told apart by their lengths. -/
def read? (cs : List Char) : Option Uuid :=
  if cs.length = 32 then readPlain? cs
  else if cs.length = 36 then readGroups? cs
  else if cs.length = 38 then
    if cs.head? = some '\x7b' ∧ cs.getLast? = some '\x7d' then readGroups? (cs.tail.dropLast) else none
  else if cs.length = 45 then
    if (cs.take 9).map Char.toLower = namespacePrefix then readGroups? (cs.drop 9) else none
  else none

end Uuid

end ContextualQuery
