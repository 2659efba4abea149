import ContextualQuery.Json.Basic
/-!
# Writing JSON texts

Values are written on one line without blanks, or over several lines with two blanks per level.
Texts escape the quote, the backslash and control characters only.
-/

namespace ContextualQuery.Json

/-- A character inside a text. -/
def writeChar (c : Char) : List Char :=
  if c = Char.ofNat 0x22 ∨ c = '\\' then ['\\', c]
  else if c = '\x08' then ['\\', 'b']
  else if c = '\x0c' then ['\\', 'f']
  else if c = '\n' then ['\\', 'n']
  else if c = '\r' then ['\\', 'r']
  else if c = '\t' then ['\\', 't']
  else if c.toNat < 0x20 then
    ['\\', 'u', '0', '0', Nat.digitChar (c.toNat / 16), Nat.digitChar (c.toNat % 16)]
  else [c]

/-- A text between its quotes. -/
def writeText (s : String) : String :=
  let quote := Char.ofNat 0x22
  String.ofList (quote :: s.toList.flatMap writeChar ++ [quote])

/-- A value without parts. -/
def writeScalar : Json → String
  | .null => "null"
  | .bool true => "true"
  | .bool false => "false"
  | .integer n => toString n
  | .double x => x.write dataLayout
  | .text s => writeText s
  | .array _ | .object _ => ""

mutual

/-- A value on one line. -/
def write : Json → String
  | .array items => "[" ++ writeItems items ++ "]"
  | .object members => "\x7b" ++ writeMembers members ++ "\x7d"
  | scalar => writeScalar scalar

/-- Items with commas between them. -/
def writeItems : List Json → String
  | [] => ""
  | [j] => write j
  | j :: rest => write j ++ "," ++ writeItems rest

/-- Members with commas between them. -/
def writeMembers : List (String × Json) → String
  | [] => ""
  | [(name, j)] => writeText name ++ ":" ++ write j
  | (name, j) :: rest => writeText name ++ ":" ++ write j ++ "," ++ writeMembers rest

end

/-- A new line, indented. -/
def newLine (level : Nat) : String := "\n" ++ String.ofList (List.replicate (2 * level) ' ')

mutual

/-- A value over several lines, starting at an indentation. Empty arrays and objects stay on theirs. -/
def writeLines (level : Nat) : Json → String
  | .array [] => "[]"
  | .array items =>
    "[" ++ writeItemLines (level + 1) items ++ newLine level ++ "]"
  | .object [] => "\x7b\x7d"
  | .object members =>
    "\x7b" ++ writeMemberLines (level + 1) members ++ newLine level ++ "\x7d"
  | scalar => writeScalar scalar

/-- Items on lines of their own. -/
def writeItemLines (level : Nat) : List Json → String
  | [] => ""
  | [j] => newLine level ++ writeLines level j
  | j :: rest => newLine level ++ writeLines level j ++ "," ++ writeItemLines level rest

/-- Members on lines of their own. -/
def writeMemberLines (level : Nat) : List (String × Json) → String
  | [] => ""
  | [(name, j)] => newLine level ++ writeText name ++ ": " ++ writeLines level j
  | (name, j) :: rest =>
    newLine level ++ writeText name ++ ": " ++ writeLines level j ++ ","
      ++ writeMemberLines level rest

end

/-- A value over several lines. -/
def pretty (j : Json) : String := writeLines 0 j

end ContextualQuery.Json
