import ContextualQuery.Predicate.Basic
/-!
# Predicates in writing

`Predicate.describe` shows a predicate on one line; `Predicate.toJson` writes it as JSON, which
`Predicate.ofJson?` reads back, and likewise for sort keys and selections.
-/

namespace ContextualQuery

/-! ## 1. The fixed words -/

/-- The word between the parts. -/
def Connective.word : Connective → String
  | .and => "AND"
  | .or => "OR"
  | .not => "NOT"

/-- The name of the connective in data. -/
def Connective.name : Connective → String
  | .and => "and"
  | .or => "or"
  | .not => "not"

/-- All connectives by name. -/
def Connective.byName : List (String × Connective) :=
  [Connective.and, .or, .not].map fun c => (c.name, c)

/-- The symbol of a comparison. -/
def Comparator.symbol : Comparator → String
  | .eq => "="
  | .ne => "<>"
  | .lt => "<"
  | .le => "<="
  | .gt => ">"
  | .ge => ">="

/-- The name of the comparison in data. -/
def Comparator.name : Comparator → String
  | .eq => "eq"
  | .ne => "ne"
  | .lt => "lt"
  | .le => "le"
  | .gt => "gt"
  | .ge => "ge"

/-- All comparisons by name. -/
def Comparator.byName : List (String × Comparator) :=
  [Comparator.eq, .ne, .lt, .le, .gt, .ge].map fun c => (c.name, c)

/-- The mark of the mode before the operand. -/
def MatchMode.mark : MatchMode → String
  | .exact => ""
  | .contains => "~"
  | .pattern => "like "

/-- The name of the mode in data. -/
def MatchMode.name : MatchMode → String
  | .exact => "exact"
  | .contains => "contains"
  | .pattern => "pattern"

/-- All modes by name. -/
def MatchMode.byName : List (String × MatchMode) :=
  [MatchMode.exact, .contains, .pattern].map fun m => (m.name, m)

/-- The name of the direction in data. -/
def Direction.name : Direction → String
  | .ascending => "ascending"
  | .descending => "descending"

/-- Both directions by name. -/
def Direction.byName : List (String × Direction) :=
  [Direction.ascending, .descending].map fun d => (d.name, d)

/-! ## 2. For readers -/

/-- A comparison: path, symbol, `/i` if case does not matter, the mark of the mode, and the value. -/
def Comparison.describe (c : Comparison) : String :=
  c.path.dotted ++ " " ++ c.comparator.symbol ++ (if c.operand.isCaseSensitive then "" else "/i")
    ++ c.operand.mode.mark ++ " " ++ c.operand.value.show

namespace Predicate

mutual

/-- The predicate on one line. -/
def describe : Predicate → String
  | matchAll => "TRUE"
  | compare c => c.describe
  | boolean .not children => "NOT (" ++ describeParts "" children ++ ")"
  | boolean .and children => "(" ++ describeParts " AND " children ++ ")"
  | boolean .or children => "(" ++ describeParts " OR " children ++ ")"

/-- Several predicates with a word between them. -/
def describeParts (between : String) : List Predicate → String
  | [] => ""
  | [p] => describe p
  | p :: rest => describe p ++ between ++ describeParts between rest

end

end Predicate

/-! ## 3. As JSON -/

namespace Operand

/-- The operand as JSON. -/
def toJson (o : Operand) : Json :=
  .object [("case_sensitive", .bool o.isCaseSensitive), ("mode", .text o.mode.name),
    ("value", o.value.toJson)]

/-- Reads an operand. -/
def ofJson? (j : Json) : Option Operand := do
  let [value, mode, isCaseSensitive] ← j.fields? ["value", "mode", "case_sensitive"] | none
  return {
    value := ← Json.required? Value.ofJson? value
    mode := ← Json.required? (Json.named? MatchMode.byName) mode
    isCaseSensitive := ← Json.required? Json.bool? isCaseSensitive }

end Operand

/-- Reads a comparison. -/
def Comparison.ofJson? (j : Json) : Option Comparison := do
  let [path, comparator, operand] ← j.fields? ["path", "op", "value"] | none
  return {
    path := ← Json.required? Path.ofJson? path
    comparator := ← Json.required? (Json.named? Comparator.byName) comparator
    operand := ← Json.required? Operand.ofJson? operand }

namespace Predicate

mutual

/-- The predicate as JSON. -/
def toJson : Predicate → Json
  | matchAll => .object [("node", .text "match_all")]
  | boolean op children =>
    .object [("children", .array (toJsonItems children)), ("node", .text "boolean"),
      ("op", .text op.name)]
  | compare c =>
    .object [("node", .text "compare"), ("op", .text c.comparator.name), ("path", c.path.toJson),
      ("value", c.operand.toJson)]

/-- Several predicates as JSON. -/
def toJsonItems : List Predicate → List Json
  | [] => []
  | p :: rest => toJson p :: toJsonItems rest

end

/-- Reads a predicate whose children have been read. -/
def ofParts? (j : Json) (children : Option (List Predicate)) : Option Predicate := do
  let (node, rest) ← j.tagged? "node"
  match node with
  | "match_all" => return matchAll
  | "boolean" =>
    let [op, _] ← rest.fields? ["op", "children"] | none
    return boolean (← Json.required? (Json.named? Connective.byName) op) (← children)
  | "compare" => return compare (← Comparison.ofJson? rest)
  | _ => none

mutual

/-- Reads a predicate. -/
def ofJson? : Json → Option Predicate
  | .object members => ofParts? (.object members) (childrenOf? members)
  | .array [node, op, .array items] => ofParts? (.array [node, op, .array items]) (ofItems? items)
  | j => ofParts? j none

/-- The predicates below the first member called `children`. -/
def childrenOf? : List (String × Json) → Option (List Predicate)
  | [] => none
  | (name, .array items) :: rest => if name = "children" then ofItems? items else childrenOf? rest
  | (name, _) :: rest => if name = "children" then none else childrenOf? rest

/-- Reads several predicates. -/
def ofItems? : List Json → Option (List Predicate)
  | [] => some []
  | j :: rest =>
    match ofJson? j with
    | none => none
    | some p => (ofItems? rest).map (p :: ·)

end

end Predicate

namespace SortKey

/-- The key as JSON. -/
def toJson (k : SortKey) : Json :=
  .object [("direction", .text k.direction.name), ("path", k.path.toJson)]

/-- Reads a key. -/
def ofJson? (j : Json) : Option SortKey := do
  let [path, direction] ← j.fields? ["path", "direction"] | none
  return {
    path := ← Json.required? Path.ofJson? path
    direction := ← Json.required? (Json.named? Direction.byName) direction }

end SortKey

namespace Selection

/-- The selection as JSON. -/
def toJson (s : Selection) : Json :=
  .object [("predicate", s.predicate.toJson), ("sort", .array (s.sort.map SortKey.toJson))]

/-- Reads a selection. -/
def ofJson? (j : Json) : Option Selection := do
  let [predicate, sort] ← j.fields? ["predicate", "sort"] | none
  return {
    predicate := ← Json.required? Predicate.ofJson? predicate
    sort := ← Json.required? (Json.list? SortKey.ofJson?) sort }

end Selection

end ContextualQuery
