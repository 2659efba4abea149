import ContextualQuery.CommandLine.Options
import ContextualQuery.Json.Writing
import ContextualQuery.Plan.Basic
import ContextualQuery.Predicate.Notation
import ContextualQuery.Record.Basic
/-!
# Reports

What the command writes about plans, pages and numbers of rows: as text with a predicate drawn as a tree, or
as JSON.
-/

namespace ContextualQuery.CommandLine

/-! ## 1. Texts -/

namespace TextReport

/-- A line at a depth of the tree. -/
def line (depth : Nat) (text : String) : String :=
  String.ofList (List.replicate (2 * depth) ' ') ++ text ++ "\n"

/-- How a text is compared. Of values that are no texts there is nothing to say. -/
def describeMatch (o : Operand) : String :=
  if o.value.text?.isNone then ""
  else " [" ++ o.mode.name ++ ", " ++ (if o.isCaseSensitive then "respect case" else "ignore case") ++ "]"

/-- A comparison. -/
def comparison (c : Comparison) : String :=
  c.path.dotted ++ " " ++ c.comparator.symbol ++ " " ++ c.operand.value.plain.write
    ++ describeMatch c.operand

mutual

/-- A predicate as a tree, from a depth on. -/
def tree (depth : Nat) : Predicate → String
  | .matchAll => line depth "match all"
  | .compare c => line depth (comparison c)
  | .boolean op children => line depth op.name ++ trees (depth + 1) children

/-- Several predicates, one below the other. -/
def trees (depth : Nat) : List Predicate → String
  | [] => ""
  | p :: rest => tree depth p ++ trees depth rest

end

/-- Sort keys with their numbers. -/
def sortKeys (first : Nat) : List SortKey → String
  | [] => ""
  | k :: rest =>
    line 1 (toString first ++ ". " ++ k.path.dotted ++ " " ++ k.direction.name)
      ++ sortKeys (first + 1) rest

/-- A plan. -/
def selection (p : Plan) : String :=
  "selection:\n" ++ tree 1 p.predicate
    ++ if p.sort.isEmpty then "sort: (store order)\n" else "sort:\n" ++ sortKeys 1 p.sort

/-- The condition for counting. -/
def count (p : Predicate) : String := "count:\n" ++ tree 1 p

/-- A page: a line for every row, and which rows these are. -/
def page (p : Page Record) : String :=
  let first := if p.isEmpty then 0 else p.window.offset + 1
  let last := p.window.offset + p.size
  String.join (p.content.map fun r => r.toJson.write ++ "\n")
    ++ "rows " ++ toString first ++ "-" ++ toString last ++ " of " ++ toString p.total

/-- A number of rows. -/
def total (n : Nat) : String := toString n ++ " row(s)"

end TextReport

/-! ## 2. JSON -/

namespace JsonReport

/-- A plan. -/
def selection (p : Plan) : String := p.selection.toJson.pretty

/-- The condition for counting. -/
def count (p : Predicate) : String := (Json.object [("predicate", p.toJson)]).pretty

/-- A page. -/
def page (p : Page Record) : String :=
  (Json.object [("limit", .integer p.window.limit), ("offset", .integer p.window.offset),
    ("rows", .array (p.content.map Record.toJson)), ("total", .integer p.total)]).pretty

/-- A number of rows. -/
def total (n : Nat) : String := (Json.object [("count", .integer n)]).write

end JsonReport

/-! ## 3. Either -/

/-- The reports of a form. -/
structure Reports where
  selection : Plan → String
  count : Predicate → String
  page : Page Record → String
  total : Nat → String

/-- The reports of a form. -/
def OutputFormat.reports : OutputFormat → Reports
  | .text => ⟨TextReport.selection, TextReport.count, TextReport.page, TextReport.total⟩
  | .json => ⟨JsonReport.selection, JsonReport.count, JsonReport.page, JsonReport.total⟩

/-- Two reports, one below the other. -/
def together (a b : String) : String := a ++ "\n" ++ b

end ContextualQuery.CommandLine
