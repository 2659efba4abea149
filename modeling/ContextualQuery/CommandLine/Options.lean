import ContextualQuery.CommandLine.Arguments
import ContextualQuery.Page
import ContextualQuery.Plan.Operand
/-!
# Options of the command

The values that options may have, and what the command is asked to do: to answer a query, or an inquiry about
itself. The values are read before it is known whether a query is to be answered, so a `Draft` of the options
is made first, in which those that have to be given may still be missing.
-/

namespace ContextualQuery.CommandLine

/-! ## 1. Values -/

/-- What is produced: the rows or the plan of a query, their number or the condition for it, or both. -/
inductive Mode
  | selection
  | count
  | both
  deriving DecidableEq, Repr

namespace Mode

/-- The name of the mode. -/
def name : Mode → String
  | selection => "selection"
  | count => "count"
  | both => "both"

/-- All modes by name. -/
def byName : List (String × Mode) := [selection, count, both].map fun m => (m.name, m)

end Mode

/-- The form of the output. -/
inductive OutputFormat
  | text
  | json
  deriving DecidableEq, Repr

namespace OutputFormat

/-- The name of the form. -/
def name : OutputFormat → String
  | text => "text"
  | json => "json"

/-- All forms by name. -/
def byName : List (String × OutputFormat) := [text, json].map fun f => (f.name, f)

end OutputFormat

/-- A number of 64 bits without sign, perhaps after a plus sign. -/
def readWord? (s : String) : Option Nat :=
  let digits := match s.toList with
    | '+' :: rest => rest
    | cs => cs
  if digits.isEmpty || !digits.all Char.isDigit then none
  else if digitsValue digits < UInt64.size then some (digitsValue digits) else none

/-- A number of 32 bits without sign, perhaps after a sign. -/
def readHalfWord? (s : String) : Option UInt32 :=
  (readInteger? s.toList).bind fun n => if 0 ≤ n ∧ n < UInt32.size then some (.ofNat n.toNat) else none

/-- The name of a file; no name is empty. -/
def readFileName? (s : String) : Option String := if s.isEmpty then none else some s

/-- One of several alternatives by its name. -/
def readChoice? {α : Type} (byName : List (String × α)) (s : String) : Option α :=
  (byName.find? (·.1 == s)).map (·.2)

/-! ## 2. Options -/

/-- How a query is to be answered. -/
structure Options where
  schema : String
  entity : String
  query : String := ""
  data : Option String := none
  mode : Mode := .both
  offset : UInt64 := 0
  limit : UInt32 := 20
  format : OutputFormat := .text
  settings : Settings := {}
  deriving DecidableEq, Repr

/-- The value of an option, if it is given. -/
def given {α : Type} (os : List Occurrence) (name : OptionName) (read : String → Option α) :
    Except UsageFault (Option α) :=
  match os.find? (·.name == name) with
  | none => .ok none
  | some o =>
    match read o.value with
    | some a => .ok (some a)
    | none => .error (.unreadable name o.value)

/-- Whether a switch is given. -/
def switched (os : List Occurrence) (name : OptionName) : Bool := os.any (·.name == name)

/-- The first option that is given more than once. -/
def repeated? : List Occurrence → Option OptionName
  | [] => none
  | o :: rest => if switched rest o.name then some o.name else repeated? rest

/-- The settings among the options. -/
def readSettings (os : List Occurrence) : Except UsageFault Settings := do
  let usual : Settings := {}
  return {
    equality := (← given os .equality (readChoice? EqualityMeaning.byName)).getD usual.equality
    isCaseSensitive := switched os .caseSensitive
    maxDepth := (← given os .maxDepth readWord?).getD usual.maxDepth
    maxQueryLength := (← given os .maxQueryLength readWord?).getD usual.maxQueryLength
    cachesPaths := !switched os .noCache
    maxPathHops := (← given os .maxPathHops readWord?).getD usual.maxPathHops }

/-- Options of which some may be missing. -/
structure Draft where
  schema : Option String
  entity : Option String
  query : Option String
  data : Option String
  mode : Option Mode
  offset : Option Nat
  limit : Option UInt32
  format : Option OutputFormat
  settings : Settings
  deriving DecidableEq, Repr

namespace Draft

/-- The draft that options make, each of them given once. -/
def ofOccurrences (os : List Occurrence) : Except UsageFault Draft := do
  if let some name := repeated? os then throw (.repeated name)
  return {
    schema := ← given os .schema readFileName?
    entity := ← given os .entity some
    query := ← given os .query some
    data := ← given os .data readFileName?
    mode := ← given os .mode (readChoice? Mode.byName)
    offset := ← given os .offset readWord?
    limit := ← given os .limit readHalfWord?
    format := ← given os .format (readChoice? OutputFormat.byName)
    settings := ← readSettings os }

/-- The options, if none is missing. -/
def complete (d : Draft) : Except UsageFault Options :=
  match d.schema, d.entity with
  | none, _ => .error (.missing .schema)
  | some _, none => .error (.missing .entity)
  | some schema, some entity =>
    let usual : Options := { schema := schema, entity := entity }
    .ok {
      schema := schema
      entity := entity
      query := d.query.getD usual.query
      data := d.data
      mode := d.mode.getD usual.mode
      offset := (d.offset.map UInt64.ofNat).getD usual.offset
      limit := d.limit.getD usual.limit
      format := d.format.getD usual.format
      settings := d.settings }

end Draft

/-! ## 3. Requests -/

/-- What the command is asked to do. -/
inductive Request
  | answer (o : Options)
  | inform (i : Inquiry)
  deriving DecidableEq, Repr

/-- What arguments ask for. -/
def Request.ofArguments (arguments : List String) : Except UsageFault Request := do
  let g ← Given.ofArguments arguments
  let draft ← Draft.ofOccurrences g.options
  match g.inquiry with
  | some i => return inform i
  | none => return answer (← draft.complete)

end ContextualQuery.CommandLine
