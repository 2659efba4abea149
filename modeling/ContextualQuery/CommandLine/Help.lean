import ContextualQuery.CommandLine.Options
/-!
# Help

What the command says about itself: its version, a summary of its options, and the full text, which also tells
of every choice what it means.
-/

namespace ContextualQuery.CommandLine

/-- The name of the command. -/
def commandName : String := "cqlbridge"

/-- The version of the command. -/
def commandVersion : String := "0.1.0"

/-! ## 1. What is said about options -/

/-- What is known about an option: its letter and name, the word for its value, what it is about, its usual
value, and its choices with their meanings. -/
structure Entry where
  letter : Option Char
  long : String
  value : Option String := none
  about : String
  usual : Option String := none
  choices : List (String × String) := []

/-- What a mode produces. -/
def Mode.about : Mode → String
  | selection => "Filter and ordering (or the requested page of rows, with data)"
  | count => "Filter only (or the number of matching rows, with data)"
  | both => "Both of the above"

/-- What a form of the output is. -/
def OutputFormat.about : OutputFormat → String
  | text => "Indented text tree"
  | json => "JSON format"

/-- What `=` asks of a text. -/
def equalityAbout : EqualityMeaning → String
  | .contains => "The attribute contains the term"
  | .exact => "The attribute equals the term"

namespace OptionName

/-- What the option is about. -/
def about : OptionName → String
  | schema => "Schema file (JSON)"
  | entity => "Root entity to query"
  | query => "CQL query"
  | data => "Data file (JSON object mapping entity names to record arrays)"
  | mode => "What to produce"
  | offset => "Rows to skip"
  | limit => "Maximum rows to return"
  | equality => "Meaning of `=` on text"
  | caseSensitive => "Respect case in text comparisons unless a modifier says otherwise"
  | maxDepth => "Maximum parenthesis nesting depth"
  | maxQueryLength => "Maximum query length in bytes"
  | maxPathHops => "Maximum relation or embedded hops in a field path"
  | noCache => "Disable the resolved path cache"
  | format => "Output format"

/-- The value that is taken where none is given, if that is worth telling. -/
def usual? (name : OptionName) : Option String :=
  let usual : Options := { schema := "", entity := "" }
  match name with
  | query => some usual.query
  | mode => some usual.mode.name
  | offset => some (toString usual.offset.toNat)
  | limit => some (toString usual.limit.toNat)
  | equality => some usual.settings.equality.name
  | format => some usual.format.name
  | _ => none

/-- The choices with their meanings. -/
def choices : OptionName → List (String × String)
  | mode => Mode.byName.map fun (name, m) => (name, m.about)
  | equality => EqualityMeaning.byName.map fun (name, m) => (name, equalityAbout m)
  | format => OutputFormat.byName.map fun (name, f) => (name, f.about)
  | _ => []

/-- The word for the value: the name in capitals. -/
def placeholder (name : OptionName) : String :=
  name.long.map fun c => if c = '-' then '_' else c.toUpper

/-- What is known about the option. -/
def entry (name : OptionName) : Entry :=
  { letter := name.letter?
    long := name.long
    value := if name.isSwitch then none else some name.placeholder
    about := name.about
    usual := name.usual?
    choices := name.choices }

end OptionName

/-! ## 2. The texts -/

namespace Entry

/-- A new line inside what is said about an option. -/
def newLine : String := "\n          "

/-- The names of an option, and the word for its value. -/
def heading (e : Entry) : String :=
  "  " ++ (match e.letter with
    | some c => "-" ++ c.toString ++ ", "
    | none => "    ") ++ "--" ++ e.long ++ (match e.value with
    | some word => " <" ++ word ++ ">"
    | none => "")

/-- The usual value in brackets. -/
def usualNote? (e : Entry) : Option String := e.usual.map fun value => "[default: " ++ value ++ "]"

/-- The choices in brackets. -/
def choicesNote? (e : Entry) : Option String :=
  if e.choices.isEmpty then none
  else some ("[possible values: " ++ String.intercalate ", " (e.choices.map (·.1)) ++ "]")

/-- An option on two lines. -/
def summary (e : Entry) : String :=
  e.heading ++ newLine ++
    String.intercalate " " (e.about :: e.usualNote?.toList ++ e.choicesNote?.toList)

/-- The choices on lines of their own, their meanings below each other. -/
def choiceLines (e : Entry) : List String :=
  let width := (e.choices.map (·.1.length)).foldl max 0
  e.choices.map fun (name, about) =>
    newLine ++ "- " ++ name ++ ": " ++ String.ofList (List.replicate (width - name.length) ' ') ++ about

/-- An option with all that is known about it. -/
def full (e : Entry) : String :=
  e.heading ++ newLine ++ e.about
    ++ (if e.choices.isEmpty then ""
      else "\n" ++ newLine ++ "Possible values:" ++ String.join e.choiceLines)
    ++ (match e.usualNote? with
      | some note => newLine ++ newLine ++ note
      | none => "")

end Entry

/-- What the command is for, and how it is called. -/
def preamble : String :=
  "Translate and run CQL queries\n\nUsage: " ++ commandName
    ++ " [OPTIONS] --schema <SCHEMA> --entity <ENTITY>\n\nOptions:\n"

/-- The options, and the inquiries behind them. -/
def entries (aboutHelp : String) : List Entry :=
  OptionName.all.map OptionName.entry ++
    [{ letter := some 'h', long := "help", about := aboutHelp },
      { letter := some 'V', long := "version", about := "Print version" }]

namespace Inquiry

/-- What the command says to an inquiry. -/
def reply : Inquiry → String
  | summary =>
    let es := entries "Print help (see more with '--help')"
    preamble ++ String.intercalate "\n" (es.map Entry.summary) ++ "\n"
  | help =>
    let es := entries "Print help (see a summary with '-h')"
    preamble ++ String.intercalate "\n\n" (es.map Entry.full) ++ "\n"
  | version => commandName ++ " " ++ commandVersion ++ "\n"

end Inquiry

end ContextualQuery.CommandLine
