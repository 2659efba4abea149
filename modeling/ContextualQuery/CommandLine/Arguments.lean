/-!
# Arguments of the command

An option is given as `--name value` or `--name=value`, or, if it has a letter, as `-l value`, `-l=value` or
`-lvalue`; switches have no value. Every option is given at most once. A value of its own that starts with a
dash is taken for an option, so such values have to follow an equals sign or a letter.

Instead of an answer to a query the arguments may ask for help or for the version. What follows such an inquiry
is not looked at, but what stands before it has to be right.
-/

namespace ContextualQuery.CommandLine

/-! ## 1. Names -/

/-- The options. -/
inductive OptionName
  | schema
  | entity
  | query
  | data
  | mode
  | offset
  | limit
  | equality
  | caseSensitive
  | maxDepth
  | maxQueryLength
  | maxPathHops
  | noCache
  | format
  deriving DecidableEq, Repr

namespace OptionName

/-- All options. -/
def all : List OptionName :=
  [schema, entity, query, data, mode, offset, limit, equality, caseSensitive, maxDepth, maxQueryLength,
    maxPathHops, noCache, format]

/-- The name after two dashes. -/
def long : OptionName → String
  | schema => "schema"
  | entity => "entity"
  | query => "query"
  | data => "data"
  | mode => "mode"
  | offset => "offset"
  | limit => "limit"
  | equality => "equality"
  | caseSensitive => "case-sensitive"
  | maxDepth => "max-depth"
  | maxQueryLength => "max-query-length"
  | maxPathHops => "max-path-hops"
  | noCache => "no-cache"
  | format => "format"

/-- The letter after one dash. -/
def letter? : OptionName → Option Char
  | schema => some 's'
  | entity => some 'e'
  | query => some 'q'
  | data => some 'd'
  | _ => none

/-- Whether the option is a switch. -/
def isSwitch : OptionName → Bool
  | caseSensitive | noCache => true
  | _ => false

/-- The option of a name. -/
def ofLong? (name : String) : Option OptionName := all.find? (·.long == name)

/-- The option of a letter. -/
def ofLetter? (c : Char) : Option OptionName := all.find? (·.letter? == some c)

end OptionName

/-- What may be asked instead of a query. -/
inductive Inquiry
  | summary
  | help
  | version
  deriving DecidableEq, Repr

namespace Inquiry

/-- The inquiry of a name after two dashes. -/
def ofLong? (name : String) : Option Inquiry :=
  if name = "help" then some help else if name = "version" then some version else none

/-- The inquiry of a letter after one dash. -/
def ofLetter? (c : Char) : Option Inquiry :=
  if c = 'h' then some summary else if c = 'V' then some version else none

end Inquiry

/-! ## 2. Arguments -/

/-- Why arguments are no options of the command. -/
inductive UsageFault
  | stray (argument : String)
  | unknown (argument : String)
  | noValue (name : OptionName)
  | needlessValue (option : String)
  | repeated (name : OptionName)
  | missing (name : OptionName)
  | unreadable (name : OptionName) (value : String)
  deriving DecidableEq, Repr

/-- The fault in words. -/
def UsageFault.message : UsageFault → String
  | stray argument => "unexpected argument '" ++ argument ++ "'"
  | unknown argument => "unknown option '" ++ argument ++ "'"
  | noValue name => "option '--" ++ name.long ++ "' needs a value"
  | needlessValue option => "option '--" ++ option ++ "' has no value"
  | repeated name => "option '--" ++ name.long ++ "' is given more than once"
  | missing name => "option '--" ++ name.long ++ "' has to be given"
  | unreadable name value => "invalid value '" ++ value ++ "' for option '--" ++ name.long ++ "'"

/-- An option with its value; the value of a switch is empty. -/
structure Occurrence where
  name : OptionName
  value : String
  deriving DecidableEq, Repr

/-- What an argument says by itself: an option with its value, one whose value follows, or an inquiry. -/
inductive Argument
  | complete (o : Occurrence)
  | awaiting (name : OptionName)
  | inquiry (i : Inquiry)
  deriving DecidableEq, Repr

/-- A name, and what follows the first equals sign, if there is one. -/
def splitAtEquals (cs : List Char) : String × Option String :=
  let name := String.ofList (cs.takeWhile (· != '='))
  match cs.dropWhile (· != '=') with
  | [] => (name, none)
  | _ :: value => (name, some (String.ofList value))

/-- Reads an argument with two dashes, without these. -/
def readLong (cs : List Char) : Except UsageFault Argument :=
  let (text, value?) := splitAtEquals cs
  match Inquiry.ofLong? text, OptionName.ofLong? text, value? with
  | some i, _, none => .ok (.inquiry i)
  | some _, _, some _ => .error (.needlessValue text)
  | none, none, _ => .error (.unknown ("--" ++ text))
  | none, some name, none => .ok (if name.isSwitch then .complete ⟨name, ""⟩ else .awaiting name)
  | none, some name, some value =>
    if name.isSwitch then .error (.needlessValue text) else .ok (.complete ⟨name, value⟩)

/-- Reads an argument with one dash: its letter, and what follows it. Behind an inquiry anything may follow. -/
def readShort (c : Char) (rest : List Char) : Except UsageFault Argument :=
  match Inquiry.ofLetter? c, OptionName.ofLetter? c, rest with
  | some i, _, _ => .ok (.inquiry i)
  | none, none, _ => .error (.unknown ("-" ++ c.toString))
  | none, some name, [] => .ok (.awaiting name)
  | none, some name, '=' :: value => .ok (.complete ⟨name, String.ofList value⟩)
  | none, some name, value => .ok (.complete ⟨name, String.ofList value⟩)

/-- Reads an argument. A lone dash is none. -/
def readArgument (argument : String) : Except UsageFault Argument :=
  match argument.toList with
  | '-' :: '-' :: name => readLong name
  | '-' :: c :: rest => readShort c rest
  | _ => .error (.stray argument)

/-- Whether an argument is taken for an option wherever it stands. -/
def startsOption (argument : String) : Bool :=
  match argument.toList with
  | '-' :: _ :: _ => true
  | _ => false

/-- The options in their order up to an inquiry, and the inquiry, if there is one. -/
structure Given where
  options : List Occurrence
  inquiry : Option Inquiry := none
  deriving DecidableEq, Repr

/-- Another option in front. -/
def Given.withOption (g : Given) (o : Occurrence) : Given := { g with options := o :: g.options }

/-- Reads arguments. Two dashes alone end the options, and nothing may follow. -/
def Given.ofArguments : List String → Except UsageFault Given
  | [] => .ok { options := [] }
  | argument :: rest =>
    if argument = "--" then
      match rest with
      | [] => .ok { options := [] }
      | stray :: _ => .error (.stray stray)
    else
      match readArgument argument, rest with
      | .error f, _ => .error f
      | .ok (.inquiry i), _ => .ok { options := [], inquiry := some i }
      | .ok (.complete o), rest => (ofArguments rest).map (·.withOption o)
      | .ok (.awaiting name), [] => .error (.noValue name)
      | .ok (.awaiting name), value :: rest =>
        if startsOption value then .error (.noValue name)
        else (ofArguments rest).map (·.withOption ⟨name, value⟩)

end ContextualQuery.CommandLine
