import ContextualQuery.Json.Fields
import ContextualQuery.Json.Reading
import ContextualQuery.Query.Parser
import ContextualQuery.Resolver
/-!
# Settings

What a text is compared by when nothing is said about it in the query, and what limits a query has to
keep.
-/

namespace ContextualQuery

/-- What `=` asks of a text: to contain the term or to be equal to it. -/
inductive EqualityMeaning
  | contains
  | exact
  deriving DecidableEq, Repr

namespace EqualityMeaning

/-- The name of the meaning. -/
def name : EqualityMeaning → String
  | contains => "contains"
  | exact => "exact"

/-- Both meanings by name. -/
def byName : List (String × EqualityMeaning) := [contains, exact].map fun m => (m.name, m)

end EqualityMeaning

/-- Settings. Lengths are in bytes, depth counts open parentheses, and hops are the steps of a path before
its last. -/
structure Settings where
  equality : EqualityMeaning := .contains
  isCaseSensitive : Bool := false
  maxDepth : Nat := Query.defaultDepth
  maxQueryLength : Nat := 8192
  cachesPaths : Bool := true
  maxPathHops : Nat := Path.usualMaxHops
  deriving DecidableEq, Repr

namespace Settings

/-- The settings as JSON. -/
def toJson (s : Settings) : Json :=
  .object [("cache_paths", .bool s.cachesPaths), ("case_sensitive", .bool s.isCaseSensitive),
    ("equality", .text s.equality.name), ("max_depth", .integer s.maxDepth),
    ("max_path_hops", .integer s.maxPathHops), ("max_query_length", .integer s.maxQueryLength)]

/-- Reads a limit. -/
def readLimit? (j : Json) : Option Nat := j.nat? UInt64.size

/-- The fields. -/
def shape : Json.Shape :=
  .plain ["equality", "case_sensitive", "max_depth", "max_query_length", "cache_paths",
    "max_path_hops"]

/-- Reads settings; what is not given is as usual. -/
def ofJson? (j : Json) : Option Settings := do
  let usual : Settings := {}
  let [equality, isCaseSensitive, maxDepth, maxQueryLength, cachesPaths, maxPathHops] ←
    j.fields? shape.names | none
  return {
    equality := ← Json.defaulted? usual.equality (Json.named? EqualityMeaning.byName) equality
    isCaseSensitive := ← Json.defaulted? usual.isCaseSensitive Json.bool? isCaseSensitive
    maxDepth := ← Json.defaulted? usual.maxDepth readLimit? maxDepth
    maxQueryLength := ← Json.defaulted? usual.maxQueryLength readLimit? maxQueryLength
    cachesPaths := ← Json.defaulted? usual.cachesPaths Json.bool? cachesPaths
    maxPathHops := ← Json.defaulted? usual.maxPathHops readLimit? maxPathHops }

/-- Reads the text of settings. -/
def read? (text : String) : Option Settings := (Json.readAs? shape text).bind ofJson?

end Settings

end ContextualQuery
