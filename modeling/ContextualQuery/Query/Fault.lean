import ContextualQuery.Query.Lexer
import ContextualQuery.Text.Diagnostic
/-!
# Faults of a query text

A text is faulty because no token can be taken at some place, or because a token (or the end)
stands where something else is expected. What is expected and what is found are values; their
wording, and the hint that goes with some of them, are functions of these.
-/

namespace ContextualQuery

/-- What the grammar asks for. -/
inductive Expectation
  | moreInput
  | searchClause
  | sortKey
  | relationOperator
  | modifierName
  | relationModifier
  | noConflictWith (m : Modifier)
  | searchTerm
  | closingParen
  | nestingAtMost (limit : Nat)
  | sortModifier
  | singleDirection
  | keyAfterSortBy
  | endOfQuery
  | endOfSort
  deriving DecidableEq, Repr

/-- What stands there instead. A name is a word that is shown without a remark on reserved words. -/
inductive Finding
  | token (t : Token)
  | name (text : String)
  | endOfInput
  deriving DecidableEq, Repr

/-- The expectation in words. -/
def Expectation.describe : Expectation → String
  | moreInput => "more input"
  | searchClause => "search clause"
  | sortKey => "sort key"
  | relationOperator => "relation operator"
  | modifierName => "modifier name"
  | relationModifier => "relation modifier"
  | noConflictWith m => "no modifier conflicting with '" ++ m.name ++ "'"
  | searchTerm => "search term"
  | closingParen => "')'"
  | nestingAtMost limit => "at most " ++ toString limit ++ " levels of nesting"
  | sortModifier => "sort modifier"
  | singleDirection => "a single sort direction"
  | keyAfterSortBy => "sort key after sortBy"
  | endOfQuery => "'and', 'or', 'not', 'sortBy' or end of query"
  | endOfSort => "sort key or end of query"

/-- The finding in words. -/
def Finding.describe : Finding → String
  | token t => t.describe
  | name text => "'" ++ text ++ "'"
  | endOfInput => "end of input"

/-- A token or the end of the text at a place where the grammar has no use for it. -/
structure SyntaxFault where
  span : Span
  expected : Expectation
  found : Finding
  deriving DecidableEq, Repr

namespace SyntaxFault

/-- Advice on how to mend the text. -/
def hint? (f : SyntaxFault) : Option String :=
  match f.expected, f.found with
  | .relationOperator, .token t =>
    if t.isText then some "search terms need an index, e.g. title=dinosaur" else none
  | .relationModifier, _ =>
    some "supported modifiers: ignoreCase, respectCase, masked, unmasked"
  | .sortModifier, .name _ => some "use sort.ascending or sort.descending"
  | .keyAfterSortBy, _ => some "sortBy needs at least one index name"
  | _, _ => none

/-- The fault in words. -/
def message (f : SyntaxFault) : String :=
  "expected " ++ f.expected.describe ++ ", found " ++ f.found.describe

end SyntaxFault

/-- A fault of either kind. -/
inductive QueryFault
  | lexical (f : LexicalFault)
  | grammatical (f : SyntaxFault)
  deriving DecidableEq, Repr

/-- The picture of a lexical fault. -/
def LexicalFault.render (f : LexicalFault) (text : String) : String :=
  Diagnostic.render text f.span ("error: " ++ f.message) none

/-- The picture of a fault against the grammar. -/
def SyntaxFault.render (f : SyntaxFault) (text : String) : String :=
  Diagnostic.render text f.span ("error: " ++ f.message) f.hint?

namespace QueryFault

/-- The place of the fault. -/
def span : QueryFault → Span
  | lexical f => f.span
  | grammatical f => f.span

/-- The fault in words. -/
def message : QueryFault → String
  | lexical f => f.message
  | grammatical f => f.message

/-- The fault in words, with its kind. -/
def labelled : QueryFault → String
  | lexical f => "lex error: " ++ f.message
  | grammatical f => "parse error: " ++ f.message

/-- The picture of the fault. -/
def render (f : QueryFault) (text : String) : String :=
  match f with
  | lexical f => f.render text
  | grammatical f => f.render text

end QueryFault

end ContextualQuery
