import ContextualQuery.Query.Fault
import ContextualQuery.Query.Filter
import ContextualQuery.Text.Parsed
/-!
# From tokens to queries

`or` binds loosest, then `and`, then `not`; a `not` between two parts means "and not". Chains of one
connective become one node. The readers below take items off the front of a list and stop at the
first fault, so a fault of the lexer behind a fault of the grammar is not seen.

* `clause` reads a search clause with its modifiers,
* `disjunction` reads a filter, given a reader for what stands between parentheses,
* `group` is that reader; it counts the levels that may still be opened,
* `Query.parse` reads a whole text.
-/

namespace ContextualQuery

/-- A reader of the front of a list of items, which takes at least one of them. -/
abbrev ItemReader (α : Type) := (input : List Item) → Except QueryFault (Parsed α input)

namespace Parser

/-! ## 1. Single tokens -/

/-- The empty span at the end of a text of `size` bytes. -/
def endSpan (size : Nat) : Span := ⟨size, size⟩

/-- A token where `expected` stands in the grammar. -/
def mismatch (expected : Expectation) (t : Located Token) : QueryFault :=
  .grammatical ⟨t.span, expected, .token t.value⟩

/-- The next token; the end of the text is a fault. -/
def token (size : Nat) : ItemReader (Located Token)
  | [] => .error (.grammatical ⟨endSpan size, .moreInput, .endOfInput⟩)
  | .error f :: _ => .error (.lexical f)
  | .ok t :: rest => .ok ⟨t, rest, Nat.lt_succ_self _⟩

/-- Whether the next token has a property. The end has none. -/
def nextIs (p : Token → Bool) : List Item → Except QueryFault Bool
  | [] => .ok false
  | .error f :: _ => .error (.lexical f)
  | .ok t :: _ => .ok (p t.value)

/-- A word that is not reserved. -/
def indexName (size : Nat) (expected : Expectation) : ItemReader (Located String) := fun input => do
  let ⟨t, rest, h⟩ ← token size input
  match t.value with
  | .word text =>
    if (Keyword.ofWord? text).isSome then .error (mismatch expected t)
    else .ok ⟨⟨text, t.span⟩, rest, h⟩
  | _ => .error (mismatch expected t)

/-- A relation symbol. -/
def relationSymbol (size : Nat) : ItemReader (Located RelationSymbol) := fun input => do
  let ⟨t, rest, h⟩ ← token size input
  match t.value with
  | .relation symbol => .ok ⟨⟨symbol, t.span⟩, rest, h⟩
  | _ => .error (mismatch .relationOperator t)

/-- A search term: a phrase or any word. -/
def searchTerm (size : Nat) : ItemReader (Located String) := fun input => do
  let ⟨t, rest, h⟩ ← token size input
  match t.value with
  | .word text => .ok ⟨⟨text, t.span⟩, rest, h⟩
  | .phrase content => .ok ⟨⟨content, t.span⟩, rest, h⟩
  | _ => .error (mismatch .searchTerm t)

/-- Any word, as the name of a modifier. -/
def name (size : Nat) (expected : Expectation) : ItemReader (Located String) := fun input => do
  let ⟨t, rest, h⟩ ← token size input
  match t.value with
  | .word text => .ok ⟨⟨text, t.span⟩, rest, h⟩
  | _ => .error (mismatch expected t)

/-- The closing parenthesis. Here the end of the text does not ask for more input. -/
def closeParen (size : Nat) : ItemReader Unit
  | [] => .error (.grammatical ⟨endSpan size, .closingParen, .endOfInput⟩)
  | .error f :: _ => .error (.lexical f)
  | .ok t :: rest =>
    if t.value = .closeParen then .ok ⟨(), rest, Nat.lt_succ_self _⟩
    else .error (mismatch .closingParen t)

/-! ## 2. Search clauses -/

/-- Puts a modifier into a set, unless its opposite is there. -/
def addModifier (set : Modifiers) (text : Located String) : Except QueryFault Modifiers :=
  match Modifier.ofName? text.value with
  | none => .error (.grammatical ⟨text.span, .relationModifier, .name text.value⟩)
  | some m =>
    if set.contains m.opposite then
      .error (.grammatical ⟨text.span, .noConflictWith m.opposite, .name text.value⟩)
    else .ok (set.insert m)

/-- Modifiers, each after a slash, as long as a slash follows. -/
def modifiers (size : Nat) (set : Modifiers) (input : List Item) :
    Except QueryFault (Trailing Modifiers input) :=
  match input with
  | .error f :: _ => .error (.lexical f)
  | .ok ⟨.slash, _⟩ :: rest => do
    let ⟨text, rest', h⟩ ← name size .modifierName rest
    let set ← addModifier set text
    let ⟨set, rest'', h'⟩ ← modifiers size set rest'
    return ⟨set, rest'', Nat.le_succ_of_le (Nat.le_trans h' (Nat.le_of_lt h))⟩
  | other => .ok ⟨set, other, Nat.le_refl _⟩
termination_by input.length
decreasing_by exact Nat.lt_succ_of_lt h

/-- An index name, a relation symbol and a term; modifiers may follow the symbol and the term. -/
def clause (size : Nat) : ItemReader SearchClause := fun input => do
  let ⟨field, rest, _⟩ ← indexName size .searchClause input
  let ⟨symbol, rest, _⟩ ← relationSymbol size rest
  let ⟨set, rest, _⟩ ← modifiers size .empty rest
  let ⟨term, rest, _⟩ ← searchTerm size rest
  let ⟨set, rest, _⟩ ← modifiers size set rest
  return ⟨⟨field, symbol, term, set⟩, rest, by omega⟩

/-! ## 3. Filters -/

/-- A reader for the filter after an opening parenthesis, given the place of the parenthesis. -/
abbrev GroupReader := Span → ItemReader Filter

/-- A group in parentheses or a search clause. -/
def term (size : Nat) (group : GroupReader) : ItemReader Filter
  | .ok ⟨.openParen, opening⟩ :: rest => do
    let ⟨inner, rest', h⟩ ← group opening rest
    let ⟨_, rest'', h'⟩ ← closeParen size rest'
    return ⟨inner, rest'', Nat.lt_succ_of_lt (Nat.lt_trans h' h)⟩
  | .error f :: _ => .error (.lexical f)
  | input => do
    let ⟨c, rest, h⟩ ← clause size input
    return ⟨.clause c, rest, h⟩

/-- A term, or `not` and a term. -/
def negated (size : Nat) (group : GroupReader) : ItemReader Filter
  | .ok t :: rest =>
    if t.value.isKeyword .not then do
      let ⟨inner, rest', h⟩ ← term size group rest
      return ⟨.negation t.span inner, rest', Nat.lt_succ_of_lt h⟩
    else term size group (.ok t :: rest)
  | input => term size group input

/-- The further parts of an `and` chain: `and` with a possibly negated term, or `not` with a term. -/
def conjuncts (size : Nat) (group : GroupReader) (input : List Item) :
    Except QueryFault (Trailing (List Filter) input) :=
  match input with
  | [] => .ok ⟨[], [], Nat.le_refl _⟩
  | .error f :: _ => .error (.lexical f)
  | .ok t :: rest =>
    if t.value.isKeyword .and then do
      let ⟨part, rest', h⟩ ← negated size group rest
      let ⟨parts, rest'', h'⟩ ← conjuncts size group rest'
      return ⟨part :: parts, rest'', Nat.le_succ_of_le (Nat.le_trans h' (Nat.le_of_lt h))⟩
    else if t.value.isKeyword .not then do
      let ⟨part, rest', h⟩ ← term size group rest
      let ⟨parts, rest'', h'⟩ ← conjuncts size group rest'
      return ⟨.negation t.span part :: parts, rest'', Nat.le_succ_of_le (Nat.le_trans h' (Nat.le_of_lt h))⟩
    else .ok ⟨[], .ok t :: rest, Nat.le_refl _⟩
termination_by input.length
decreasing_by all_goals exact Nat.lt_succ_of_lt h

/-- An `and` chain. -/
def conjunction (size : Nat) (group : GroupReader) : ItemReader Filter := fun input => do
  let ⟨first, rest, _⟩ ← negated size group input
  let ⟨parts, rest, _⟩ ← conjuncts size group rest
  return ⟨.chain .and first parts, rest, by omega⟩

/-- The further parts of an `or` chain. -/
def disjuncts (size : Nat) (group : GroupReader) (input : List Item) :
    Except QueryFault (Trailing (List Filter) input) :=
  match input with
  | [] => .ok ⟨[], [], Nat.le_refl _⟩
  | .error f :: _ => .error (.lexical f)
  | .ok t :: rest =>
    if t.value.isKeyword .or then do
      let ⟨part, rest', h⟩ ← conjunction size group rest
      let ⟨parts, rest'', h'⟩ ← disjuncts size group rest'
      return ⟨part :: parts, rest'', Nat.le_succ_of_le (Nat.le_trans h' (Nat.le_of_lt h))⟩
    else .ok ⟨[], .ok t :: rest, Nat.le_refl _⟩
termination_by input.length
decreasing_by exact Nat.lt_succ_of_lt h

/-- An `or` chain, which is a whole filter. -/
def disjunction (size : Nat) (group : GroupReader) : ItemReader Filter := fun input => do
  let ⟨first, rest, _⟩ ← conjunction size group input
  let ⟨parts, rest, _⟩ ← disjuncts size group rest
  return ⟨.chain .or first parts, rest, by omega⟩

/-- The inside of a group when `levels` further levels may be opened out of `limit`. -/
def group (size limit : Nat) : (levels : Nat) → GroupReader
  | 0 => fun opening _ =>
    .error (.grammatical ⟨opening, .nestingAtMost limit, .token .openParen⟩)
  | levels + 1 => fun _ input => disjunction size (group size limit levels) input

/-! ## 4. Sort specifications -/

/-- Directions after a key, each after a slash; there may be one at most. -/
def directions (size : Nat) (key : Span) (found : Option Direction) (input : List Item) :
    Except QueryFault (Trailing (Option Direction × Span) input) :=
  match input with
  | .error f :: _ => .error (.lexical f)
  | .ok ⟨.slash, _⟩ :: rest => do
    let ⟨text, rest', h⟩ ← name size .sortModifier rest
    match Direction.ofName? text.value with
    | none => .error (.grammatical ⟨text.span, .sortModifier, .name text.value⟩)
    | some d =>
      if found.isSome then
        .error (.grammatical ⟨text.span, .singleDirection, .name text.value⟩)
      else
        let ⟨r, rest'', h'⟩ ← directions size (key.merge text.span) (some d) rest'
        return ⟨r, rest'', Nat.le_succ_of_le (Nat.le_trans h' (Nat.le_of_lt h))⟩
  | other => .ok ⟨(found, key), other, Nat.le_refl _⟩
termination_by input.length
decreasing_by exact Nat.lt_succ_of_lt h

/-- One key of a sort specification. -/
def sortClause (size : Nat) : ItemReader SortClause := fun input => do
  let ⟨field, rest, _⟩ ← indexName size .sortKey input
  let ⟨(direction, span), rest, _⟩ ← directions size field.span none rest
  return ⟨⟨field, direction.getD .ascending, span⟩, rest, by omega⟩

/-- Keys as long as a word follows. -/
def sortClauses (size : Nat) (input : List Item) :
    Except QueryFault (Trailing (List SortClause) input) :=
  match input with
  | [] => .ok ⟨[], [], Nat.le_refl _⟩
  | .error f :: _ => .error (.lexical f)
  | .ok t :: rest =>
    if t.value.isWord then do
      let ⟨key, rest', h⟩ ← sortClause size (.ok t :: rest)
      let ⟨keys, rest'', h'⟩ ← sortClauses size rest'
      return ⟨key :: keys, rest'', by omega⟩
    else .ok ⟨[], .ok t :: rest, Nat.le_refl _⟩
termination_by input.length
decreasing_by exact h

/-- The sort specification after its reserved word: at least one key. -/
def sortSpecification (size : Nat) (input : List Item) :
    Except QueryFault (List SortClause × List Item) := do
  let ⟨keys, rest, _⟩ ← sortClauses size input
  match keys, rest with
  | [], .ok t :: _ => .error (.grammatical ⟨t.span, .keyAfterSortBy, .token t.value⟩)
  | [], .error f :: _ => .error (.lexical f)
  | [], [] => .error (.grammatical ⟨endSpan size, .keyAfterSortBy, .endOfInput⟩)
  | keys, rest => .ok (keys, rest)

/-! ## 5. Queries -/

/-- Whether a lone term is the whole filter: a text that is not reserved, and behind it the end or
a sort specification. -/
def bareTermFollows : List Item → Except QueryFault Bool
  | .ok t :: rest =>
    if t.value.isBareTerm then
      match rest with
      | [] => .ok true
      | .error f :: _ => .error (.lexical f)
      | .ok u :: _ => .ok (u.value.isKeyword .sortBy)
    else .ok false
  | _ => .ok false

/-- The filter of a query. None is written at the end of the text and before a sort specification;
a lone term is none either. -/
def filter (size limit : Nat) (input : List Item) :
    Except QueryFault (Option Filter × List Item) := do
  if input.isEmpty || (← nextIs (·.isKeyword .sortBy) input) then return (none, input)
  if ← bareTermFollows input then return (none, input.drop 1)
  let ⟨f, rest, _⟩ ← disjunction size (group size limit limit) input
  return (some f, rest)

/-- The sort clauses of a query, if the reserved word follows. -/
def sorting (size : Nat) (input : List Item) :
    Except QueryFault (List SortClause × List Item) := do
  if ← nextIs (·.isKeyword .sortBy) input then sortSpecification size (input.drop 1)
  else return ([], input)

/-- A query up to the end of the items. -/
def query (size limit : Nat) (input : List Item) : Except QueryFault Query := do
  let (f, rest) ← filter size limit input
  let (keys, rest) ← sorting size rest
  match rest with
  | [] => .ok ⟨f, keys, ⟨0, size⟩⟩
  | .error f :: _ => .error (.lexical f)
  | .ok t :: _ => .error (mismatch (if keys.isEmpty then .endOfQuery else .endOfSort) t)

end Parser

/-- The number of parentheses that may be open at once unless a caller says otherwise. -/
def Query.defaultDepth : Nat := 32

/-- Reads a query text in which at most `limit` parentheses are open at once. -/
def Query.parse (text : String) (limit : Nat) : Except QueryFault Query :=
  Parser.query text.utf8ByteSize limit (Lexer.ofText text).items

end ContextualQuery
