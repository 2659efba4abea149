import ContextualQuery.Plan.Operand
import ContextualQuery.Query.Fault
/-!
# Faults of a plan

A query has no plan if its text is too long or faulty, if a name in it has no path, if a term has no
operand, or if it asks for an order that a path does not give.
-/

namespace ContextualQuery

/-- Why a query has no plan, and where in its text the reason stands. -/
inductive PlanFault
  | text (f : QueryFault)
  | tooLong (length limit : Nat)
  | name (f : ResolutionFault) (span : Span)
  | term (f : TermFault) (span : Span)
  | unsortable (field : String) (isCollection : Bool) (span : Span)
  deriving DecidableEq, Repr

/-- The kinds of faults. -/
inductive PlanFaultKind
  | lex
  | parse
  | unknownEntity
  | unknownField
  | ambiguousField
  | unsupportedOperator
  | coercion
  | unsortableField
  deriving DecidableEq, Repr

/-- The name of the kind. -/
def PlanFaultKind.name : PlanFaultKind → String
  | lex => "Lex"
  | parse => "Parse"
  | unknownEntity => "UnknownEntity"
  | unknownField => "UnknownField"
  | ambiguousField => "AmbiguousField"
  | unsupportedOperator => "UnsupportedOperator"
  | coercion => "Coercion"
  | unsortableField => "UnsortableField"

namespace PlanFault

/-- The kind of the fault. A text that is too long counts as one against the grammar. -/
def kind : PlanFault → PlanFaultKind
  | text (.lexical _) => .lex
  | text (.grammatical _) => .parse
  | tooLong _ _ => .parse
  | name (.unknownEntity _) _ => .unknownEntity
  | name (.unknownField _ _) _ => .unknownField
  | name (.ambiguousField _ _ _) _ => .ambiguousField
  | term f _ => if f.isOfTerm then .coercion else .unsupportedOperator
  | unsortable _ _ _ => .unsortableField

/-- Where in the text the reason stands; of a text that is too long, what is too much. -/
def span : PlanFault → Span
  | text f => f.span
  | tooLong length limit => ⟨limit, length⟩
  | name _ s => s
  | term _ s => s
  | unsortable _ _ s => s

/-- The fault in words. -/
def message : PlanFault → String
  | text f => f.message
  | tooLong length limit =>
    "query is " ++ toString length ++ " bytes long; the limit is " ++ toString limit
  | name f _ => f.message
  | term f _ => f.message
  | unsortable field isCollection _ =>
    "cannot sort by '" ++ field ++ "': "
      ++ (if isCollection then "the path is collection-valued" else "the attribute is not sortable")

/-- The picture of the fault in the text. -/
def render (f : PlanFault) (source : String) : String :=
  match f with
  | text f => f.render source
  | f => Diagnostic.render source f.span ("error[" ++ f.kind.name ++ "]: " ++ f.message) none

end PlanFault

end ContextualQuery
