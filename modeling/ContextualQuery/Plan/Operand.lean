import ContextualQuery.Mask
import ContextualQuery.Predicate.Basic
import ContextualQuery.Settings
import ContextualQuery.Text.Blank
/-!
# From terms to operands

A term of a query is a text. What it is compared with depends on the domain of the path: a text is a mask,
or a literal text; for every other domain the term, without the blanks around it, has to spell a value.
-/

namespace ContextualQuery

/-- The comparison that a symbol asks for. Both equalities ask for the same one. -/
def RelationSymbol.comparator : RelationSymbol → Comparator
  | .word | .exact => .eq
  | .notEqual => .ne
  | .less => .lt
  | .atMost => .le
  | .greater => .gt
  | .atLeast => .ge

@[simp] theorem RelationSymbol.isOrdering_comparator (s : RelationSymbol) :
    s.comparator.isOrdering = s.isOrdering := by cases s <;> rfl

/-! ## 1. Faults -/

/-- Why a term has no operand. -/
inductive TermFault
  | unreadable (term : String) (domain : Domain)
  | unorderedDomain (symbol : RelationSymbol) (domain : Domain)
  | orderedMask (symbol : RelationSymbol)
  | maskedValue (domain : Domain)
  deriving DecidableEq, Repr

namespace TermFault

/-- A relation, or what else is asked for, that something does not support. -/
def unsupported (asked target : String) : String :=
  "relation '" ++ asked ++ "' is not supported for " ++ target

/-- The fault in words. -/
def message : TermFault → String
  | unreadable term domain => "cannot interpret '" ++ term ++ "' as " ++ domain.describe
  | unorderedDomain symbol domain => unsupported symbol.spelling domain.describe
  | orderedMask symbol => unsupported symbol.spelling "masked text"
  | maskedValue domain => unsupported "wildcard match" domain.describe

/-- Whether the term itself is at fault, and not the relation. -/
def isOfTerm : TermFault → Bool
  | unreadable _ _ => true
  | _ => false

end TermFault

/-! ## 2. Reading values -/

/-- An integer: an optional sign, and digits. -/
def readInteger? (cs : List Char) : Option Int :=
  let (negative, digits) := match cs with
    | '-' :: rest => (true, rest)
    | '+' :: rest => (false, rest)
    | _ => (false, cs)
  if digits.isEmpty || !digits.all Char.isDigit then none
  else some (if negative then -(digitsValue digits : Int) else digitsValue digits)

/-- A truth value by its name, in letters of either case. -/
def readBool? (s : String) : Option Bool :=
  if sameIgnoringCase s "true" then some true
  else if sameIgnoringCase s "false" then some false
  else none

/-- The value of a domain that a text spells. Floating point numbers are finite; of an enumeration the first
member counts that differs from the text in the case of ASCII letters only. -/
def Domain.read? (d : Domain) (cs : List Char) : Option Value :=
  match d with
  | .text => some (.text (String.ofList cs))
  | .int32 => (readInteger? cs >>= int32?).map .int32
  | .int64 => (readInteger? cs >>= int64?).map .int64
  | .float32 => (Single.read? cs).map .float32
  | .float64 => (Double.read? cs).map .float64
  | .bool => (readBool? (String.ofList cs)).map .bool
  | .timestamp => (readInstant? cs >>= int64?).map .timestamp
  | .date => (readDays? cs >>= int32?).map .date
  | .uuid => (Uuid.read? cs).map .uuid
  | .enumeration _ variants =>
    (variants.find? (sameIgnoringCase · (String.ofList cs))).map .member

/-! ## 3. Operands -/

namespace Operand

/-- Whether a term is a mask: it masks something, and the modifiers do not say otherwise. -/
def isMask (modifiers : Modifiers) (term : String) : Bool :=
  !modifiers.unmasked && hasWildcards term.toList

/-- Whether case matters, by the modifiers or else by the settings. -/
def respectsCase (settings : Settings) (modifiers : Modifiers) : Bool :=
  if modifiers.respectCase then true
  else if modifiers.ignoreCase then false
  else settings.isCaseSensitive

/-- How a text that is no mask is compared. -/
def literalMode (settings : Settings) : RelationSymbol → MatchMode
  | .word =>
    match settings.equality with
    | .contains => .contains
    | .exact => .exact
  | _ => .exact

/-- The operand of a text. -/
def ofText (settings : Settings) (symbol : RelationSymbol) (modifiers : Modifiers) (term : String) :
    Except TermFault Operand :=
  let isCaseSensitive := respectsCase settings modifiers
  if isMask modifiers term then
    if symbol.isOrdering then .error (.orderedMask symbol)
    else .ok ⟨.text term, .pattern, isCaseSensitive⟩
  else
    .ok ⟨.text (String.ofList (unescape term.toList)), literalMode settings symbol, isCaseSensitive⟩

/-- The operand of a domain other than text. -/
def ofValue (domain : Domain) (symbol : RelationSymbol) (modifiers : Modifiers) (term : String) :
    Except TermFault Operand :=
  if isMask modifiers term then .error (.maskedValue domain)
  else if symbol.isOrdering && !domain.isOrdered then .error (.unorderedDomain symbol domain)
  else match domain.read? (trim term.toList) with
    | some v => .ok (exact v)
    | none => .error (.unreadable term domain)

/-- The operand of a term in a domain. -/
def ofTerm (settings : Settings) (domain : Domain) (symbol : RelationSymbol) (modifiers : Modifiers)
    (term : String) : Except TermFault Operand :=
  if domain.isText then ofText settings symbol modifiers term
  else ofValue domain symbol modifiers term

end Operand

end ContextualQuery
