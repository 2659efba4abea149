import ContextualQuery.Query.Vocabulary
/-!
# Tokens

A token is a word, a quoted phrase, a relation symbol or a mark. Reserved words are words; whether
one is meant as such is up to the place where it stands.
-/

namespace ContextualQuery

/-- A token of a query text. -/
inductive Token
  | phrase (content : String)
  | word (text : String)
  | relation (symbol : RelationSymbol)
  | openParen
  | closeParen
  | slash
  deriving DecidableEq, Repr

namespace Token

/-- The reserved word that the token spells; a phrase spells none. -/
def keyword? : Token → Option Keyword
  | word text => Keyword.ofWord? text
  | _ => none

/-- Whether the token is the reserved word. -/
def isKeyword (t : Token) (k : Keyword) : Bool := t.keyword? == some k

/-- Whether the token is a relation symbol. -/
def isRelation : Token → Bool
  | relation _ => true
  | _ => false

/-- Whether the token is a word or a phrase. -/
def isText : Token → Bool
  | word _ | phrase _ => true
  | _ => false

/-- Whether the token is a word. -/
def isWord : Token → Bool
  | word _ => true
  | _ => false

/-- Whether the token may be a whole filter of its own: a phrase, or a word that is not reserved. -/
def isBareTerm : Token → Bool
  | phrase _ => true
  | word text => (Keyword.ofWord? text).isNone
  | _ => false

/-- The token as a message shows it. -/
def describe : Token → String
  | phrase content => "phrase \"" ++ content ++ "\""
  | word text =>
    if (Keyword.ofWord? text).isSome then "keyword '" ++ text ++ "'" else "'" ++ text ++ "'"
  | relation symbol => "'" ++ symbol.spelling ++ "'"
  | openParen => "'('"
  | closeParen => "')'"
  | slash => "'/'"

end Token

end ContextualQuery
