import ContextualQuery.Query.Token
import ContextualQuery.Text.Span
import ContextualQuery.Text.Quoted
/-!
# From text to tokens

Blanks (space, tab, carriage return, line feed) separate tokens and are dropped. The file fixes

* `scan`, which takes the longest token off the front of a list of characters,
* `Lexer`, a place in a text from which tokens are taken one at a time, and
* `Lexer.items`, the list of everything that is taken: tokens, and at the first character that
  starts no token one fault, after which nothing follows.
-/

namespace ContextualQuery

/-! ## 1. Character classes -/

/-- A character between tokens. -/
def isSeparator (c : Char) : Bool := c = ' ' || c = '\t' || c = '\r' || c = '\n'

/-- A character of a word: neither a control character nor a mark of the language. -/
def isWordChar (c : Char) : Bool :=
  0x20 < c.toNat && c.toNat ≠ 0x7F && c ≠ '(' && c ≠ ')' && c ≠ '=' && c ≠ '<' && c ≠ '>'
    && c ≠ '/' && c ≠ Quoted.doubleQuote

/-! ## 2. Phrases -/

/-- The inside of a phrase and what follows its closing quote. A backslash takes the next character
with it, except the end of a line. -/
def phraseBody? : List Char → Option (List Char × List Char)
  | [] => none
  | '\\' :: c :: rest =>
    if c = '\n' then none
    else (phraseBody? rest).map fun r => ('\\' :: c :: r.1, r.2)
  | c :: rest =>
    if c = Quoted.doubleQuote then some ([], rest)
    else if c = '\\' then none
    else (phraseBody? rest).map fun r => (c :: r.1, r.2)

/-- The content of a phrase: an escaped quote is a quote, every other escape stays as it is. -/
def phraseContent : List Char → List Char
  | [] => []
  | '\\' :: c :: rest =>
    if c = Quoted.doubleQuote then c :: phraseContent rest else '\\' :: c :: phraseContent rest
  | c :: rest => c :: phraseContent rest

/-! ## 3. One token -/

/-- Takes a token off the front: the token, its characters, and what follows. -/
def scan : List Char → Option (Token × List Char × List Char)
  | '=' :: '=' :: rest => some (.relation .exact, ['=', '='], rest)
  | '=' :: rest => some (.relation .word, ['='], rest)
  | '<' :: '>' :: rest => some (.relation .notEqual, ['<', '>'], rest)
  | '<' :: '=' :: rest => some (.relation .atMost, ['<', '='], rest)
  | '<' :: rest => some (.relation .less, ['<'], rest)
  | '>' :: '=' :: rest => some (.relation .atLeast, ['>', '='], rest)
  | '>' :: rest => some (.relation .greater, ['>'], rest)
  | '(' :: rest => some (.openParen, ['('], rest)
  | ')' :: rest => some (.closeParen, [')'], rest)
  | '/' :: rest => some (.slash, ['/'], rest)
  | [] => none
  | c :: rest =>
    if c = Quoted.doubleQuote then
      (phraseBody? rest).map fun r =>
        (.phrase (String.ofList (phraseContent r.1)), c :: r.1 ++ [c], r.2)
    else if isWordChar c then
      let lexeme := c :: rest.takeWhile isWordChar
      some (.word (String.ofList lexeme), lexeme, rest.dropWhile isWordChar)
    else none

/-- The inside of a phrase, its closing quote and what follows make up the input. -/
theorem phraseBody?_append {cs body rest : List Char} (h : phraseBody? cs = some (body, rest)) :
    cs = body ++ Quoted.doubleQuote :: rest := by
  fun_induction phraseBody? cs generalizing body rest with
  | case1 => simp at h
  | case2 => simp at h
  | case3 c rest' hc ih =>
    obtain ⟨⟨b, r⟩, hr, he⟩ := Option.map_eq_some_iff.1 h
    simp only [Prod.mk.injEq] at he
    obtain ⟨rfl, rfl⟩ := he
    simp [ih hr]
  | case4 c =>
    simp only [Option.some.injEq, Prod.mk.injEq] at h
    obtain ⟨rfl, rfl⟩ := h
    simp
  | case5 => simp at h
  | case6 c rest' hne hq hb ih =>
    obtain ⟨⟨b, r⟩, hr, he⟩ := Option.map_eq_some_iff.1 h
    simp only [Prod.mk.injEq] at he
    obtain ⟨rfl, rfl⟩ := he
    simp [ih hr]

/-- The characters of the token and what follows make up the input, and there is at least one. -/
theorem scan_append {cs lexeme rest : List Char} {t : Token}
    (h : scan cs = some (t, lexeme, rest)) : cs = lexeme ++ rest ∧ lexeme ≠ [] := by
  unfold scan at h
  split at h
  case h_12 c rest' _ _ _ _ _ _ _ _ _ _ =>
    split at h
    · rename_i hc
      obtain ⟨⟨b, r⟩, hr, he⟩ := Option.map_eq_some_iff.1 h
      simp only [Prod.mk.injEq] at he
      obtain ⟨_, rfl, rfl⟩ := he
      simp [phraseBody?_append hr, hc]
    · split at h
      · simp only [Option.some.injEq, Prod.mk.injEq] at h
        obtain ⟨_, rfl, rfl⟩ := h
        simp
      · simp at h
  all_goals first
    | simp at h; done
    | (simp only [Option.some.injEq, Prod.mk.injEq] at h
       obtain ⟨_, rfl, rfl⟩ := h
       simp)

/-! ## 4. The lexer -/

/-- Why no token can be taken. -/
inductive LexicalFault
  | unterminatedPhrase (span : Span)
  | illegalCharacter (c : Char) (span : Span)
  deriving DecidableEq, Repr

namespace LexicalFault

/-- The place of the fault: an open phrase reaches to the end of the text. -/
def span : LexicalFault → Span
  | unterminatedPhrase s => s
  | illegalCharacter _ s => s

/-- The fault in words. -/
def message : LexicalFault → String
  | unterminatedPhrase _ => "unterminated quoted phrase"
  | illegalCharacter c _ => "illegal character " ++ Quoted.character c

end LexicalFault

/-- What is taken off a text: a token at its place, or a fault. -/
abbrev Item := Except LexicalFault (Located Token)

/-- A place in a text: the characters that follow, and the number of bytes before them. -/
structure Lexer where
  rest : List Char
  offset : Nat
  deriving DecidableEq, Repr

namespace Lexer

/-- The start of a text. -/
def ofText (text : String) : Lexer := ⟨text.toList, 0⟩

/-- The place after the blanks. -/
def skipSeparators (l : Lexer) : Lexer :=
  ⟨l.rest.dropWhile isSeparator, l.offset + byteLength (l.rest.takeWhile isSeparator)⟩

/-- The end of the text. -/
def atEnd (l : Lexer) : Lexer := ⟨[], l.offset + byteLength l.rest⟩

/-- The fault at a place where no token starts. -/
def faultAt (l : Lexer) (c : Char) : LexicalFault :=
  if c = Quoted.doubleQuote then .unterminatedPhrase ⟨l.offset, l.atEnd.offset⟩
  else .illegalCharacter c ⟨l.offset, l.offset + c.utf8Size⟩

/-- The next item and the place behind it; a fault is the last item. -/
def next (l : Lexer) : Option (Item × Lexer) :=
  let here := l.skipSeparators
  match here.rest with
  | [] => none
  | c :: _ =>
    match scan here.rest with
    | some (t, lexeme, rest) =>
      let stop := here.offset + byteLength lexeme
      some (.ok ⟨t, ⟨here.offset, stop⟩⟩, ⟨rest, stop⟩)
    | none => some (.error (here.faultAt c), here.atEnd)

/-- The next item; the place stays. -/
def peek (l : Lexer) : Option Item := l.next.map (·.1)

/-- Every item leaves fewer characters. -/
theorem next_shorter {l l' : Lexer} {i : Item} (h : l.next = some (i, l')) :
    l'.rest.length < l.rest.length := by
  have hsuf : (l.skipSeparators).rest.length ≤ l.rest.length :=
    (List.dropWhile_suffix (l := l.rest) isSeparator).length_le
  unfold next at h
  simp only at h
  split at h
  · simp at h
  · rename_i c cs hcs
    split at h
    · rename_i t lexeme rest hs
      obtain ⟨hcat, hne⟩ := scan_append hs
      simp only [Option.some.injEq, Prod.mk.injEq] at h
      obtain ⟨_, rfl⟩ := h
      have : 0 < lexeme.length := List.length_pos_iff.2 hne
      have hlen := congrArg List.length hcat
      simp only [List.length_append] at hlen
      simp only
      omega
    · simp only [Option.some.injEq, Prod.mk.injEq] at h
      obtain ⟨_, rfl⟩ := h
      rw [hcs] at hsuf
      simp only [atEnd, List.length_nil]
      simp at hsuf
      omega

/-- Everything that can be taken from here on. -/
def items (l : Lexer) : List Item :=
  match _h : l.next with
  | none => []
  | some (i, l') => i :: l'.items
termination_by l.rest.length
decreasing_by exact next_shorter _h

end Lexer

/-- The tokens of a text, or the fault that ends them. -/
def tokenize (text : String) : Except LexicalFault (List (Located Token)) :=
  (Lexer.ofText text).items.mapM id

end ContextualQuery
