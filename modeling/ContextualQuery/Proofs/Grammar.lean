import ContextualQuery.Query.Filter
import ContextualQuery.Query.Token
/-!
# The grammar of filters

The grammar says which lists of tokens are filters, and what they mean. Its derivations are data:

* `Outline`, `QueryOutline`: what a filter and a query say, whatever places they were written at;
* `Derivation`: the derivations of filters, a family over the categories of the grammar, each with
  the tokens it derives, how deep its parentheses nest, and the outline that is read off it;
* `Sentence`: the sentences of the written grammar, which is wider at one place; every derivation is
  a sentence;
* `Sentence.unique`, `Derivation.unique`: tokens belong to one sentence at most, and so have one
  derivation at most;
* `deepest_tokens`: how deep a derivation nests is seen from its tokens.
-/

namespace ContextualQuery

/-! ## 1. Outlines -/

/-- A filter without its places. -/
inductive Outline
  | combined (op : Connective) (children : List Outline)
  | clause (field : String) (symbol : RelationSymbol) (term : String) (modifiers : Modifiers)

/-- One outline from the parts of a chain: a single part stands for itself. -/
def Outline.chain (op : Connective) (first : Outline) : List Outline → Outline
  | [] => first
  | rest => .combined op (first :: rest)

/-- The outline of a search clause. -/
def SearchClause.outline (c : SearchClause) : Outline :=
  .clause c.field.value c.symbol.value c.term.value c.modifiers

namespace Filter

mutual

/-- The outline of a filter. -/
def outline : Filter → Outline
  | combined op children _ => .combined op (outlines children)
  | clause c => c.outline

/-- The outlines of several filters. -/
def outlines : List Filter → List Outline
  | [] => []
  | f :: rest => outline f :: outlines rest

end

@[simp] theorem outline_clause (c : SearchClause) : (clause c).outline = c.outline := by
  rw [outline]

@[simp] theorem outline_combined (op : Connective) (fs : List Filter) (s : Span) :
    (combined op fs s).outline = .combined op (outlines fs) := by
  rw [outline]

@[simp] theorem outlines_nil : outlines [] = [] := by
  rw [outlines]

@[simp] theorem outlines_cons (f : Filter) (fs : List Filter) :
    outlines (f :: fs) = f.outline :: outlines fs := by
  rw [outlines]

@[simp] theorem outline_negation (word : Span) (f : Filter) :
    (negation word f).outline = .combined .not [f.outline] := by
  simp only [negation, outline_combined, outlines_cons, outlines_nil]

@[simp] theorem outline_chain (op : Connective) (f : Filter) (fs : List Filter) :
    (chain op f fs).outline = .chain op f.outline (outlines fs) := by
  cases fs with
  | nil => simp only [chain, outlines_nil, Outline.chain]
  | cons g fs => simp only [chain, outline_combined, outlines_cons, Outline.chain]

end Filter

/-- A query without its places: the filter, and the keys to sort by with their directions. -/
structure QueryOutline where
  filter : Option Outline
  sort : List (String × Direction)

/-- The outline of a sort clause. -/
def SortClause.outline (c : SortClause) : String × Direction := (c.field.value, c.direction)

/-- The outline of a query. -/
def Query.outline (q : Query) : QueryOutline :=
  ⟨q.filter.map Filter.outline, q.sort.map SortClause.outline⟩

/-! ## 2. Words with a meaning -/

/-- A word that spells a reserved word. -/
structure Reserved (k : Keyword) where
  text : String
  spells : Keyword.ofWord? text = some k

/-- A word that is not reserved. -/
structure IndexWord where
  text : String
  free : Keyword.ofWord? text = none

/-- A word that names a modifier. -/
structure ModifierWord where
  text : String
  modifier : Modifier
  named : Modifier.ofName? text = some modifier

/-- A word that names a direction. -/
structure DirectionWord where
  text : String
  direction : Direction
  named : Direction.ofName? text = some direction

theorem Reserved.eq_of_text {k : Keyword} {a b : Reserved k} (h : a.text = b.text) : a = b := by
  cases a
  cases b
  cases h
  rfl

theorem IndexWord.eq_of_text {a b : IndexWord} (h : a.text = b.text) : a = b := by
  cases a
  cases b
  cases h
  rfl

theorem ModifierWord.eq_of_text {a b : ModifierWord} (h : a.text = b.text) : a = b := by
  obtain ⟨t, m, hm⟩ := a
  obtain ⟨u, n, hn⟩ := b
  cases h
  cases hm.symm.trans hn
  rfl

theorem DirectionWord.eq_of_text {a b : DirectionWord} (h : a.text = b.text) : a = b := by
  obtain ⟨t, m, hm⟩ := a
  obtain ⟨u, n, hn⟩ := b
  cases h
  cases hm.symm.trans hn
  rfl

/-- Another reserved word spells another word. -/
theorem Reserved.isKeyword_eq {k : Keyword} (w : Reserved k) (k' : Keyword) :
    (Token.word w.text).isKeyword k' = decide (k = k') := by
  simp only [Token.isKeyword, Token.keyword?, w.spells]
  by_cases h : k = k'
  · simp [h]
  · simp [h]

theorem Reserved.isKeyword_self {k : Keyword} (w : Reserved k) :
    (Token.word w.text).isKeyword k = true := by
  rw [w.isKeyword_eq]
  exact decide_eq_true rfl

theorem IndexWord.isKeyword_eq (w : IndexWord) (k : Keyword) :
    (Token.word w.text).isKeyword k = false := by
  simp only [Token.isKeyword, Token.keyword?, w.free]
  rfl

/-- What is a reserved word is a word that spells it. -/
theorem Reserved.of_isKeyword {k : Keyword} {t : Token} (h : t.isKeyword k = true) :
    ∃ w : Reserved k, t = .word w.text := by
  cases t with
  | word text =>
    have hk : Keyword.ofWord? text = some k := by
      simpa [Token.isKeyword, Token.keyword?] using h
    exact ⟨⟨text, hk⟩, rfl⟩
  | _ => cases h

/-! ## 3. Search clauses -/

/-- A search term: any word, reserved or not, or a phrase. -/
inductive TermWord
  | word (text : String)
  | phrase (content : String)

namespace TermWord

/-- The token of a search term. -/
def token : TermWord → Token
  | word text => .word text
  | phrase content => .phrase content

/-- The text that is searched for. -/
def text : TermWord → String
  | word text => text
  | phrase content => content

theorem eq_of_token {a b : TermWord} (h : a.token = b.token) : a = b := by
  cases a with
  | word s =>
    cases b with
    | word t => cases h; rfl
    | phrase t => cases h
  | phrase s =>
    cases b with
    | word t => cases h
    | phrase t => cases h; rfl

end TermWord

/-- The tokens of modifiers, each behind a slash. -/
def modifierTokens : List ModifierWord → List Token
  | [] => []
  | m :: rest => .slash :: .word m.text :: modifierTokens rest

/-- No modifier stands together with its opposite. -/
def Compatible (ms : List ModifierWord) : Prop :=
  ∀ a ∈ ms, ∀ b ∈ ms, a.modifier ≠ b.modifier.opposite

theorem compatible_nil : Compatible [] := List.forall_mem_nil _

/-- The derivation of a search clause: modifiers may stand behind the symbol and behind the term. -/
structure ClauseDerivation where
  field : IndexWord
  symbol : RelationSymbol
  inner : List ModifierWord
  term : TermWord
  outer : List ModifierWord
  compatible : Compatible (inner ++ outer)

namespace ClauseDerivation

/-- The tokens of the clause. -/
def tokens (c : ClauseDerivation) : List Token :=
  .word c.field.text :: .relation c.symbol ::
    (modifierTokens c.inner ++ c.term.token :: modifierTokens c.outer)

/-- The outline of the clause. -/
def outline (c : ClauseDerivation) : Outline :=
  .clause c.field.text c.symbol c.term.text
    (.ofList ((c.inner ++ c.outer).map (·.modifier)))

end ClauseDerivation

/-! ## 4. Filters -/

/-- The categories of the grammar of filters. -/
inductive Category
  | disjunction
  | disjuncts
  | conjunction
  | conjuncts
  | negated
  | term
  deriving DecidableEq

/-- What is read off a derivation: one outline, or those of the further parts of a chain. -/
def Category.Reading : Category → Type
  | disjuncts | conjuncts => List Outline
  | _ => Outline

/-- The derivations of filters. A chain is its first part and the further parts; the operand of a
`not` between two parts is a term, that of a leading `not` too. -/
inductive Derivation : Category → Type
  | disjunction (first : Derivation .conjunction) (rest : Derivation .disjuncts) :
      Derivation .disjunction
  | noDisjunct : Derivation .disjuncts
  | disjunct (word : Reserved .or) (part : Derivation .conjunction)
      (rest : Derivation .disjuncts) : Derivation .disjuncts
  | conjunction (first : Derivation .negated) (rest : Derivation .conjuncts) :
      Derivation .conjunction
  | noConjunct : Derivation .conjuncts
  | conjunct (word : Reserved .and) (part : Derivation .negated)
      (rest : Derivation .conjuncts) : Derivation .conjuncts
  | exception (word : Reserved .not) (part : Derivation .term)
      (rest : Derivation .conjuncts) : Derivation .conjuncts
  | plain (part : Derivation .term) : Derivation .negated
  | negated (word : Reserved .not) (part : Derivation .term) : Derivation .negated
  | clause (c : ClauseDerivation) : Derivation .term
  | group (inner : Derivation .disjunction) : Derivation .term

namespace Derivation

/-- The tokens that are derived. -/
def tokens : {n : Category} → Derivation n → List Token
  | _, disjunction first rest => first.tokens ++ rest.tokens
  | _, noDisjunct => []
  | _, disjunct word part rest => .word word.text :: (part.tokens ++ rest.tokens)
  | _, conjunction first rest => first.tokens ++ rest.tokens
  | _, noConjunct => []
  | _, conjunct word part rest => .word word.text :: (part.tokens ++ rest.tokens)
  | _, exception word part rest => .word word.text :: (part.tokens ++ rest.tokens)
  | _, plain part => part.tokens
  | _, negated word part => .word word.text :: part.tokens
  | _, clause c => c.tokens
  | _, group inner => .openParen :: (inner.tokens ++ [.closeParen])

/-- How deep the parentheses nest. -/
def nesting : {n : Category} → Derivation n → Nat
  | _, disjunction first rest => max first.nesting rest.nesting
  | _, noDisjunct => 0
  | _, disjunct _ part rest => max part.nesting rest.nesting
  | _, conjunction first rest => max first.nesting rest.nesting
  | _, noConjunct => 0
  | _, conjunct _ part rest => max part.nesting rest.nesting
  | _, exception _ part rest => max part.nesting rest.nesting
  | _, plain part => part.nesting
  | _, negated _ part => part.nesting
  | _, clause _ => 0
  | _, group inner => inner.nesting + 1

/-- What the derivation says: a chain of several parts is one node, a single part stands for itself,
and a group for what is inside it. -/
def reading : {n : Category} → Derivation n → n.Reading
  | _, disjunction first rest => Outline.chain .or first.reading rest.reading
  | _, noDisjunct => []
  | _, disjunct _ part rest => List.cons (α := Outline) part.reading rest.reading
  | _, conjunction first rest => Outline.chain .and first.reading rest.reading
  | _, noConjunct => []
  | _, conjunct _ part rest => List.cons (α := Outline) part.reading rest.reading
  | _, exception _ part rest => List.cons (.combined .not [part.reading]) rest.reading
  | _, plain part => part.reading
  | _, negated _ part => .combined .not [part.reading]
  | _, clause c => c.outline
  | _, group inner => inner.reading

end Derivation

/-! ## 5. The written grammar

As the grammar is written down, the operand of a `not` between two parts may itself be negated, like
that of an `and`. What it derives are the sentences, and every derivation is one of them. -/

/-- The sentences of the written grammar, over the categories of the filters. -/
inductive Sentence : Category → Type
  | disjunction (first : Sentence .conjunction) (rest : Sentence .disjuncts) :
      Sentence .disjunction
  | noDisjunct : Sentence .disjuncts
  | disjunct (word : Reserved .or) (part : Sentence .conjunction)
      (rest : Sentence .disjuncts) : Sentence .disjuncts
  | conjunction (first : Sentence .negated) (rest : Sentence .conjuncts) :
      Sentence .conjunction
  | noConjunct : Sentence .conjuncts
  | conjunct (word : Reserved .and) (part : Sentence .negated)
      (rest : Sentence .conjuncts) : Sentence .conjuncts
  | exception (word : Reserved .not) (part : Sentence .negated)
      (rest : Sentence .conjuncts) : Sentence .conjuncts
  | plain (part : Sentence .term) : Sentence .negated
  | negated (word : Reserved .not) (part : Sentence .term) : Sentence .negated
  | clause (c : ClauseDerivation) : Sentence .term
  | group (inner : Sentence .disjunction) : Sentence .term

namespace Sentence

/-- The tokens of the sentence. -/
def tokens : {n : Category} → Sentence n → List Token
  | _, disjunction first rest => first.tokens ++ rest.tokens
  | _, noDisjunct => []
  | _, disjunct word part rest => .word word.text :: (part.tokens ++ rest.tokens)
  | _, conjunction first rest => first.tokens ++ rest.tokens
  | _, noConjunct => []
  | _, conjunct word part rest => .word word.text :: (part.tokens ++ rest.tokens)
  | _, exception word part rest => .word word.text :: (part.tokens ++ rest.tokens)
  | _, plain part => part.tokens
  | _, negated word part => .word word.text :: part.tokens
  | _, clause c => c.tokens
  | _, group inner => .openParen :: (inner.tokens ++ [.closeParen])

/-- How deep its parentheses nest. -/
def nesting : {n : Category} → Sentence n → Nat
  | _, disjunction first rest => max first.nesting rest.nesting
  | _, noDisjunct => 0
  | _, disjunct _ part rest => max part.nesting rest.nesting
  | _, conjunction first rest => max first.nesting rest.nesting
  | _, noConjunct => 0
  | _, conjunct _ part rest => max part.nesting rest.nesting
  | _, exception _ part rest => max part.nesting rest.nesting
  | _, plain part => part.nesting
  | _, negated _ part => part.nesting
  | _, clause _ => 0
  | _, group inner => inner.nesting + 1

/-- What the sentence says: a part behind a `not` is a part of the chain, negated. -/
def reading : {n : Category} → Sentence n → n.Reading
  | _, disjunction first rest => Outline.chain .or first.reading rest.reading
  | _, noDisjunct => []
  | _, disjunct _ part rest => List.cons (α := Outline) part.reading rest.reading
  | _, conjunction first rest => Outline.chain .and first.reading rest.reading
  | _, noConjunct => []
  | _, conjunct _ part rest => List.cons (α := Outline) part.reading rest.reading
  | _, exception _ part rest => List.cons (.combined .not [part.reading]) rest.reading
  | _, plain part => part.reading
  | _, negated _ part => .combined .not [part.reading]
  | _, clause c => c.outline
  | _, group inner => inner.reading

end Sentence

namespace Derivation

/-- The derivation as a sentence. -/
def sentence : {n : Category} → Derivation n → Sentence n
  | _, disjunction first rest => .disjunction first.sentence rest.sentence
  | _, noDisjunct => .noDisjunct
  | _, disjunct word part rest => .disjunct word part.sentence rest.sentence
  | _, conjunction first rest => .conjunction first.sentence rest.sentence
  | _, noConjunct => .noConjunct
  | _, conjunct word part rest => .conjunct word part.sentence rest.sentence
  | _, exception word part rest => .exception word (.plain part.sentence) rest.sentence
  | _, plain part => .plain part.sentence
  | _, negated word part => .negated word part.sentence
  | _, clause c => .clause c
  | _, group inner => .group inner.sentence

variable {n : Category}

@[simp] theorem tokens_sentence (d : Derivation n) : d.sentence.tokens = d.tokens := by
  induction d <;> simp only [sentence, Sentence.tokens, tokens, *]

@[simp] theorem nesting_sentence (d : Derivation n) : d.sentence.nesting = d.nesting := by
  induction d <;> simp only [sentence, Sentence.nesting, nesting, *]

@[simp] theorem reading_sentence (d : Derivation n) : d.sentence.reading = d.reading := by
  induction d <;> simp only [sentence, Sentence.reading, reading, *] <;> rfl

/-- Different derivations are different sentences. -/
theorem sentence_injective {d d' : Derivation n} (h : d.sentence = d'.sentence) : d = d' := by
  induction d with
  | disjunction first rest ihf ihr =>
    cases d' with
    | disjunction first' rest' =>
      rw [sentence, sentence, Sentence.disjunction.injEq] at h
      rw [ihf h.1, ihr h.2]
  | noDisjunct =>
    cases d' with
    | noDisjunct => rfl
    | disjunct => cases h
  | disjunct word part rest ihp ihr =>
    cases d' with
    | noDisjunct => cases h
    | disjunct word' part' rest' =>
      rw [sentence, sentence, Sentence.disjunct.injEq] at h
      rw [h.1, ihp h.2.1, ihr h.2.2]
  | conjunction first rest ihf ihr =>
    cases d' with
    | conjunction first' rest' =>
      rw [sentence, sentence, Sentence.conjunction.injEq] at h
      rw [ihf h.1, ihr h.2]
  | noConjunct =>
    cases d' with
    | noConjunct => rfl
    | conjunct => cases h
    | exception => cases h
  | conjunct word part rest ihp ihr =>
    cases d' with
    | conjunct word' part' rest' =>
      rw [sentence, sentence, Sentence.conjunct.injEq] at h
      rw [h.1, ihp h.2.1, ihr h.2.2]
    | noConjunct => cases h
    | exception => cases h
  | exception word part rest ihp ihr =>
    cases d' with
    | exception word' part' rest' =>
      rw [sentence, sentence, Sentence.exception.injEq, Sentence.plain.injEq] at h
      rw [h.1, ihp h.2.1, ihr h.2.2]
    | noConjunct => cases h
    | conjunct => cases h
  | plain part ih =>
    cases d' with
    | plain part' => rw [ih (Sentence.plain.inj h)]
    | negated => cases h
  | negated word part ih =>
    cases d' with
    | plain => cases h
    | negated word' part' =>
      rw [sentence, sentence, Sentence.negated.injEq] at h
      rw [h.1, ih h.2]
  | clause c =>
    cases d' with
    | clause c' => rw [Sentence.clause.inj h]
    | group => cases h
  | group inner ih =>
    cases d' with
    | clause => cases h
    | group inner' => rw [ih (Sentence.group.inj h)]

end Derivation

/-! ## 6. Sentences are unique -/

/-- The tokens that would belong to what stands before them. -/
def Category.continues : Category → Token → Bool
  | .term, t | .negated, t => t == .slash
  | .conjunction, t | .conjuncts, t => t == .slash || t.isKeyword .and || t.isKeyword .not
  | .disjunction, t | .disjuncts, t =>
    t == .slash || t.isKeyword .and || t.isKeyword .not || t.isKeyword .or

/-- No token follows that would belong to what stands before. -/
def Ends (n : Category) (ts : List Token) : Prop :=
  ∀ t rest, ts = t :: rest → n.continues t = false

theorem ends_nil (n : Category) : Ends n [] := fun _ _ h => by cases h

theorem ends_cons {n : Category} {t : Token} (ts : List Token) (h : n.continues t = false) :
    Ends n (t :: ts) := by
  intro u rest he
  cases he
  exact h

theorem Ends.no_slash {n : Category} {ts : List Token} (h : Ends n ts) (rest : List Token) :
    ts ≠ .slash :: rest := by
  intro he
  have hs := h _ _ he
  cases n <;> simp [Category.continues] at hs

theorem ends_closeParen (n : Category) (ts : List Token) : Ends n (.closeParen :: ts) :=
  ends_cons ts (by cases n <;> rfl)

/-- What ends a category ends a term. -/
theorem Category.not_continues_term {n : Category} {t : Token} (h : n.continues t = false) :
    Category.term.continues t = false := by
  cases n <;> simp_all [Category.continues]

theorem Category.not_continues_conjunction {t : Token}
    (h : Category.disjunction.continues t = false) :
    Category.conjunction.continues t = false := by
  simp only [Category.continues, Bool.or_eq_false_iff] at h ⊢
  exact h.1

theorem Ends.term {ts : List Token} {n : Category} (h : Ends n ts) : Ends .term ts :=
  fun t rest he => Category.not_continues_term (h t rest he)

theorem Ends.conjunction {ts : List Token} (h : Ends .disjunction ts) :
    Ends .conjunction ts :=
  fun t rest he => Category.not_continues_conjunction (h t rest he)

/-- What follows a part of an `or` chain ends the part. -/
theorem Sentence.ends_disjuncts (d : Sentence .disjuncts) {r : List Token}
    (h : Ends .disjunction r) : Ends .conjunction (d.tokens ++ r) := by
  cases d with
  | noDisjunct => exact h.conjunction
  | disjunct word part rest =>
    refine ends_cons _ ?_
    simp [Category.continues, word.isKeyword_eq]

/-- What follows a part of an `and` chain ends the part. -/
theorem Sentence.ends_conjuncts (d : Sentence .conjuncts) {r : List Token}
    (h : Ends .conjunction r) : Ends .term (d.tokens ++ r) := by
  cases d with
  | noConjunct => exact h.term
  | conjunct => exact ends_cons _ rfl
  | exception => exact ends_cons _ rfl

theorem modifierTokens_unique {ms ns : List ModifierWord} {r r' : List Token}
    (h : modifierTokens ms ++ r = modifierTokens ns ++ r') (hr : ∀ rest, r ≠ .slash :: rest)
    (hr' : ∀ rest, r' ≠ .slash :: rest) : ms = ns ∧ r = r' := by
  induction ms generalizing ns with
  | nil =>
    cases ns with
    | nil => exact ⟨rfl, h⟩
    | cons n ns => exact absurd h (hr _)
  | cons m ms ih =>
    cases ns with
    | nil => exact absurd h.symm (hr' _)
    | cons n ns =>
      simp only [modifierTokens, List.cons_append, List.cons.injEq, true_and,
        Token.word.injEq] at h
      obtain ⟨rfl, rfl⟩ := ih h.2
      rw [ModifierWord.eq_of_text h.1]
      exact ⟨rfl, rfl⟩

theorem ClauseDerivation.unique {c c' : ClauseDerivation} {r r' : List Token}
    (h : c.tokens ++ r = c'.tokens ++ r') (hr : Ends .term r) (hr' : Ends .term r') :
    c = c' ∧ r = r' := by
  obtain ⟨f, s, ms, t, ns, hc⟩ := c
  obtain ⟨f', s', ms', t', ns', hc'⟩ := c'
  simp only [ClauseDerivation.tokens, List.cons_append, List.append_assoc, List.cons.injEq,
    Token.word.injEq, Token.relation.injEq] at h
  obtain ⟨hf, rfl, h⟩ := h
  -- the term is no slash, so the modifiers before it end where it stands
  have hterm : ∀ (t : TermWord) (us rest : List Token), t.token :: us ≠ .slash :: rest := by
    intro t us rest he
    cases t <;> cases he
  obtain ⟨rfl, htail⟩ := modifierTokens_unique h (hterm t _) (hterm t' _)
  rw [List.cons.injEq] at htail
  obtain ⟨rfl, rfl⟩ := modifierTokens_unique htail.2 hr.no_slash hr'.no_slash
  cases IndexWord.eq_of_text hf
  cases TermWord.eq_of_token htail.1
  exact ⟨rfl, rfl⟩

/-- A reserved word that would be read on does not begin what ends a category. -/
theorem Ends.ne_reserved {n : Category} {k : Keyword} {r : List Token} (h : Ends n r)
    (w : Reserved k) (hk : n.continues (.word w.text) = true) (us : List Token) :
    r ≠ .word w.text :: us := by
  intro he
  rw [h _ _ he] at hk
  cases hk

theorem Reserved.continues_disjuncts (w : Reserved .or) :
    Category.continues .disjuncts (.word w.text) = true := by
  simp [Category.continues, w.isKeyword_eq]

theorem Reserved.continues_conjuncts {k : Keyword} (w : Reserved k) (hk : k = .and ∨ k = .not) :
    Category.continues .conjuncts (.word w.text) = true := by
  rcases hk with rfl | rfl <;> simp [Category.continues, w.isKeyword_eq]

/-- Two reserved words with one text are the same. -/
theorem Reserved.keyword_eq {k k' : Keyword} {w : Reserved k} {w' : Reserved k'}
    (h : w.text = w'.text) : k = k' := by
  have hk := w.spells
  rw [h, w'.spells] at hk
  exact (Option.some.inj hk).symm

theorem IndexWord.text_ne {k : Keyword} (w : IndexWord) (w' : Reserved k) : w.text ≠ w'.text := by
  intro h
  have hk := w.free
  rw [h, w'.spells] at hk
  cases hk

/-- A part that is not negated does not begin with `not`. -/
theorem Sentence.term_ne_not (d : Sentence .term) (w : Reserved .not) (r us : List Token) :
    d.tokens ++ r ≠ .word w.text :: us := by
  intro h
  cases d with
  | clause c =>
    simp only [tokens, ClauseDerivation.tokens, List.cons_append, List.cons.injEq,
      Token.word.injEq] at h
    exact c.field.text_ne w h.1
  | group inner => cases h

/-- What begins with a reserved word has one such word, and one list of tokens behind it. -/
theorem Reserved.of_cons_eq {k : Keyword} {w w' : Reserved k} {ts us : List Token}
    (h : Token.word w.text :: ts = .word w'.text :: us) : w = w' ∧ ts = us := by
  rw [List.cons.injEq, Token.word.injEq] at h
  exact ⟨Reserved.eq_of_text h.1, h.2⟩

/-- If tokens tell what the first of two parts is and where it ends, and likewise the second, they tell both. -/
theorem Sentence.of_append_eq {m n : Category} {p p' : Sentence m} {q q' : Sentence n}
    {r r' : List Token} (h : p.tokens ++ q.tokens ++ r = p'.tokens ++ q'.tokens ++ r')
    (hp : p.tokens ++ (q.tokens ++ r) = p'.tokens ++ (q'.tokens ++ r') →
      p = p' ∧ q.tokens ++ r = q'.tokens ++ r')
    (hq : q.tokens ++ r = q'.tokens ++ r' → q = q' ∧ r = r') : p = p' ∧ q = q' ∧ r = r' := by
  rw [List.append_assoc, List.append_assoc] at h
  obtain ⟨hfirst, htail⟩ := hp h
  exact ⟨hfirst, hq htail⟩

/-- **Tokens belong to one sentence at most**, also in front of others that end the category. -/
theorem Sentence.unique {n : Category} (d d' : Sentence n) {r r' : List Token}
    (h : d.tokens ++ r = d'.tokens ++ r') (hr : Ends n r) (hr' : Ends n r') :
    d = d' ∧ r = r' := by
  induction d generalizing r r' with
  | disjunction first rest ihf ihr =>
    cases d' with
    | disjunction first' rest' =>
      obtain ⟨rfl, rfl, rfl⟩ := of_append_eq h
        (fun h => ihf first' h (rest.ends_disjuncts hr) (rest'.ends_disjuncts hr'))
        (fun h => ihr rest' h hr hr')
      exact ⟨rfl, rfl⟩
  | noDisjunct =>
    cases d' with
    | noDisjunct => exact ⟨rfl, h⟩
    | disjunct w part rest => exact absurd h (hr.ne_reserved w w.continues_disjuncts _)
  | disjunct w part rest ihp ihr =>
    cases d' with
    | noDisjunct => exact absurd h.symm (hr'.ne_reserved w w.continues_disjuncts _)
    | disjunct w' part' rest' =>
      obtain ⟨rfl, hparts⟩ := Reserved.of_cons_eq h
      obtain ⟨rfl, rfl, rfl⟩ := of_append_eq hparts
        (fun h => ihp part' h (rest.ends_disjuncts hr) (rest'.ends_disjuncts hr'))
        (fun h => ihr rest' h hr hr')
      exact ⟨rfl, rfl⟩
  | conjunction first rest ihf ihr =>
    cases d' with
    | conjunction first' rest' =>
      obtain ⟨rfl, rfl, rfl⟩ := of_append_eq h
        (fun h => ihf first' h (rest.ends_conjuncts hr) (rest'.ends_conjuncts hr'))
        (fun h => ihr rest' h hr hr')
      exact ⟨rfl, rfl⟩
  | noConjunct =>
    cases d' with
    | noConjunct => exact ⟨rfl, h⟩
    | conjunct w => exact absurd h (hr.ne_reserved w (w.continues_conjuncts (.inl rfl)) _)
    | exception w => exact absurd h (hr.ne_reserved w (w.continues_conjuncts (.inr rfl)) _)
  | conjunct w part rest ihp ihr =>
    cases d' with
    | noConjunct =>
      exact absurd h.symm (hr'.ne_reserved w (w.continues_conjuncts (.inl rfl)) _)
    | conjunct w' part' rest' =>
      obtain ⟨rfl, hparts⟩ := Reserved.of_cons_eq h
      obtain ⟨rfl, rfl, rfl⟩ := of_append_eq hparts
        (fun h => ihp part' h (rest.ends_conjuncts hr) (rest'.ends_conjuncts hr'))
        (fun h => ihr rest' h hr hr')
      exact ⟨rfl, rfl⟩
    | exception w' part' rest' =>
      simp only [tokens, List.cons_append, List.cons.injEq, Token.word.injEq] at h
      cases Reserved.keyword_eq h.1
  | exception w part rest ihp ihr =>
    cases d' with
    | noConjunct =>
      exact absurd h.symm (hr'.ne_reserved w (w.continues_conjuncts (.inr rfl)) _)
    | conjunct w' part' rest' =>
      simp only [tokens, List.cons_append, List.cons.injEq, Token.word.injEq] at h
      cases Reserved.keyword_eq h.1
    | exception w' part' rest' =>
      obtain ⟨rfl, hparts⟩ := Reserved.of_cons_eq h
      obtain ⟨rfl, rfl, rfl⟩ := of_append_eq hparts
        (fun h => ihp part' h (rest.ends_conjuncts hr) (rest'.ends_conjuncts hr'))
        (fun h => ihr rest' h hr hr')
      exact ⟨rfl, rfl⟩
  | plain part ih =>
    cases d' with
    | plain part' =>
      obtain ⟨rfl, rfl⟩ := ih part' h hr hr'
      exact ⟨rfl, rfl⟩
    | negated w part' => exact absurd h (part.term_ne_not w r _)
  | negated w part ih =>
    cases d' with
    | plain part' => exact absurd h.symm (part'.term_ne_not w r' _)
    | negated w' part' =>
      obtain ⟨rfl, hpart⟩ := Reserved.of_cons_eq h
      obtain ⟨rfl, rfl⟩ := ih part' hpart hr hr'
      exact ⟨rfl, rfl⟩
  | clause c =>
    cases d' with
    | clause c' =>
      obtain ⟨rfl, rfl⟩ := ClauseDerivation.unique h hr hr'
      exact ⟨rfl, rfl⟩
    | group inner => cases h
  | group inner ih =>
    cases d' with
    | clause c => cases h
    | group inner' =>
      simp only [tokens, List.cons_append, List.append_assoc, List.cons.injEq, true_and] at h
      obtain ⟨rfl, htail⟩ := ih inner' h (ends_closeParen _ _) (ends_closeParen _ _)
      rw [List.nil_append, List.nil_append, List.cons.injEq] at htail
      exact ⟨rfl, htail.2⟩

/-- What follows a part of an `or` chain ends the part. -/
theorem Derivation.ends_disjuncts (d : Derivation .disjuncts) {r : List Token}
    (h : Ends .disjunction r) : Ends .conjunction (d.tokens ++ r) :=
  d.tokens_sentence ▸ d.sentence.ends_disjuncts h

/-- What follows a part of an `and` chain ends the part. -/
theorem Derivation.ends_conjuncts (d : Derivation .conjuncts) {r : List Token}
    (h : Ends .conjunction r) : Ends .term (d.tokens ++ r) :=
  d.tokens_sentence ▸ d.sentence.ends_conjuncts h

/-- **Tokens have one derivation at most**, also in front of others that end the category. -/
theorem Derivation.unique {n : Category} (d d' : Derivation n) {r r' : List Token}
    (h : d.tokens ++ r = d'.tokens ++ r') (hr : Ends n r) (hr' : Ends n r') :
    d = d' ∧ r = r' := by
  rw [← d.tokens_sentence, ← d'.tokens_sentence] at h
  obtain ⟨hs, rfl⟩ := d.sentence.unique d'.sentence h hr hr'
  exact ⟨Derivation.sentence_injective hs, rfl⟩

/-! ## 7. Nesting, seen from the tokens -/

/-- The greatest number of parentheses open at once in a list of tokens that starts with `opened`
of them open. -/
def deepest (opened : Nat) : List Token → Nat
  | [] => opened
  | .openParen :: rest => deepest (opened + 1) rest
  | .closeParen :: rest => max opened (deepest (opened - 1) rest)
  | _ :: rest => deepest opened rest

theorem le_deepest (opened : Nat) (ts : List Token) : opened ≤ deepest opened ts := by
  fun_induction deepest opened ts with
  | case1 => exact Nat.le_refl _
  | case2 _ _ ih => omega
  | case3 => exact Nat.le_max_left _ _
  | case4 _ _ _ _ _ ih => exact ih

theorem deepest_word (opened : Nat) (s : String) (ts : List Token) :
    deepest opened (.word s :: ts) = deepest opened ts := by
  rw [deepest] <;> simp

theorem deepest_modifierTokens (opened : Nat) (ms : List ModifierWord) (ts : List Token) :
    deepest opened (modifierTokens ms ++ ts) = deepest opened ts := by
  induction ms with
  | nil => rfl
  | cons m ms ih =>
    rw [modifierTokens, List.cons_append, List.cons_append, deepest, deepest_word, ih] <;> simp

theorem ClauseDerivation.deepest_tokens (c : ClauseDerivation) (opened : Nat) (ts : List Token) :
    deepest opened (c.tokens ++ ts) = deepest opened ts := by
  have hterm : ∀ us, deepest opened (c.term.token :: us) = deepest opened us := by
    intro us
    cases c.term <;> rw [TermWord.token, deepest] <;> simp
  rw [ClauseDerivation.tokens, List.cons_append, deepest_word, List.cons_append, deepest,
    List.append_assoc, deepest_modifierTokens, List.cons_append, hterm, deepest_modifierTokens]
    <;> simp

/-- **How deep a derivation nests is seen from its tokens.** -/
theorem Derivation.deepest_tokens {n : Category} (d : Derivation n) (opened : Nat)
    (ts : List Token) :
    deepest opened (d.tokens ++ ts) = max (opened + d.nesting) (deepest opened ts) := by
  have hle := le_deepest opened ts
  induction d generalizing opened ts with
  | disjunction first rest ihf ihr =>
    rw [tokens, List.append_assoc, ihf _ _ (le_deepest _ _), ihr _ _ hle, nesting]
    omega
  | noDisjunct =>
    rw [tokens, List.nil_append, nesting]
    omega
  | disjunct w part rest ihp ihr =>
    rw [tokens, List.cons_append, deepest_word, List.append_assoc, ihp _ _ (le_deepest _ _),
      ihr _ _ hle, nesting]
    omega
  | conjunction first rest ihf ihr =>
    rw [tokens, List.append_assoc, ihf _ _ (le_deepest _ _), ihr _ _ hle, nesting]
    omega
  | noConjunct =>
    rw [tokens, List.nil_append, nesting]
    omega
  | conjunct w part rest ihp ihr =>
    rw [tokens, List.cons_append, deepest_word, List.append_assoc, ihp _ _ (le_deepest _ _),
      ihr _ _ hle, nesting]
    omega
  | exception w part rest ihp ihr =>
    rw [tokens, List.cons_append, deepest_word, List.append_assoc, ihp _ _ (le_deepest _ _),
      ihr _ _ hle, nesting]
    omega
  | plain part ih => rw [tokens, ih _ _ hle, nesting]
  | negated w part ih => rw [tokens, List.cons_append, deepest_word, ih _ _ hle, nesting]
  | clause c =>
    rw [tokens, c.deepest_tokens, nesting]
    omega
  | group inner ih =>
    rw [tokens, List.cons_append, deepest, List.append_assoc, ih _ _ (le_deepest _ _),
      List.cons_append, List.nil_append, deepest, nesting, Nat.add_sub_cancel]
    omega

end ContextualQuery
