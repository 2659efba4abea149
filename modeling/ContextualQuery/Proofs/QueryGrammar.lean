import ContextualQuery.Proofs.Grammar
/-!
# The grammar of queries

A query is a filter, a lone term that stands for none, or nothing, and behind it a sort specification:

* `QueryDerivation`: the derivations of queries, and `QueryDerivation.unique`: tokens have one at most;
* `QuerySentence`: the sentences of the written grammar that are queries, which every derivation is;
* `QuerySentence.unique`: tokens belong to one sentence at most;
* `QueryDerivation.deepest_tokens`: how deep a derivation nests is seen from its tokens.
-/

namespace ContextualQuery

/-! ## 1. Filters of queries -/

/-- The filter of a query: none, a lone term that stands for none, or a filter. -/
inductive FilterPart
  | absent
  | lone (t : Token) (bare : t.isBareTerm = true)
  | filter (d : Derivation .disjunction)

/-- The filter of a query of the written grammar. -/
inductive SentencePart
  | absent
  | lone (t : Token) (bare : t.isBareTerm = true)
  | filter (s : Sentence .disjunction)

namespace FilterPart

/-- The tokens of the filter. -/
def tokens : FilterPart → List Token
  | absent => []
  | lone t _ => [t]
  | filter d => d.tokens

/-- How deep its parentheses nest. -/
def nesting : FilterPart → Nat
  | absent | lone _ _ => 0
  | filter d => d.nesting

/-- What it says. A lone term says nothing. -/
def reading : FilterPart → Option Outline
  | absent | lone _ _ => none
  | filter d => some d.reading

/-- The filter as one of the written grammar. -/
def sentence : FilterPart → SentencePart
  | absent => .absent
  | lone t bare => .lone t bare
  | filter d => .filter d.sentence

theorem sentence_injective {p p' : FilterPart} (h : p.sentence = p'.sentence) : p = p' := by
  cases p with
  | absent =>
    cases p' with
    | absent => rfl
    | lone => cases h
    | filter => cases h
  | lone t bare =>
    cases p' with
    | absent => cases h
    | lone t' bare' => cases h; rfl
    | filter => cases h
  | filter d =>
    cases p' with
    | absent => cases h
    | lone => cases h
    | filter d' => rw [Derivation.sentence_injective (SentencePart.filter.inj h)]

end FilterPart

namespace SentencePart

/-- The tokens of the filter. -/
def tokens : SentencePart → List Token
  | absent => []
  | lone t _ => [t]
  | filter s => s.tokens

/-- How deep its parentheses nest. -/
def nesting : SentencePart → Nat
  | absent | lone _ _ => 0
  | filter s => s.nesting

/-- What it says. -/
def reading : SentencePart → Option Outline
  | absent | lone _ _ => none
  | filter s => some s.reading

end SentencePart

/-! ## 2. Sort specifications -/

/-- A key to sort by, with at most one direction. -/
structure KeyDerivation where
  field : IndexWord
  direction : Option DirectionWord

/-- The tokens of a direction, behind a slash. -/
def directionTokens : Option DirectionWord → List Token
  | none => []
  | some d => [.slash, .word d.text]

namespace KeyDerivation

/-- The tokens of the key. -/
def tokens (k : KeyDerivation) : List Token := .word k.field.text :: directionTokens k.direction

/-- The key, ascending unless it is said otherwise. -/
def reading (k : KeyDerivation) : String × Direction :=
  (k.field.text, (k.direction.map (·.direction)).getD .ascending)

end KeyDerivation

/-- The tokens of several keys. -/
def keyTokens : List KeyDerivation → List Token
  | [] => []
  | k :: rest => k.tokens ++ keyTokens rest

/-- A sort specification: its reserved word and one key at least. -/
structure SortPart where
  word : Reserved .sortBy
  first : KeyDerivation
  rest : List KeyDerivation

/-! ## 3. Queries -/

/-- The derivation of a query. -/
structure QueryDerivation where
  filter : FilterPart
  sort : Option SortPart

namespace QueryDerivation

/-- The tokens of the sort specification. -/
def sortTokens : Option SortPart → List Token
  | none => []
  | some s => .word s.word.text :: keyTokens (s.first :: s.rest)

/-- The keys of the sort specification. -/
def sortReading : Option SortPart → List (String × Direction)
  | none => []
  | some s => (s.first :: s.rest).map KeyDerivation.reading

/-- The tokens that are derived. -/
def tokens (d : QueryDerivation) : List Token := d.filter.tokens ++ sortTokens d.sort

/-- How deep the parentheses nest. -/
def nesting (d : QueryDerivation) : Nat := d.filter.nesting

/-- What the derivation says. -/
def reading (d : QueryDerivation) : QueryOutline := ⟨d.filter.reading, sortReading d.sort⟩

end QueryDerivation

/-- A sentence of the written grammar that is a query. -/
structure QuerySentence where
  filter : SentencePart
  sort : Option SortPart

namespace QuerySentence

/-- The tokens of the query. -/
def tokens (q : QuerySentence) : List Token :=
  q.filter.tokens ++ QueryDerivation.sortTokens q.sort

/-- How deep the parentheses nest. -/
def nesting (q : QuerySentence) : Nat := q.filter.nesting

/-- What the query says. -/
def reading (q : QuerySentence) : QueryOutline :=
  ⟨q.filter.reading, QueryDerivation.sortReading q.sort⟩

end QuerySentence

namespace QueryDerivation

/-- The derivation as a sentence. -/
def sentence (d : QueryDerivation) : QuerySentence := ⟨d.filter.sentence, d.sort⟩

@[simp] theorem tokens_sentence (d : QueryDerivation) : d.sentence.tokens = d.tokens := by
  obtain ⟨f, s⟩ := d
  cases f with
  | filter d => exact congrArg (· ++ sortTokens s) d.tokens_sentence
  | _ => rfl

@[simp] theorem nesting_sentence (d : QueryDerivation) : d.sentence.nesting = d.nesting := by
  obtain ⟨f, s⟩ := d
  cases f with
  | filter d => exact d.nesting_sentence
  | _ => rfl

@[simp] theorem reading_sentence (d : QueryDerivation) : d.sentence.reading = d.reading := by
  obtain ⟨f, s⟩ := d
  cases f with
  | filter d =>
    exact congrArg (fun o => QueryOutline.mk (some o) (sortReading s)) d.reading_sentence
  | _ => rfl

theorem sentence_injective {d d' : QueryDerivation} (h : d.sentence = d'.sentence) : d = d' := by
  obtain ⟨f, s⟩ := d
  obtain ⟨f', s'⟩ := d'
  obtain ⟨hf, hs⟩ := QuerySentence.mk.inj h
  cases FilterPart.sentence_injective hf
  cases hs
  rfl

/-- A sort specification is no token, or begins with its reserved word. -/
theorem sortTokens_cases (s : Option SortPart) :
    sortTokens s = [] ∨ ∃ (w : Reserved .sortBy) (us : List Token),
      sortTokens s = .word w.text :: us := by
  cases s with
  | none => exact .inl rfl
  | some s => exact .inr ⟨s.word, _, rfl⟩

theorem ends_sortTokens (n : Category) (s : Option SortPart) : Ends n (sortTokens s) := by
  rcases sortTokens_cases s with h | ⟨w, us, h⟩
  · rw [h]
    exact ends_nil n
  · rw [h]
    refine ends_cons us ?_
    cases n <;> simp [Category.continues, w.isKeyword_eq]

end QueryDerivation

/-! ## 4. Queries are unique -/

/-- What a filter begins with: no `sortBy`, and if it is a bare term, a relation symbol follows. -/
def StartsFilter (ts : List Token) : Prop :=
  ∃ t us, ts = t :: us ∧ t.isKeyword .sortBy = false ∧
    (t.isBareTerm = true → ∃ s vs, us = .relation s :: vs)

theorem Sentence.startsFilter_term (d : Sentence .term) (r : List Token) :
    StartsFilter (d.tokens ++ r) := by
  cases d with
  | clause c => exact ⟨_, _, rfl, c.field.isKeyword_eq _, fun _ => ⟨_, _, rfl⟩⟩
  | group inner => exact ⟨_, _, rfl, rfl, fun h => by cases h⟩

theorem Sentence.startsFilter_negated (d : Sentence .negated) (r : List Token) :
    StartsFilter (d.tokens ++ r) := by
  cases d with
  | plain part => exact part.startsFilter_term r
  | negated w part =>
    refine ⟨_, _, rfl, by simp [w.isKeyword_eq], fun h => ?_⟩
    simp [Token.isBareTerm, w.spells] at h

theorem Sentence.startsFilter (d : Sentence .disjunction) (r : List Token) :
    StartsFilter (d.tokens ++ r) := by
  cases d with
  | disjunction first rest =>
    cases first with
    | conjunction part more =>
      rw [tokens, tokens, List.append_assoc, List.append_assoc]
      exact part.startsFilter_negated _

theorem Derivation.startsFilter (d : Derivation .disjunction) (r : List Token) :
    StartsFilter (d.tokens ++ r) :=
  d.tokens_sentence ▸ d.sentence.startsFilter r

namespace QueryDerivation

theorem keyTokens_unique {ks ls : List KeyDerivation} (h : keyTokens ks = keyTokens ls) :
    ks = ls := by
  induction ks generalizing ls with
  | nil =>
    cases ls with
    | nil => rfl
    | cons l ls => cases h
  | cons k ks ih =>
    cases ls with
    | nil => cases h
    | cons l ls =>
      have hslash : ∀ (ms : List KeyDerivation) (us : List Token), keyTokens ms ≠ .slash :: us := by
        intro ms us he
        cases ms <;> cases he
      obtain ⟨f, d⟩ := k
      obtain ⟨f', d'⟩ := l
      simp only [keyTokens, KeyDerivation.tokens, List.cons_append, List.cons.injEq,
        Token.word.injEq] at h
      obtain ⟨hf, h⟩ := h
      cases IndexWord.eq_of_text hf
      cases d with
      | none =>
        cases d' with
        | none => rw [ih h]
        | some e' => exact absurd h (hslash ks _)
      | some e =>
        cases d' with
        | none => exact absurd h.symm (hslash ls _)
        | some e' =>
          simp only [directionTokens, List.cons_append, List.nil_append, List.cons.injEq,
            Token.word.injEq, true_and] at h
          rw [DirectionWord.eq_of_text h.1, ih h.2]

theorem sortTokens_unique {s s' : Option SortPart} (h : sortTokens s = sortTokens s') :
    s = s' := by
  cases s with
  | none =>
    cases s' with
    | none => rfl
    | some s' => cases h
  | some s =>
    cases s' with
    | none => cases h
    | some s' =>
      obtain ⟨w, k, ks⟩ := s
      obtain ⟨w', k', ks'⟩ := s'
      obtain ⟨rfl, hkeys⟩ := Reserved.of_cons_eq h
      cases keyTokens_unique hkeys
      rfl

/-- What begins a filter is no sort specification. -/
theorem startsFilter_ne_sortTokens {ts : List Token} (h : StartsFilter ts)
    (s : Option SortPart) : ts ≠ sortTokens s := by
  obtain ⟨t, us, rfl, hk, _⟩ := h
  intro he
  rcases sortTokens_cases s with hs | ⟨w, vs, hs⟩
  · rw [hs] at he
    cases he
  · rw [hs, List.cons.injEq] at he
    rw [he.1, w.isKeyword_eq] at hk
    cases hk

theorem lone_ne_sortTokens {t : Token} (bare : t.isBareTerm = true) (us : List Token)
    (s : Option SortPart) : t :: us ≠ sortTokens s := by
  intro he
  rcases sortTokens_cases s with hs | ⟨w, vs, hs⟩
  · rw [hs] at he
    cases he
  · rw [hs, List.cons.injEq] at he
    rw [he.1] at bare
    simp [Token.isBareTerm, w.spells] at bare

/-- Behind a lone term stands no relation symbol. -/
theorem startsFilter_ne_lone {ts : List Token} (h : StartsFilter ts) {t : Token}
    (bare : t.isBareTerm = true) (s : Option SortPart) : ts ≠ t :: sortTokens s := by
  obtain ⟨t', us, rfl, _, hb⟩ := h
  intro he
  rw [List.cons.injEq] at he
  obtain ⟨sym, vs, hus⟩ := hb (he.1 ▸ bare)
  rcases sortTokens_cases s with hs | ⟨w, ws, hs⟩
  · rw [hus, hs] at he
    cases he.2
  · rw [hus, hs] at he
    cases he.2

end QueryDerivation

open QueryDerivation in
/-- **The tokens of a query belong to one sentence.** -/
theorem QuerySentence.unique {d d' : QuerySentence} (h : d.tokens = d'.tokens) : d = d' := by
  obtain ⟨f, s⟩ := d
  obtain ⟨f', s'⟩ := d'
  simp only [tokens] at h
  cases f with
  | absent =>
    cases f' with
    | absent => rw [sortTokens_unique h]
    | lone t bare => exact absurd h.symm (lone_ne_sortTokens bare _ s)
    | filter e => exact absurd h.symm (startsFilter_ne_sortTokens (e.startsFilter _) s)
  | lone t bare =>
    cases f' with
    | absent => exact absurd h (lone_ne_sortTokens bare _ s')
    | lone t' bare' =>
      simp only [SentencePart.tokens, List.cons_append, List.nil_append, List.cons.injEq] at h
      obtain ⟨rfl, h⟩ := h
      rw [sortTokens_unique h]
    | filter e => exact absurd h.symm (startsFilter_ne_lone (e.startsFilter _) bare s)
  | filter e =>
    cases f' with
    | absent => exact absurd h (startsFilter_ne_sortTokens (e.startsFilter _) s')
    | lone t bare => exact absurd h (startsFilter_ne_lone (e.startsFilter _) bare s')
    | filter e' =>
      obtain ⟨rfl, hs⟩ := e.unique e' h (ends_sortTokens _ s) (ends_sortTokens _ s')
      rw [sortTokens_unique hs]

namespace QueryDerivation

/-- **The tokens of a query have one derivation.** -/
theorem unique {d d' : QueryDerivation} (h : d.tokens = d'.tokens) : d = d' := by
  rw [← d.tokens_sentence, ← d'.tokens_sentence] at h
  exact sentence_injective (QuerySentence.unique h)

/-- How deep a query nests is seen from its tokens. -/
theorem deepest_tokens (d : QueryDerivation) : deepest 0 d.tokens = d.nesting := by
  have hkey : ∀ ks : List KeyDerivation, deepest 0 (keyTokens ks) = 0 := by
    intro ks
    induction ks with
    | nil => rfl
    | cons k ks ih =>
      obtain ⟨f, e⟩ := k
      cases e with
      | none => rw [keyTokens, KeyDerivation.tokens, List.cons_append, deepest_word]; exact ih
      | some e =>
        rw [keyTokens, KeyDerivation.tokens, List.cons_append, deepest_word]
        show deepest 0 (.slash :: .word e.text :: keyTokens ks) = 0
        rw [deepest, deepest_word, ih] <;> simp
  have hsort : ∀ s, deepest 0 (sortTokens s) = 0 := by
    intro s
    cases s with
    | none => rfl
    | some s => rw [sortTokens, deepest_word, hkey]
  obtain ⟨f, s⟩ := d
  cases f with
  | absent => exact hsort s
  | lone t bare =>
    show deepest 0 (t :: sortTokens s) = 0
    cases t with
    | openParen => cases bare
    | closeParen => cases bare
    | word w => rw [deepest_word, hsort]
    | phrase c => rw [deepest, hsort] <;> simp
    | relation r => cases bare
    | slash => cases bare
  | filter e =>
    show deepest 0 (e.tokens ++ sortTokens s) = e.nesting
    rw [e.deepest_tokens, hsort]
    omega

end QueryDerivation

end ContextualQuery
