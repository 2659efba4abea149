import ContextualQuery.Proofs.Composition
/-!
# Which sentences are read

The parser reads less than the grammar as it is written down: behind a `not` between two parts it takes a
term, where the written grammar has a part that may be negated itself.

* `Sentence.NotsApart`: behind no `not` between two parts stands a negated part;
* `Sentence.notsApart_iff`: these sentences are the derivations;
* `QuerySentence.Derives`: a text has the tokens of a sentence, and `Derives.eq`: of one only;
* `sentence_read_iff`: a sentence is read exactly if its `not`s stand apart, and then as what it says.
-/

namespace ContextualQuery

/-! ## 1. Sentences without a doubled `not` -/

namespace Sentence

/-- The part has no `not` in front. -/
def isPlain : Sentence .negated → Bool
  | plain _ => true
  | negated _ _ => false

/-- Behind no `not` between two parts stands a negated part. -/
def NotsApart : {n : Category} → Sentence n → Prop
  | _, disjunction first rest => first.NotsApart ∧ rest.NotsApart
  | _, noDisjunct => True
  | _, disjunct _ part rest => part.NotsApart ∧ rest.NotsApart
  | _, conjunction first rest => first.NotsApart ∧ rest.NotsApart
  | _, noConjunct => True
  | _, conjunct _ part rest => part.NotsApart ∧ rest.NotsApart
  | _, exception _ part rest => part.isPlain = true ∧ part.NotsApart ∧ rest.NotsApart
  | _, plain part => part.NotsApart
  | _, negated _ part => part.NotsApart
  | _, clause _ => True
  | _, group inner => inner.NotsApart

end Sentence

theorem Derivation.notsApart_sentence {n : Category} (d : Derivation n) : d.sentence.NotsApart := by
  induction d <;> simp only [sentence, Sentence.NotsApart, Sentence.isPlain, and_self, *]

/-- A sentence whose `not`s stand apart is made from derivations of its parts. -/
theorem Sentence.exists_derivation {n : Category} (s : Sentence n) (h : s.NotsApart) :
    ∃ d : Derivation n, d.sentence = s := by
  induction s with
  | disjunction first rest ihf ihr =>
    obtain ⟨f, rfl⟩ := ihf h.1
    obtain ⟨r, rfl⟩ := ihr h.2
    exact ⟨.disjunction f r, rfl⟩
  | noDisjunct => exact ⟨.noDisjunct, rfl⟩
  | disjunct word part rest ihp ihr =>
    obtain ⟨p, rfl⟩ := ihp h.1
    obtain ⟨r, rfl⟩ := ihr h.2
    exact ⟨.disjunct word p r, rfl⟩
  | conjunction first rest ihf ihr =>
    obtain ⟨f, rfl⟩ := ihf h.1
    obtain ⟨r, rfl⟩ := ihr h.2
    exact ⟨.conjunction f r, rfl⟩
  | noConjunct => exact ⟨.noConjunct, rfl⟩
  | conjunct word part rest ihp ihr =>
    obtain ⟨p, rfl⟩ := ihp h.1
    obtain ⟨r, rfl⟩ := ihr h.2
    exact ⟨.conjunct word p r, rfl⟩
  | exception word part rest ihp ihr =>
    obtain ⟨hplain, hpart, hrest⟩ := h
    obtain ⟨p, rfl⟩ := ihp hpart
    obtain ⟨r, rfl⟩ := ihr hrest
    -- the only place where a sentence may be more than a derivation
    cases p with
    | plain p => exact ⟨.exception word p r, rfl⟩
    | negated => cases hplain
  | plain part ih =>
    obtain ⟨p, rfl⟩ := ih h
    exact ⟨.plain p, rfl⟩
  | negated word part ih =>
    obtain ⟨p, rfl⟩ := ih h
    exact ⟨.negated word p, rfl⟩
  | clause c => exact ⟨.clause c, rfl⟩
  | group inner ih =>
    obtain ⟨i, rfl⟩ := ih h
    exact ⟨.group i, rfl⟩

/-- The derivations are the sentences whose `not`s stand apart. -/
theorem Sentence.notsApart_iff {n : Category} {s : Sentence n} :
    s.NotsApart ↔ ∃ d : Derivation n, d.sentence = s := by
  constructor
  · exact s.exists_derivation
  · intro h
    obtain ⟨d, rfl⟩ := h
    exact d.notsApart_sentence

/-! ## 2. Queries without a doubled `not` -/

/-- The sentence of a filter has its `not`s apart, if there is one. -/
def SentencePart.NotsApart : SentencePart → Prop
  | absent | lone _ _ => True
  | filter s => s.NotsApart

namespace QuerySentence

variable {q : QuerySentence} {text : String}

/-- Behind no `not` between two parts of the query stands a negated part. -/
def NotsApart (q : QuerySentence) : Prop := q.filter.NotsApart

theorem notsApart_iff : q.NotsApart ↔ ∃ d : QueryDerivation, d.sentence = q := by
  constructor
  · intro h
    obtain ⟨f, s⟩ := q
    cases f with
    | absent => exact ⟨⟨.absent, s⟩, rfl⟩
    | lone t bare => exact ⟨⟨.lone t bare, s⟩, rfl⟩
    | filter f =>
      obtain ⟨d, rfl⟩ := f.exists_derivation h
      exact ⟨⟨.filter d, s⟩, rfl⟩
  · intro h
    obtain ⟨⟨f, s⟩, rfl⟩ := h
    cases f with
    | absent => trivial
    | lone => trivial
    | filter d => exact d.notsApart_sentence

/-- The text has tokens without a fault, and they are those of the sentence. -/
def Derives (q : QuerySentence) (text : String) : Prop :=
  ∃ ts, tokenize text = .ok ts ∧ q.tokens = ts.map (·.value)

/-- The tokens of a text, once they are known, are enough. -/
theorem derives_of_tokens (h : ((tokenize text).map fun ts => ts.map (·.value)).toOption = some q.tokens) :
    q.Derives text := by
  obtain ⟨ts, hts, hvalues⟩ := map_eq_ok_iff.mp (toOption_eq_some_iff.mp h)
  exact ⟨ts, hts, hvalues.symm⟩

/-- A text has one sentence at most. -/
theorem Derives.eq {q' : QuerySentence} (h : q.Derives text) (h' : q'.Derives text) : q = q' := by
  obtain ⟨ts, ht, hd⟩ := h
  obtain ⟨ts', ht', hd'⟩ := h'
  cases ht.symm.trans ht'
  exact unique (hd.trans hd'.symm)

theorem derives_sentence {d : QueryDerivation} : d.sentence.Derives text ↔ d.Derives text := by
  rw [Derives, QueryDerivation.Derives, d.tokens_sentence]

end QuerySentence

/-! ## 3. What is read -/

/-- **A text of the written grammar whose parentheses nest no deeper than the limit is read exactly if behind no
`not` between two parts stands a negated part.** It has one sentence only, and what is read is what the sentence
says. -/
theorem sentence_read_iff {text : String} {limit : Nat} {q : QuerySentence} (h : q.Derives text)
    (hl : q.nesting ≤ limit) :
    ((∃ r, Query.parse text limit = .ok r) ↔ q.NotsApart) ∧
    (∀ q' : QuerySentence, q'.Derives text → q' = q) ∧
    ∀ r, Query.parse text limit = .ok r → r.outline = q.reading := by
  -- what is read has a derivation, and this is the sentence
  have hread : ∀ r, Query.parse text limit = .ok r →
      ∃ d : QueryDerivation, d.sentence = q ∧ d.reading = r.outline := by
    intro r hr
    obtain ⟨d, hd, _, hreading⟩ := derives_of_parse hr
    exact ⟨d, (QuerySentence.derives_sentence.mpr hd).eq h, hreading⟩
  refine ⟨⟨?_, ?_⟩, fun q' h' => h'.eq h, ?_⟩
  · intro hr
    obtain ⟨r, hr⟩ := hr
    obtain ⟨d, hd, _⟩ := hread r hr
    exact QuerySentence.notsApart_iff.mpr ⟨d, hd⟩
  · intro hapart
    obtain ⟨d, rfl⟩ := QuerySentence.notsApart_iff.mp hapart
    rw [d.nesting_sentence] at hl
    obtain ⟨r, hr, _⟩ := parse_of_derives (QuerySentence.derives_sentence.mp h) hl
    exact ⟨r, hr⟩
  · intro r hr
    obtain ⟨d, rfl, hreading⟩ := hread r hr
    rw [d.reading_sentence, hreading]

/-- An equality between a field and a word. -/
def equality (field : IndexWord) (word : String) : ClauseDerivation :=
  ⟨field, .word, [], .word word, [], compatible_nil⟩

/-- The part `b=2`. -/
def partB : Sentence .term := .clause (equality ⟨"b", by decide⟩ "2")

/-- The sentence `a=1 not …`. -/
def exceptPart (part : Sentence .negated) : QuerySentence :=
  ⟨.filter (.disjunction
    (.conjunction (.plain (.clause (equality ⟨"a", by decide⟩ "1")))
      (.exception .not part .noConjunct)) .noDisjunct), none⟩

/-- A part that is not negated is read behind a `not`, as one that is negated in a conjunction. -/
theorem exception_read :
    (exceptPart (.plain partB)).Derives "a=1 not b=2" ∧ (exceptPart (.plain partB)).nesting ≤ 0 ∧
      ∃ r, Query.parse "a=1 not b=2" 0 = .ok r ∧ r.outline = ⟨some (.combined .and
        [.clause "a" .word "1" .empty, .combined .not [.clause "b" .word "2" .empty]]), []⟩ := by
  have hderives : (exceptPart (.plain partB)).Derives "a=1 not b=2" :=
    QuerySentence.derives_of_tokens (by decide +kernel)
  have hnesting : (exceptPart (.plain partB)).nesting ≤ 0 := by decide
  obtain ⟨hread, _, hreading⟩ := sentence_read_iff hderives hnesting
  obtain ⟨r, hr⟩ := hread.mpr ⟨⟨trivial, rfl, trivial, trivial⟩, trivial⟩
  exact ⟨hderives, hnesting, r, hr, hreading r hr⟩

/-- A part that is negated is refused there, though the written grammar has it: the second `not` is found where a
search clause is expected. -/
theorem doubled_not_refused :
    (exceptPart (.negated .not partB)).Derives "a=1 not not b=2" ∧
      (exceptPart (.negated .not partB)).nesting ≤ 32 ∧
      (exceptPart (.negated .not partB)).reading = ⟨some (.combined .and
        [.clause "a" .word "1" .empty,
          .combined .not [.combined .not [.clause "b" .word "2" .empty]]]), []⟩ ∧
      Query.parse "a=1 not not b=2" 32 =
        .error (.grammatical ⟨⟨8, 11⟩, .searchClause, .token (.word "not")⟩) :=
  ⟨QuerySentence.derives_of_tokens (by decide +kernel), by decide, rfl, fault?_eq_some_iff.mp (by decide +kernel)⟩

end ContextualQuery
