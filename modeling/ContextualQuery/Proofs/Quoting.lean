import ContextualQuery.Proofs.Composition
import ContextualQuery.Proofs.Masks
/-!
# Texts in quotes

Every text can be searched for: put in quotes, with a backslash before every character that would
mean something else, it is read as itself. The lexer takes the backslashes before quotes away and
leaves the others to the reading of the term.

* `escaped`: the text with these backslashes;
* `phraseBody?_escaped`: the phrase ends at the quote behind the text, not at one in it, and
  `phraseContent_escaped`: its content masks nothing and stands for the text;
* `isEqual`, `derives_isEqual`: the derivation of a query for a text, and `predicate_isEqual`: the
  comparison that it comes to;
* `Store.matching_of_test`: what is selected by equality with an operand that takes one value only;
* `exactly_searchable` puts these together.
-/

namespace ContextualQuery

/-! ## 1. Escaped texts -/

theorem phraseContent_cons {c : Char} (h : c ≠ '\\') (rest : List Char) :
    phraseContent (c :: rest) = c :: phraseContent rest := by
  rw [phraseContent]
  exact fun _ _ hc => absurd hc h

/-- Whether a character means something else than itself in a quoted term. -/
def hasMeaning (c : Char) : Bool :=
  c == '\\' || c == '*' || c == '?' || c == Quoted.doubleQuote

/-- The text with a backslash before every character that would mean something else. -/
def escaped : List Char → List Char
  | [] => []
  | c :: rest => if hasMeaning c then '\\' :: c :: escaped rest else c :: escaped rest

theorem ne_newline_of_hasMeaning {c : Char} (h : hasMeaning c = true) : c ≠ '\n' := by
  intro he
  subst he
  cases h

theorem ne_of_not_hasMeaning {c : Char} (h : ¬ hasMeaning c = true) :
    c ≠ '\\' ∧ c ≠ '*' ∧ c ≠ '?' ∧ c ≠ Quoted.doubleQuote := by
  simpa [hasMeaning, and_assoc] using h

/-- An escaped text between quotes is the inside of a phrase, whatever follows the closing quote. -/
theorem phraseBody?_escaped (cs rest : List Char) :
    phraseBody? (escaped cs ++ Quoted.doubleQuote :: rest) = some (escaped cs, rest) := by
  induction cs with
  | nil =>
    rw [escaped, List.nil_append, phraseBody?, if_pos rfl]
    exact fun _ _ h => absurd h (by decide)
  | cons c cs ih =>
    rw [escaped]
    split
    · rename_i h
      rw [List.cons_append, List.cons_append, phraseBody?, if_neg (ne_newline_of_hasMeaning h), ih]
      rfl
    · rename_i h
      obtain ⟨hb, _, _, hq⟩ := ne_of_not_hasMeaning h
      rw [List.cons_append, phraseBody?, if_neg hq, if_neg hb, ih]
      · rfl
      · exact fun _ _ he => absurd he hb

/-- The content of such a phrase masks nothing, and stands for the text. -/
theorem phraseContent_escaped (cs : List Char) :
    hasWildcards (phraseContent (escaped cs)) = false ∧
      unescape (phraseContent (escaped cs)) = cs := by
  induction cs with
  | nil => exact ⟨rfl, rfl⟩
  | cons c cs ih =>
    obtain ⟨hw, hu⟩ := ih
    rw [escaped]
    split
    · rw [phraseContent]
      split
      · -- the lexer has already taken the backslash before a quote
        rename_i hq
        subst hq
        rw [hasWildcards_cons (by decide), unescape_cons (by decide), hw, hu]
        exact ⟨rfl, rfl⟩
      · rw [hasWildcards, unescape, hu]
        exact ⟨hw, rfl⟩
    · rename_i h
      obtain ⟨hb, hstar, hmark, _⟩ := ne_of_not_hasMeaning h
      rw [phraseContent_cons hb, hasWildcards_cons hb, unescape_cons hb, hw, hu]
      exact ⟨by simp [hstar, hmark], rfl⟩

/-! ## 2. Words -/

/-- A text that is one word has no blanks around it. -/
theorem isWordChar_of_spells {f : String} (h : Spells f.toList [.word f]) :
    f.toList ≠ [] ∧ ∀ c ∈ f.toList, isWordChar c = true := by
  cases h with
  | token hs _ =>
    obtain ⟨hf, hne, hw⟩ := of_scan_word hs
    rw [hf]
    exact ⟨hne, hw⟩

namespace Spells

variable {bs : List Char} {ts : List Token}

/-- A word, and what follows it. -/
theorem word {cs : List Char} (hne : cs ≠ []) (hcs : ∀ c ∈ cs, isWordChar c = true)
    (hbs : ∀ c rest, bs = c :: rest → isWordChar c = false) (h : Spells bs ts) :
    Spells (cs ++ bs) (.word (String.ofList cs) :: ts) := by
  have hstart : (cs ++ bs).dropWhile isSeparator = cs ++ bs := by
    obtain ⟨c, more, rfl⟩ := List.exists_cons_of_ne_nil hne
    have hc := not_isSeparator_of_isWordChar (hcs c List.mem_cons_self)
    exact List.dropWhile_cons_of_neg (by rw [hc]; decide)
  have hscan := scan_word hne hcs hbs
  rw [← hstart] at hscan
  exact .token hscan h

theorem slash (h : Spells bs ts) : Spells ('/' :: bs) (.slash :: ts) :=
  .token rfl h

theorem exactSymbol (h : Spells bs ts) : Spells ('=' :: '=' :: bs) (.relation .exact :: ts) :=
  .token rfl h

theorem respectCase (h : Spells bs ts) :
    Spells ("respectCase".toList ++ ' ' :: bs) (.word "respectCase" :: ts) :=
  @word (' ' :: bs) ts "respectCase".toList (by decide) (List.all_eq_true.mp (by decide))
    (fun c rest he => by cases he; decide) h.space

/-- A phrase that quotes an escaped text, and what follows it. -/
theorem phrase (cs : List Char) (h : Spells bs ts) :
    Spells (Quoted.doubleQuote :: (escaped cs ++ Quoted.doubleQuote :: bs))
      (.phrase (String.ofList (phraseContent (escaped cs))) :: ts) := by
  have hscan : scan (Quoted.doubleQuote :: (escaped cs ++ Quoted.doubleQuote :: bs)) =
      some (.phrase (String.ofList (phraseContent (escaped cs))),
        Quoted.doubleQuote :: escaped cs ++ [Quoted.doubleQuote], bs) := by
    rw [scan]
    · rw [if_pos rfl, phraseBody?_escaped]
      rfl
    all_goals
      intros
      exact absurd ‹Quoted.doubleQuote = _› (by decide)
  have hstart (rest : List Char) : (Quoted.doubleQuote :: rest).dropWhile isSeparator =
      Quoted.doubleQuote :: rest := List.dropWhile_cons_of_neg (by decide)
  rw [← hstart] at hscan
  exact .token hscan h

end Spells

/-! ## 3. Filters for a text -/

/-- The query for the records whose field is a text, letter case included. -/
def equalityText (field s : String) : String :=
  field ++ "==/respectCase " ++
    String.ofList (Quoted.doubleQuote :: (escaped s.toList ++ [Quoted.doubleQuote]))

/-- The term that stands for a text. -/
def literalTerm (s : String) : String := String.ofList (phraseContent (escaped s.toList))

/-- The derivation of such a query. -/
def isEqual (field : IndexWord) (s : String) : Derivation .disjunction :=
  .disjunction
    (.conjunction
      (.plain (.clause ⟨field, .exact, [⟨"respectCase", .respectCase, by decide⟩],
        .phrase (literalTerm s), [], by simp [Compatible, Modifier.opposite]⟩))
      .noConjunct)
    .noDisjunct

theorem derives_isEqual (field : IndexWord) (hf : Spells field.text.toList [.word field.text])
    (s : String) : (Planner.alone (isEqual field s)).Derives (equalityText field.text s) := by
  obtain ⟨hne, hw⟩ := isWordChar_of_spells hf
  have hphrase := Spells.phrase s.toList .nil
  have hsymbol := hphrase.respectCase.slash.exactSymbol
  have hfield := Spells.word hne hw (fun c rest he => by cases he; decide) hsymbol
  rw [derives_alone_iff]
  simpa [equalityText, isEqual, literalTerm, Derivation.tokens, ClauseDerivation.tokens,
    modifierTokens, TermWord.token] using hfield

/-- The comparison for equality with a text. -/
def textComparison (path : Path) (s : String) : Comparison :=
  ⟨path, .eq, ⟨.text s, .exact, true⟩⟩

/-- A quoted term is no mask, and is read as the text itself. -/
theorem Operand.ofTerm_literalTerm (settings : Settings) (s : String) :
    ofTerm settings .text .exact (.ofList [.respectCase]) (literalTerm s) =
      .ok ⟨.text s, .exact, true⟩ := by
  obtain ⟨hw, hu⟩ := phraseContent_escaped s.toList
  have hmask : isMask (.ofList [.respectCase]) (literalTerm s) = false := by
    simp [isMask, literalTerm, hw]
  have htext : String.ofList (unescape (literalTerm s).toList) = s := by
    simp [literalTerm, hu]
  rw [ofTerm, if_pos (show Domain.text.isText = true from rfl), ofText, hmask, htext]
  rfl

theorem predicate_isEqual {p : Planner} {entity : String} (field : IndexWord) {path : Path}
    (hall : sameIgnoringCase field.text SearchClause.allRecordsIndex = false)
    (hpath : p.resolver.follow entity field.text = .ok path) (htext : path.domain = .text)
    (s : String) :
    Outline.predicate? p entity (isEqual field s).reading =
      some (.compare (textComparison path s)) := by
  have houtline : (isEqual field s).reading =
      .clause field.text .exact (literalTerm s) (.ofList [.respectCase]) := rfl
  rw [houtline, Outline.predicate?, hall, hpath]
  simp [Except.toOption, htext, Operand.ofTerm_literalTerm, textComparison,
    RelationSymbol.comparator]

/-! ## 4. What they select -/

namespace Store

/-- Equality with a text, letter case included, is equality. -/
theorem test_text (s : String) (v : Value) :
    (Operand.mk (.text s) .exact true).test .eq v = decide (v = .text s) := by
  cases v with
  | text a =>
    have hcompare : (compare a s == .eq) = decide (a = s) := by
      rw [Bool.eq_iff_iff, beq_iff_eq, decide_eq_true_eq, Std.compare_eq_iff_eq]
    simpa [Operand.test, Operand.testText, folded, Comparator.accepts] using hcompare
  | _ => simp [Operand.test, Value.same]

variable {o : Operand} {v : Value}

/-- If an operand takes one value only, equality with it holds of the records whose path leads to the value. -/
theorem meets_of_test (h : ∀ a, o.test .eq a = decide (a = v)) (st : Store) (r : Record) (path : Path) :
    st.meets r ⟨path, .eq, o⟩ = decide (v ∈ st.values path.steps r) := by
  have hany : st.meets r ⟨path, .eq, o⟩ = (st.values path.steps r).any fun a => decide (a = v) := by
    rw [← funext h]
    rfl
  rw [hany, Bool.eq_iff_iff, List.any_eq_true, decide_eq_true_eq]
  simp

theorem matching_of_test (h : ∀ a, o.test .eq a = decide (a = v)) (st : Store) (entity : String)
    (path : Path) : st.matching entity (.compare ⟨path, .eq, o⟩) [] =
      (st.rows entity).filter fun r => decide (v ∈ st.values path.steps r) := by
  rw [matching, sorted_nil]
  refine List.filter_congr fun r _ => ?_
  rw [satisfies]
  exact meets_of_test h st r path

end Store

/-- **A text in quotes, with a backslash before every character that would mean something else, is
searched for as it is.** The query has one plan whatever is remembered, and selects the records whose
path leads to the text. -/
theorem exactly_searchable {p : Planner} {entity f : String} {path : Path} {s : String}
    (hword : ∃ span, tokenize f = .ok [⟨.word f, span⟩]) (hfree : Keyword.ofWord? f = none)
    (hall : sameIgnoringCase f SearchClause.allRecordsIndex = false)
    (hpath : p.resolver.follow entity f = .ok path) (htext : path.domain = .text)
    (hlength : byteLength (equalityText f s).toList ≤ p.settings.maxQueryLength) :
    (∀ c, p.resolver.Reached c → (p.plan entity (equalityText f s) c).1 =
      .ok ⟨.compare ⟨path, .eq, ⟨.text s, .exact, true⟩⟩, []⟩) ∧
    ∀ st : Store, st.matching entity (.compare ⟨path, .eq, ⟨.text s, .exact, true⟩⟩) [] =
      (st.rows entity).filter fun r => decide (.text s ∈ st.values path.steps r) := by
  obtain ⟨span, hspan⟩ := hword
  have hspells : Spells f.toList [.word f] := spells_iff_tokenize.mpr ⟨_, hspan, rfl⟩
  have hderives := derives_isEqual ⟨f, hfree⟩ hspells s
  have hfits := Planner.fits_of_derives hlength hderives (Nat.zero_le _)
  have hfilters := Planner.filters_of_derivation hfits hderives
    (predicate_isEqual ⟨f, hfree⟩ hall hpath htext s)
  refine ⟨fun c hc => ?_, fun st => st.matching_of_test (Store.test_text s) entity path⟩
  rw [Planner.plan_eq_planOnce hc, hfilters.planOnce_eq]
  rfl

/-- A name of two lines that consists of marks of the language. -/
def oddName : String := "*\\\"?\n\\\\"

/-- Persons of this name, which is searched for as it is. -/
theorem exactly_searchable_oddName :
    (∃ span, tokenize "name" = .ok [⟨.word "name", span⟩]) ∧
    (persons.plan "Person" (equalityText "name" oddName) .empty).1 =
      .ok ⟨.compare ⟨personName, .eq, ⟨.text oddName, .exact, true⟩⟩, []⟩ ∧
    bobAndEve.matching "Person" (.compare ⟨personName, .eq, ⟨.text oddName, .exact, true⟩⟩) [] =
      (bobAndEve.rows "Person").filter fun r =>
        decide (.text oddName ∈ bobAndEve.values personName.steps r) := by
  have htokens : (tokenize "name").toOption = some [⟨.word "name", ⟨0, 4⟩⟩] := by decide +kernel
  have hword : ∃ span, tokenize "name" = .ok [⟨.word "name", span⟩] :=
    ⟨_, toOption_eq_some_iff.mp htokens⟩
  have hsearchable := @exactly_searchable persons "Person" "name" personName oddName
  obtain ⟨hplan, hmatching⟩ := hsearchable hword rfl rfl rfl rfl (by decide)
  exact ⟨hword, hplan .empty .empty, hmatching bobAndEve⟩

end ContextualQuery
