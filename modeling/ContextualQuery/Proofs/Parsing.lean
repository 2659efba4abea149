import ContextualQuery.Proofs.QueryGrammar
import ContextualQuery.Proofs.Lexing
import ContextualQuery.Proofs.Runs
/-!
# The parser reads the grammar

What the parser takes is derived by the grammar, and what the grammar derives the parser takes:

* `Consumes`: a reader goes over a list of tokens, wherever they stand in the text;
* `sound_clause`, `Run.derived`, …, `sound_query`: what is read has a derivation;
* `complete_clause`, `reads_of_derivation`, …, `complete_query`: a reader takes what has a
  derivation, if what follows ends it;
* `parse_iff_derivation`: a text is read exactly if its tokens have a derivation that does not nest
  too deep, and is read as what the derivation says; there is one derivation only.
-/

namespace ContextualQuery

open ContextualQuery.Parser

/-! ## 1. Going over tokens -/

/-- The tokens stand at the front of the items `input`, and behind them the items `rest`. -/
inductive Consumes : List Item → List Token → List Item → Prop
  | nil {rest : List Item} : Consumes rest [] rest
  | cons {t : Token} {s : Span} {input rest : List Item} {ts : List Token}
      (h : Consumes input ts rest) : Consumes (.ok ⟨t, s⟩ :: input) (t :: ts) rest

namespace Consumes

variable {input mid rest : List Item} {ts us : List Token}

theorem append (h : Consumes input ts mid) (h' : Consumes mid us rest) :
    Consumes input (ts ++ us) rest := by
  induction h with
  | nil => exact h'
  | cons _ ih => exact .cons (ih h')

theorem of_append (h : Consumes input (ts ++ us) rest) :
    ∃ mid, Consumes input ts mid ∧ Consumes mid us rest := by
  induction ts generalizing input with
  | nil => exact ⟨input, .nil, h⟩
  | cons t ts ih =>
    cases h with
    | cons h =>
      obtain ⟨mid, h₁, h₂⟩ := ih h
      exact ⟨mid, .cons h₁, h₂⟩

theorem of_cons {t : Token} (h : Consumes input (t :: ts) rest) :
    ∃ s mid, input = .ok ⟨t, s⟩ :: mid ∧ Consumes mid ts rest := by
  cases h with
  | cons h => exact ⟨_, _, rfl, h⟩

/-- All items of a text without faults are gone over. -/
theorem of_located (ts : List (Located Token)) :
    Consumes (ts.map .ok) (ts.map (·.value)) [] := by
  induction ts with
  | nil => exact .nil
  | cons t ts ih => exact .cons ih

theorem eq_map_ok (h : Consumes input ts []) :
    ∃ ls : List (Located Token), input = ls.map .ok ∧ ls.map (·.value) = ts := by
  generalize hr : ([] : List Item) = rest at h
  induction h with
  | nil => exact ⟨[], hr.symm, rfl⟩
  | @cons t s input rest ts _ ih =>
    obtain ⟨ls, rfl, rfl⟩ := ih hr
    exact ⟨⟨t, s⟩ :: ls, rfl, rfl⟩

end Consumes

/-- What follows the tokens does not continue the category. -/
abbrev Follows (n : Category) (rest : List Item) : Prop := Stops n.continues rest

theorem Follows.of_consumes {n : Category} {input rest : List Item} {ts : List Token}
    (h : Consumes input ts rest) (hts : Ends n ts) (hr : ts = [] → Follows n rest) :
    Follows n input := by
  cases h with
  | nil => exact hr rfl
  | cons => exact stops_cons_iff.mpr (hts _ _ rfl)

theorem Follows.term {n : Category} {rest : List Item} (h : Follows n rest) :
    Follows .term rest :=
  h.mono fun _ => Category.not_continues_term

theorem Follows.conjunction {rest : List Item} (h : Follows .disjunction rest) :
    Follows .conjunction rest :=
  h.mono fun _ => Category.not_continues_conjunction

/-- What follows a part of a chain ends the part, as the chain goes on or ends. -/
theorem Follows.of_disjuncts {mid rest : List Item} (d : Derivation .disjuncts)
    (h : Consumes mid d.tokens rest) (hr : Follows .disjunction rest) :
    Follows .conjunction mid := by
  have hends := d.ends_disjuncts (ends_nil _)
  rw [List.append_nil] at hends
  exact .of_consumes h hends fun _ => hr.conjunction

theorem Follows.of_conjuncts {mid rest : List Item} (d : Derivation .conjuncts)
    (h : Consumes mid d.tokens rest) (hr : Follows .conjunction rest) : Follows .term mid := by
  have hends := d.ends_conjuncts (ends_nil _)
  rw [List.append_nil] at hends
  exact .of_consumes h hends fun _ => hr.term

/-! ## 2. Modifiers -/

/-- Modifiers may be put into a set one after the other. -/
def Admits (set : Modifiers) : List ModifierWord → Prop
  | [] => True
  | m :: rest => set.contains m.modifier.opposite = false ∧ Admits (set.insert m.modifier) rest

/-- The set with further modifiers in it. -/
def Modifiers.insertAll (set : Modifiers) (ms : List ModifierWord) : Modifiers :=
  ms.foldl (fun s m => s.insert m.modifier) set

theorem admits_append {set : Modifiers} {ms ns : List ModifierWord} :
    Admits set (ms ++ ns) ↔ Admits set ms ∧ Admits (set.insertAll ms) ns := by
  induction ms generalizing set with
  | nil => exact ⟨fun h => ⟨trivial, h⟩, fun h => h.2⟩
  | cons m ms ih =>
    show _ ∧ Admits _ (ms ++ ns) ↔
      (_ ∧ Admits _ ms) ∧ Admits ((set.insert m.modifier).insertAll ms) ns
    rw [ih, and_assoc]

theorem Modifier.ne_opposite (m : Modifier) : m ≠ m.opposite := by
  cases m <;> decide

theorem Modifier.eq_opposite_iff (m n : Modifier) : m = n.opposite ↔ n = m.opposite := by
  cases m <;> cases n <;> decide

/-- Modifiers may be put into a set exactly if no two of them, and none of the set, are
opposites. -/
theorem admits_iff {set : Modifiers} {ms : List ModifierWord} :
    Admits set ms ↔
      (∀ m ∈ ms, set.contains m.modifier.opposite = false) ∧ Compatible ms := by
  induction ms generalizing set with
  | nil =>
    constructor
    · exact fun _ => ⟨nofun, nofun⟩
    · exact fun _ => trivial
  | cons m ms ih =>
    rw [Admits, ih]
    constructor
    · intro h
      obtain ⟨hm, hms, hc⟩ := h
      have hnot : ∀ n ∈ ms, n.modifier.opposite ≠ m.modifier ∧
          set.contains n.modifier.opposite = false := by
        intro n hn
        have h := hms n hn
        rw [Modifiers.contains_insert, Bool.or_eq_false_iff, decide_eq_false_iff_not] at h
        exact h
      refine ⟨?_, ?_⟩
      · intro n hn
        cases hn with
        | head => exact hm
        | tail _ hn => exact (hnot n hn).2
      · intro a ha b hb
        cases ha with
        | head =>
          cases hb with
          | head => exact m.modifier.ne_opposite
          | tail _ hb => exact fun h => (hnot b hb).1 h.symm
        | tail _ ha =>
          cases hb with
          | head => exact fun h => (hnot a ha).1 ((Modifier.eq_opposite_iff _ _).mp h).symm
          | tail _ hb => exact hc a ha b hb
    · intro h
      obtain ⟨hset, hc⟩ := h
      refine ⟨hset m List.mem_cons_self, fun n hn => ?_, fun a ha b hb => ?_⟩
      · rw [Modifiers.contains_insert, hset n (List.mem_cons_of_mem _ hn), Bool.or_false,
          decide_eq_false_iff_not]
        exact fun h => hc m List.mem_cons_self n (List.mem_cons_of_mem _ hn) h.symm
      · exact hc a (List.mem_cons_of_mem _ ha) b (List.mem_cons_of_mem _ hb)

theorem admits_empty_iff {ms : List ModifierWord} : Admits .empty ms ↔ Compatible ms := by
  rw [admits_iff]
  exact ⟨fun h => h.2, fun h => ⟨fun m _ => Modifiers.contains_empty _, h⟩⟩

theorem insertAll_empty (ms ns : List ModifierWord) :
    (Modifiers.empty.insertAll ms).insertAll ns = .ofList ((ms ++ ns).map (·.modifier)) := by
  rw [Modifiers.insertAll, Modifiers.insertAll, Modifiers.ofList, List.foldl_map,
    List.foldl_append]

variable {size : Nat} {rest : List Item}

theorem sound_modifiers {set set' : Modifiers} {input : List Item}
    (h : Takes (modifiers size set input) set' rest) :
    ∃ ms, Consumes input (modifierTokens ms) rest ∧ Admits set ms ∧ set' = set.insertAll ms := by
  rcases stops_or (· == .slash) input with hs | ⟨f, i, rfl⟩ | ⟨t, s, i, rfl, ht⟩
  · obtain ⟨rfl, rfl⟩ := (takes_modifiers_stop hs).mp h
    exact ⟨[], .nil, trivial, rfl⟩
  · exact absurd h not_takes_modifiers_error
  · cases eq_of_beq ht
    obtain ⟨text, s', mid, m, rfl, hn, ho, hr⟩ := takes_modifiers_slash.mp h
    obtain ⟨ms, hc, ha, rfl⟩ := sound_modifiers hr
    exact ⟨⟨text, m, hn⟩ :: ms, .cons (.cons hc), ⟨ho, ha⟩, rfl⟩
termination_by input.length

variable {input : List Item}

theorem complete_modifiers (size : Nat) {set : Modifiers} {ms : List ModifierWord}
    (h : Consumes input (modifierTokens ms) rest) (ha : Admits set ms)
    (hr : Stops (· == .slash) rest) :
    Takes (modifiers size set input) (set.insertAll ms) rest := by
  induction ms generalizing set input with
  | nil =>
    cases h
    exact (takes_modifiers_stop hr).mpr ⟨rfl, rfl⟩
  | cons m ms ih =>
    obtain ⟨s, mid, rfl, h₁⟩ := h.of_cons
    obtain ⟨s', mid', rfl, h₂⟩ := h₁.of_cons
    exact takes_modifiers_slash.mpr ⟨m.text, s', mid', m.modifier, rfl, m.named, ha.1, ih h₂ ha.2⟩

/-! ## 3. Search clauses -/

theorem sound_clause {c : SearchClause} (h : Takes (clause size input) c rest) :
    ∃ d : ClauseDerivation, Consumes input d.tokens rest ∧ d.outline = c.outline := by
  obtain ⟨i₁, i₂, set, i₃, i₄, hf, hs, hm, ht, hm'⟩ := takes_clause_iff.mp h
  obtain ⟨rfl, hfree⟩ := takes_indexName_iff.mp hf
  obtain rfl := takes_relationSymbol_iff.mp hs
  obtain ⟨ms, hms, ha, rfl⟩ := sound_modifiers hm
  obtain ⟨ns, hns, ha', hset⟩ := sound_modifiers hm'
  have hterm : ∃ w : TermWord, i₃ = .ok ⟨w.token, c.term.span⟩ :: i₄ ∧ w.text = c.term.value := by
    rcases takes_searchTerm_iff.mp ht with rfl | rfl
    · exact ⟨.word c.term.value, rfl, rfl⟩
    · exact ⟨.phrase c.term.value, rfl, rfl⟩
  obtain ⟨w, rfl, hw⟩ := hterm
  refine ⟨⟨⟨c.field.value, hfree⟩, c.symbol.value, ms, w, ns, ?_⟩, ?_, ?_⟩
  · exact admits_empty_iff.mp (admits_append.mpr ⟨ha, ha'⟩)
  · exact .cons (.cons (hms.append (.cons hns)))
  · rw [ClauseDerivation.outline, SearchClause.outline, hset, hw, ← insertAll_empty]

theorem complete_clause (size : Nat) {d : ClauseDerivation} (h : Consumes input d.tokens rest)
    (hr : Stops (· == .slash) rest) :
    ∃ c, Takes (clause size input) c rest ∧ c.outline = d.outline := by
  obtain ⟨sf, i₁, rfl, h₁⟩ := h.of_cons
  obtain ⟨ss, i₂, rfl, h₂⟩ := h₁.of_cons
  obtain ⟨i₃, hms, h₃⟩ := h₂.of_append
  obtain ⟨st, i₄, rfl, hns⟩ := h₃.of_cons
  obtain ⟨ha, ha'⟩ := admits_append.mp (admits_empty_iff.mpr d.compatible)
  have hterm : Takes (searchTerm size (.ok ⟨d.term.token, st⟩ :: i₄)) ⟨d.term.text, st⟩ i₄ := by
    rw [takes_searchTerm_iff]
    cases d.term with
    | word text => exact .inl rfl
    | phrase content => exact .inr rfl
  have hstop : Stops (· == .slash) (.ok ⟨d.term.token, st⟩ :: i₄) := by
    rw [stops_cons_iff]
    cases d.term <;> rfl
  have hinner := complete_modifiers size hms ha hstop
  have houter := complete_modifiers size hns ha' hr
  have hfield (mid : List Item) : Takes
      (indexName size .searchClause (.ok ⟨.word d.field.text, sf⟩ :: mid))
      ⟨d.field.text, sf⟩ mid :=
    takes_indexName_iff.mpr ⟨rfl, d.field.free⟩
  have hsymbol : Takes (relationSymbol size (.ok ⟨.relation d.symbol, ss⟩ :: i₂))
      ⟨d.symbol, ss⟩ i₂ :=
    takes_relationSymbol_iff.mpr rfl
  refine ⟨⟨⟨d.field.text, sf⟩, ⟨d.symbol, ss⟩, ⟨d.term.text, st⟩, _⟩,
    takes_clause_iff.mpr ⟨_, _, _, _, _, hfield _, hsymbol, hinner, hterm, houter⟩, ?_⟩
  rw [ClauseDerivation.outline, ← insertAll_empty]
  rfl

/-! ## 4. Filters: what is taken is derived -/

/-- A derivation of the category goes over the items from `input` to `rest`, nests at most `levels`
deep and reads as `r`. -/
def Derived (n : Category) (levels : Nat) (input : List Item) (r : n.Reading)
    (rest : List Item) : Prop :=
  ∃ d : Derivation n, Consumes input d.tokens rest ∧ d.nesting ≤ levels ∧ d.reading = r

/-- What is made of a category, without its places. -/
def Category.outline : (n : Category) → n.Tree → n.Reading
  | .disjuncts | .conjuncts => Filter.outlines
  | .disjunction | .conjunction | .negated | .term => Filter.outline

/-- Two parts that are derived one behind the other. -/
theorem Derived.append {m n : Category} {levels : Nat} {input mid rest : List Item} {r : m.Reading}
    {r' : n.Reading} (h : Derived m levels input r mid) (h' : Derived n levels mid r' rest) :
    ∃ (d : Derivation m) (e : Derivation n), Consumes input (d.tokens ++ e.tokens) rest ∧
      max d.nesting e.nesting ≤ levels ∧ d.reading = r ∧ e.reading = r' := by
  obtain ⟨d, hd, hl, hr⟩ := h
  obtain ⟨e, he, hl', hr'⟩ := h'
  exact ⟨d, e, hd.append he, Nat.max_le.mpr ⟨hl, hl'⟩, hr, hr'⟩

/-- **What is read is derived.** -/
theorem Run.derived {size levels : Nat} {n : Category} {input rest : List Item} {tree : n.Tree}
    (h : Run size levels n input tree rest) : Derived n levels input (n.outline tree) rest := by
  induction h with
  | disjunction _ _ ihf ihr =>
    obtain ⟨d, e, hc, hl, hr, hr'⟩ := ihf.append ihr
    refine ⟨.disjunction d e, hc, hl, ?_⟩
    show Outline.chain .or d.reading e.reading = (Filter.chain .or _ _).outline
    rw [Filter.outline_chain, hr, hr']
    rfl
  | noDisjunct => exact ⟨.noDisjunct, .nil, Nat.zero_le _, Filter.outlines_nil.symm⟩
  | @disjunct _ _ _ _ _ _ t word _ _ ihp ihr =>
    obtain ⟨d, e, hc, hl, hr, hr'⟩ := ihp.append ihr
    obtain ⟨t, s⟩ := t
    obtain ⟨w, rfl⟩ := Reserved.of_isKeyword word
    refine ⟨.disjunct w d e, .cons hc, hl, ?_⟩
    show List.cons (α := Outline) d.reading e.reading = Filter.outlines (_ :: _)
    rw [Filter.outlines_cons, hr, hr']
    rfl
  | conjunction _ _ ihf ihr =>
    obtain ⟨d, e, hc, hl, hr, hr'⟩ := ihf.append ihr
    refine ⟨.conjunction d e, hc, hl, ?_⟩
    show Outline.chain .and d.reading e.reading = (Filter.chain .and _ _).outline
    rw [Filter.outline_chain, hr, hr']
    rfl
  | noConjunct => exact ⟨.noConjunct, .nil, Nat.zero_le _, Filter.outlines_nil.symm⟩
  | @conjunct _ _ _ _ _ _ t word _ _ ihp ihr =>
    obtain ⟨d, e, hc, hl, hr, hr'⟩ := ihp.append ihr
    obtain ⟨t, s⟩ := t
    obtain ⟨w, rfl⟩ := Reserved.of_isKeyword word
    refine ⟨.conjunct w d e, .cons hc, hl, ?_⟩
    show List.cons (α := Outline) d.reading e.reading = Filter.outlines (_ :: _)
    rw [Filter.outlines_cons, hr, hr']
    rfl
  | @exception _ _ _ _ _ _ t word _ _ ihp ihr =>
    obtain ⟨d, e, hc, hl, hr, hr'⟩ := ihp.append ihr
    obtain ⟨t, s⟩ := t
    obtain ⟨w, rfl⟩ := Reserved.of_isKeyword word
    refine ⟨.exception w d e, .cons hc, hl, ?_⟩
    show List.cons (.combined .not [d.reading]) e.reading = Filter.outlines (.negation s _ :: _)
    rw [Filter.outlines_cons, Filter.outline_negation, hr, hr']
    rfl
  | plain _ ih =>
    obtain ⟨d, hd, hl, hr⟩ := ih
    exact ⟨.plain d, hd, hl, hr⟩
  | @negated _ _ _ _ t word _ ih =>
    obtain ⟨d, hd, hl, hr⟩ := ih
    obtain ⟨t, s⟩ := t
    obtain ⟨w, rfl⟩ := Reserved.of_isKeyword word
    refine ⟨.negated w d, .cons hd, hl, ?_⟩
    show Outline.combined .not [d.reading] = (Filter.negation s _).outline
    rw [Filter.outline_negation, hr]
    rfl
  | @clause _ _ _ c hc =>
    obtain ⟨d, hd, hr⟩ := sound_clause hc
    refine ⟨.clause d, hd, Nat.zero_le _, ?_⟩
    show d.outline = (Filter.clause c).outline
    rw [Filter.outline_clause, hr]
  | group _ ih =>
    obtain ⟨d, hd, hl, hr⟩ := ih
    exact ⟨.group d, .cons (hd.append (.cons .nil)), Nat.succ_le_succ hl, hr⟩

/-! ## 5. Filters: what is derived is taken -/

/-- The reader of the category goes over the items from `input` to `rest` and makes something that
reads as `r`. -/
def Reads (size : Nat) (g : GroupReader) (input rest : List Item) :
    (n : Category) → n.Reading → Prop
  | .disjunction, r => ∃ f, Takes (disjunction size g input) f rest ∧ f.outline = r
  | .disjuncts, r => ∃ fs, Takes (disjuncts size g input) fs rest ∧ Filter.outlines fs = r
  | .conjunction, r => ∃ f, Takes (conjunction size g input) f rest ∧ f.outline = r
  | .conjuncts, r => ∃ fs, Takes (conjuncts size g input) fs rest ∧ Filter.outlines fs = r
  | .negated, r => ∃ f, Takes (negated size g input) f rest ∧ f.outline = r
  | .term, r => ∃ f, Takes (term size g input) f rest ∧ f.outline = r

/-- The reader of groups takes what is derived one level further down. -/
def GroupComplete (g : GroupReader) (levels : Nat) : Prop :=
  ∀ s input rest (d : Derivation .disjunction), Consumes input d.tokens rest →
    Follows .disjunction rest → d.nesting < levels →
      ∃ f, Takes (g s input) f rest ∧ f.outline = d.reading

section Completeness

variable {size levels : Nat} {g : GroupReader} {input rest : List Item}

/-- A term begins with no `not`. -/
theorem Derivation.term_not_not {d : Derivation .term} (h : Consumes input d.tokens rest)
    (t : Located Token) (i : List Item) (he : input = .ok t :: i) :
    t.value.isKeyword .not = false := by
  subst he
  cases d with
  | clause c =>
    cases h
    exact c.field.isKeyword_eq _
  | group inner =>
    cases h
    rfl

theorem complete_clause_term {c : ClauseDerivation} (h : Consumes input c.tokens rest)
    (hr : Follows .term rest) : Reads size g input rest .term c.outline := by
  obtain ⟨s, hs, ho⟩ := complete_clause size h hr
  have hne : ∀ s i, input ≠ .ok ⟨.openParen, s⟩ :: i := by
    intro s i he
    subst he
    cases h
  refine ⟨.clause s, (takes_term_clause hne).mpr ⟨s, hs, rfl⟩, ?_⟩
  rw [Filter.outline_clause, ho]

/-- What is derived is taken, if it does not nest too deep and what follows ends it. -/
theorem reads_of_derivation (size : Nat) (hg : GroupComplete g levels) {n : Category}
    (d : Derivation n) (h : Consumes input d.tokens rest) (hr : Follows n rest)
    (hl : d.nesting ≤ levels) :
    Reads size g input rest n d.reading := by
  induction d generalizing input rest with
  | disjunction first more ihf ihm =>
    obtain ⟨mid, h₁, h₂⟩ := h.of_append
    obtain ⟨hl₁, hl₂⟩ := Nat.max_le.mp hl
    obtain ⟨f, hf, hfr⟩ := ihf h₁ (.of_disjuncts more h₂ hr) hl₁
    obtain ⟨fs, hfs, hfsr⟩ := ihm h₂ hr hl₂
    refine ⟨_, takes_disjunction_iff.mpr ⟨f, mid, fs, hf, hfs, rfl⟩, ?_⟩
    rw [Filter.outline_chain, hfr, hfsr]
    rfl
  | noDisjunct =>
    cases h
    have hor : Stops (·.isKeyword .or) input := hr.mono fun t ht => by
      simp only [Category.continues, Bool.or_eq_false_iff] at ht
      exact ht.2
    exact ⟨[], (takes_disjuncts_stop hor).mpr ⟨rfl, rfl⟩, rfl⟩
  | disjunct w part more ihp ihm =>
    obtain ⟨s, i, rfl, h₀⟩ := h.of_cons
    obtain ⟨mid, h₁, h₂⟩ := h₀.of_append
    obtain ⟨hl₁, hl₂⟩ := Nat.max_le.mp hl
    obtain ⟨f, hf, hfr⟩ := ihp h₁ (.of_disjuncts more h₂ hr) hl₁
    obtain ⟨fs, hfs, hfsr⟩ := ihm h₂ hr hl₂
    have hor := w.isKeyword_self
    refine ⟨_, (takes_disjuncts_or hor).mpr ⟨f, mid, fs, hf, hfs, rfl⟩, ?_⟩
    rw [Filter.outlines_cons, hfr, hfsr]
    rfl
  | conjunction first more ihf ihm =>
    obtain ⟨mid, h₁, h₂⟩ := h.of_append
    obtain ⟨hl₁, hl₂⟩ := Nat.max_le.mp hl
    obtain ⟨f, hf, hfr⟩ := ihf h₁ (.of_conjuncts more h₂ hr) hl₁
    obtain ⟨fs, hfs, hfsr⟩ := ihm h₂ hr hl₂
    refine ⟨_, takes_conjunction_iff.mpr ⟨f, mid, fs, hf, hfs, rfl⟩, ?_⟩
    rw [Filter.outline_chain, hfr, hfsr]
    rfl
  | noConjunct =>
    cases h
    have hstop : Stops endsConjuncts input := hr.mono fun t ht => by
      simp only [Category.continues, endsConjuncts, Bool.or_eq_false_iff] at ht ⊢
      exact ⟨ht.1.2, ht.2⟩
    exact ⟨[], (takes_conjuncts_stop hstop).mpr ⟨rfl, rfl⟩, rfl⟩
  | conjunct w part more ihp ihm =>
    obtain ⟨s, i, rfl, h₀⟩ := h.of_cons
    obtain ⟨mid, h₁, h₂⟩ := h₀.of_append
    obtain ⟨hl₁, hl₂⟩ := Nat.max_le.mp hl
    obtain ⟨f, hf, hfr⟩ := ihp h₁ (.of_conjuncts more h₂ hr) hl₁
    obtain ⟨fs, hfs, hfsr⟩ := ihm h₂ hr hl₂
    have hand := w.isKeyword_self
    refine ⟨_, (takes_conjuncts_and hand).mpr ⟨f, mid, fs, hf, hfs, rfl⟩, ?_⟩
    rw [Filter.outlines_cons, hfr, hfsr]
    rfl
  | exception w part more ihp ihm =>
    obtain ⟨s, i, rfl, h₀⟩ := h.of_cons
    obtain ⟨mid, h₁, h₂⟩ := h₀.of_append
    obtain ⟨hl₁, hl₂⟩ := Nat.max_le.mp hl
    obtain ⟨f, hf, hfr⟩ := ihp h₁ (.of_conjuncts more h₂ hr) hl₁
    obtain ⟨fs, hfs, hfsr⟩ := ihm h₂ hr hl₂
    have hnot := w.isKeyword_self
    refine ⟨_, (takes_conjuncts_not hnot).mpr ⟨f, mid, fs, hf, hfs, rfl⟩, ?_⟩
    rw [Filter.outlines_cons, Filter.outline_negation, hfr, hfsr]
    rfl
  | plain part ih =>
    obtain ⟨f, hf, hfr⟩ := ih h hr hl
    exact ⟨f, (takes_negated_plain (Derivation.term_not_not h)).mpr hf, hfr⟩
  | negated w part ih =>
    obtain ⟨s, i, rfl, h₀⟩ := h.of_cons
    obtain ⟨f, hf, hfr⟩ := ih h₀ hr hl
    have hnot := w.isKeyword_self
    refine ⟨_, (takes_negated_not hnot).mpr ⟨f, hf, rfl⟩, ?_⟩
    rw [Filter.outline_negation, hfr]
    rfl
  | clause c => exact complete_clause_term h hr
  | group inner ih =>
    obtain ⟨s, i, rfl, h₀⟩ := h.of_cons
    obtain ⟨mid, h₁, h₂⟩ := h₀.of_append
    obtain ⟨s', i', rfl, h₃⟩ := h₂.of_cons
    cases h₃
    obtain ⟨f, hf, hfr⟩ := hg s i _ inner h₁ (stops_cons_iff.mpr rfl) hl
    exact ⟨f, takes_term_group.mpr ⟨_, s', hf, rfl⟩, hfr⟩

theorem groupComplete_group (size limit levels : Nat) :
    GroupComplete (group size limit levels) levels := by
  induction levels with
  | zero => exact fun _ _ _ _ _ _ hl => absurd hl (Nat.not_lt_zero _)
  | succ levels ih =>
    exact fun _ _ _ d h hr hl => reads_of_derivation size ih d h hr (Nat.le_of_lt_succ hl)

end Completeness

/-! ## 6. Sort specifications -/

section Sorting

variable {size : Nat} {input rest : List Item}

/-- There is one direction at most. -/
theorem sound_directions_found {key : Span} {d : Direction} {r : Option Direction × Span}
    (h : Takes (directions size key (some d) input) r rest) :
    r = (some d, key) ∧ Consumes input [] rest := by
  rcases stops_or (· == .slash) input with hs | ⟨f, i, rfl⟩ | ⟨t, s, i, rfl, ht⟩
  · obtain ⟨rfl, rfl⟩ := (takes_directions_stop hs).mp h
    exact ⟨rfl, .nil⟩
  · exact absurd h not_takes_directions_error
  · cases eq_of_beq ht
    obtain ⟨_, _, _, _, _, _, hnone, _⟩ := takes_directions_slash.mp h
    cases hnone

theorem sound_directions {key span : Span} {o : Option Direction}
    (h : Takes (directions size key none input) (o, span) rest) :
    ∃ w, Consumes input (directionTokens w) rest ∧ w.map (·.direction) = o := by
  rcases stops_or (· == .slash) input with hs | ⟨f, i, rfl⟩ | ⟨t, s, i, rfl, ht⟩
  · obtain ⟨he, rfl⟩ := (takes_directions_stop hs).mp h
    cases he
    exact ⟨none, .nil, rfl⟩
  · exact absurd h not_takes_directions_error
  · cases eq_of_beq ht
    obtain ⟨text, s', mid, d, rfl, hn, _, hd⟩ := takes_directions_slash.mp h
    obtain ⟨he, hc⟩ := sound_directions_found hd
    cases he
    exact ⟨some ⟨text, d, hn⟩, .cons (.cons hc), rfl⟩

theorem complete_directions (size : Nat) (key : Span) {w : Option DirectionWord}
    (h : Consumes input (directionTokens w) rest) (hr : Stops (· == .slash) rest) :
    ∃ span, Takes (directions size key none input) (w.map (·.direction), span) rest := by
  cases w with
  | none =>
    cases h
    exact ⟨key, (takes_directions_stop hr).mpr ⟨rfl, rfl⟩⟩
  | some w =>
    obtain ⟨s, i, rfl, h₁⟩ := h.of_cons
    obtain ⟨s', i', rfl, h₂⟩ := h₁.of_cons
    cases h₂
    have hlast : Takes (directions size (key.merge s') (some w.direction) rest)
        (some w.direction, key.merge s') rest := (takes_directions_stop hr).mpr ⟨rfl, rfl⟩
    exact ⟨_, takes_directions_slash.mpr ⟨_, _, _, _, rfl, w.named, rfl, hlast⟩⟩

theorem sound_sortClause {c : SortClause} (h : Takes (sortClause size input) c rest) :
    ∃ k : KeyDerivation, Consumes input k.tokens rest ∧ k.reading = c.outline := by
  obtain ⟨mid, d, hf, hd, hc⟩ := takes_sortClause_iff.mp h
  obtain ⟨rfl, hfree⟩ := takes_indexName_iff.mp hf
  obtain ⟨w, hw, rfl⟩ := sound_directions hd
  refine ⟨⟨⟨c.field.value, hfree⟩, w⟩, .cons hw, ?_⟩
  rw [SortClause.outline, hc]
  rfl

theorem complete_sortClause (size : Nat) {k : KeyDerivation} (h : Consumes input k.tokens rest)
    (hr : Stops (· == .slash) rest) :
    ∃ c, Takes (sortClause size input) c rest ∧ c.outline = k.reading := by
  obtain ⟨s, i, rfl, hd⟩ := h.of_cons
  obtain ⟨span, hs⟩ := complete_directions size s hd hr
  have hf (mid : List Item) : Takes (indexName size .sortKey (.ok ⟨.word k.field.text, s⟩ :: mid))
      ⟨k.field.text, s⟩ mid := takes_indexName_iff.mpr ⟨rfl, k.field.free⟩
  exact ⟨⟨⟨k.field.text, s⟩, _, span⟩, takes_sortClause_iff.mpr ⟨i, _, hf i, hs, rfl⟩, rfl⟩

theorem sound_sortClauses {cs : List SortClause} {input : List Item}
    (h : Takes (sortClauses size input) cs rest) :
    ∃ ks, Consumes input (keyTokens ks) rest ∧
      ks.map KeyDerivation.reading = cs.map SortClause.outline := by
  rcases stops_or Token.isWord input with hs | ⟨f, i, rfl⟩ | ⟨t, s, i, he, ht⟩
  · obtain ⟨rfl, rfl⟩ := (takes_sortClauses_stop hs).mp h
    exact ⟨[], .nil, rfl⟩
  · exact absurd h not_takes_sortClauses_error
  · rw [he] at h ⊢
    obtain ⟨key, mid, keys, hk, hks, rfl⟩ := (takes_sortClauses_word ht).mp h
    have hlt : mid.length < input.length := he ▸ hk.shorter
    obtain ⟨k, hc, hr⟩ := sound_sortClause hk
    obtain ⟨ks, hcs, hrs⟩ := sound_sortClauses hks
    exact ⟨k :: ks, hc.append hcs, by rw [List.map_cons, List.map_cons, hr, hrs]⟩
termination_by input.length
decreasing_by exact hlt

theorem complete_sortClauses (size : Nat) {ks : List KeyDerivation}
    (h : Consumes input (keyTokens ks) []) :
    ∃ cs, Takes (sortClauses size input) cs [] ∧
      cs.map SortClause.outline = ks.map KeyDerivation.reading := by
  induction ks generalizing input with
  | nil =>
    cases h
    exact ⟨[], (takes_sortClauses_stop (stops_nil _)).mpr ⟨rfl, rfl⟩, rfl⟩
  | cons k ks ih =>
    obtain ⟨mid, h₁, h₂⟩ := h.of_append
    have hslash : Stops (· == .slash) mid := by
      cases ks with
      | nil =>
        cases h₂
        exact stops_nil _
      | cons k' ks =>
        obtain ⟨s, i, rfl, _⟩ := h₂.of_cons
        exact stops_cons_iff.mpr rfl
    obtain ⟨c, hc, hr⟩ := complete_sortClause size h₁ hslash
    obtain ⟨cs, hcs, hrs⟩ := ih h₂
    obtain ⟨s, i, rfl, _⟩ := h₁.of_cons
    exact ⟨c :: cs, (takes_sortClauses_word rfl).mpr ⟨c, mid, cs, hc, hcs, rfl⟩,
      by rw [List.map_cons, List.map_cons, hr, hrs]⟩

theorem sound_sorting {cs : List SortClause} (h : sorting size input = .ok (cs, rest)) :
    ∃ s, Consumes input (QueryDerivation.sortTokens s) rest ∧
      QueryDerivation.sortReading s = cs.map SortClause.outline := by
  rcases sorting_eq_ok_cases h with ⟨rfl, rfl⟩ | ⟨⟨t, s⟩, i, rfl, ht, hk, hne⟩
  · exact ⟨none, .nil, rfl⟩
  · obtain ⟨w, rfl⟩ := Reserved.of_isKeyword ht
    obtain ⟨ks, hc, hr⟩ := sound_sortClauses hk
    cases ks with
    | nil => exact absurd (List.map_eq_nil_iff.mp hr.symm) hne
    | cons k ks => exact ⟨some ⟨w, k, ks⟩, .cons hc, hr⟩

theorem complete_sorting (size : Nat) {s : Option SortPart}
    (h : Consumes input (QueryDerivation.sortTokens s) []) :
    ∃ cs, sorting size input = .ok (cs, []) ∧
      cs.map SortClause.outline = QueryDerivation.sortReading s := by
  cases s with
  | none =>
    cases h
    exact ⟨[], rfl, rfl⟩
  | some s =>
    obtain ⟨sp, i, rfl, h₁⟩ := h.of_cons
    obtain ⟨cs, hcs, hr⟩ := complete_sortClauses size h₁
    refine ⟨cs, ?_, hr⟩
    rw [sorting_word s.word.isKeyword_self, sortSpecification_eq_ok_iff]
    refine ⟨hcs, ?_⟩
    intro h
    subst h
    cases hr

theorem sortFollows_of_consumes {s : Option SortPart}
    (h : Consumes input (QueryDerivation.sortTokens s) []) : SortFollows input := by
  cases s with
  | none =>
    cases h
    exact .inl rfl
  | some s =>
    obtain ⟨sp, i, rfl, _⟩ := h.of_cons
    exact .inr ⟨_, _, rfl, s.word.isKeyword_self⟩

end Sorting

/-! ## 7. Queries -/

section Queries

variable {size limit : Nat} {input rest : List Item}

theorem sound_filter {o : Option Filter} (h : filter size limit input = .ok (o, rest)) :
    ∃ p : FilterPart, Consumes input p.tokens rest ∧ p.nesting ≤ limit ∧
      p.reading = o.map Filter.outline := by
  rcases filter_eq_ok_cases h with ⟨rfl, rfl⟩ | ⟨rfl, t, rfl, ht⟩ | ⟨f, rfl, hf⟩
  · exact ⟨.absent, .nil, Nat.zero_le _, rfl⟩
  · exact ⟨.lone t.value ht, .cons .nil, Nat.zero_le _, rfl⟩
  · obtain ⟨d, hd, hl, hr⟩ := (run_of_takes hf).derived
    exact ⟨.filter d, hd, hl, congrArg some hr⟩

/-- What begins a filter is not taken for a lone term. -/
theorem bareTermFollows_filter {d : Derivation .disjunction} (h : Consumes input d.tokens rest) :
    ∃ t i, input = .ok t :: i ∧ t.value.isKeyword .sortBy = false ∧
      bareTermFollows input = .ok false := by
  obtain ⟨t, us, ht, hs, hb⟩ := d.startsFilter []
  rw [List.append_nil] at ht
  rw [ht] at h
  obtain ⟨s, i, rfl, h₁⟩ := h.of_cons
  refine ⟨⟨t, s⟩, i, rfl, hs, ?_⟩
  cases hbare : t.isBareTerm with
  | false => simp [bareTermFollows, hbare]
  | true =>
    obtain ⟨sym, vs, rfl⟩ := hb hbare
    obtain ⟨s', i', rfl, _⟩ := h₁.of_cons
    simp [bareTermFollows, hbare, Token.isKeyword, Token.keyword?]

theorem complete_filter (size : Nat) {p : FilterPart} (h : Consumes input p.tokens rest)
    (hr : SortFollows rest) (hl : p.nesting ≤ limit) :
    ∃ o, filter size limit input = .ok (o, rest) ∧ o.map Filter.outline = p.reading := by
  cases p with
  | absent =>
    cases h
    exact ⟨none, filter_of_sortFollows hr, rfl⟩
  | lone t bare =>
    obtain ⟨s, i, rfl, h₁⟩ := h.of_cons
    cases h₁
    have hs : t.isKeyword .sortBy = false := by
      by_contra hk
      obtain ⟨w, rfl⟩ := Reserved.of_isKeyword (Bool.of_not_eq_false hk)
      simp [Token.isBareTerm, w.spells] at bare
    exact ⟨none, filter_lone hs bare hr, rfl⟩
  | filter d =>
    have hfollows : Follows .disjunction rest := by
      rcases hr with rfl | ⟨t, i, rfl, ht⟩
      · exact stops_nil _
      · refine stops_cons_iff.mpr ?_
        obtain ⟨w, hw⟩ := Reserved.of_isKeyword ht
        rw [hw]
        simp [Category.continues, w.isKeyword_eq]
    have hg := groupComplete_group size limit limit
    obtain ⟨f, hf, hfr⟩ := reads_of_derivation size hg d h hfollows hl
    obtain ⟨t, i, rfl, hs, hb⟩ := bareTermFollows_filter h
    exact ⟨some f, filter_disjunction hs hb hf, congrArg some hfr⟩

theorem sound_query {q : Query} (h : query size limit input = .ok q) :
    ∃ d : QueryDerivation, Consumes input d.tokens [] ∧ d.nesting ≤ limit ∧
      d.reading = q.outline := by
  obtain ⟨mid, hf, hs, _⟩ := query_eq_ok_iff.mp h
  obtain ⟨p, hp, hl, hpr⟩ := sound_filter hf
  obtain ⟨s, hs, hsr⟩ := sound_sorting hs
  refine ⟨⟨p, s⟩, hp.append hs, hl, ?_⟩
  rw [QueryDerivation.reading, Query.outline, hpr, hsr]

theorem complete_query {d : QueryDerivation} (h : Consumes input d.tokens [])
    (hl : d.nesting ≤ limit) :
    ∃ q, query size limit input = .ok q ∧ q.outline = d.reading := by
  obtain ⟨mid, h₁, h₂⟩ := h.of_append
  obtain ⟨o, ho, hor⟩ := complete_filter size h₁ (sortFollows_of_consumes h₂) hl
  obtain ⟨cs, hcs, hcsr⟩ := complete_sorting size h₂
  refine ⟨⟨o, cs, ⟨0, size⟩⟩, query_eq_ok_iff.mpr ⟨mid, ho, hcs, rfl⟩, ?_⟩
  rw [QueryDerivation.reading, Query.outline, hor, hcsr]

end Queries

/-! ## 8. Texts -/

/-- The text has tokens without a fault, and they are those of the derivation. -/
def QueryDerivation.Derives (d : QueryDerivation) (text : String) : Prop :=
  ∃ ts, tokenize text = .ok ts ∧ d.tokens = ts.map (·.value)

namespace QueryDerivation

theorem derives_iff_consumes {d : QueryDerivation} {text : String} :
    d.Derives text ↔ Consumes (Lexer.ofText text).items d.tokens [] := by
  constructor
  · intro h
    obtain ⟨ts, ht, hd⟩ := h
    rw [tokenize_eq_ok_iff.mp ht, hd]
    exact .of_located ts
  · intro h
    obtain ⟨ts, hi, hd⟩ := h.eq_map_ok
    exact ⟨ts, tokenize_eq_ok_iff.mpr hi, hd.symm⟩

theorem derives_iff_spells {d : QueryDerivation} {text : String} :
    d.Derives text ↔ Spells text.toList d.tokens := by
  rw [spells_iff_tokenize]
  exact ⟨fun ⟨ts, ht, hd⟩ => ⟨ts, ht, hd.symm⟩, fun ⟨ts, ht, hd⟩ => ⟨ts, ht, hd.symm⟩⟩

theorem Derives.eq {d d' : QueryDerivation} {text : String} (h : d.Derives text)
    (h' : d'.Derives text) : d = d' := by
  obtain ⟨ts, ht, hd⟩ := h
  obtain ⟨ts', ht', hd'⟩ := h'
  cases ht.symm.trans ht'
  exact unique (hd.trans hd'.symm)

end QueryDerivation

/-- What is read has a derivation. -/
theorem derives_of_parse {text : String} {limit : Nat} {q : Query}
    (h : Query.parse text limit = .ok q) :
    ∃ d : QueryDerivation, d.Derives text ∧ d.nesting ≤ limit ∧ d.reading = q.outline := by
  obtain ⟨d, hd, hl, hr⟩ := sound_query h
  exact ⟨d, QueryDerivation.derives_iff_consumes.mpr hd, hl, hr⟩

/-- What has a derivation is read. -/
theorem parse_of_derives {text : String} {limit : Nat} {d : QueryDerivation}
    (h : d.Derives text) (hl : d.nesting ≤ limit) :
    ∃ q, Query.parse text limit = .ok q ∧ q.outline = d.reading :=
  complete_query (QueryDerivation.derives_iff_consumes.mp h) hl

/-- **A text is read exactly if its tokens have a derivation whose parentheses nest no deeper than
the limit. There is one derivation only, and the query, without its places, is what it says.** -/
theorem parse_iff_derivation (text : String) (limit : Nat) :
    ((∃ q, Query.parse text limit = .ok q) ↔
      ∃ d : QueryDerivation, d.Derives text ∧ d.nesting ≤ limit) ∧
    (∀ d d' : QueryDerivation, d.Derives text → d'.Derives text → d = d') ∧
    ∀ (q : Query) (d : QueryDerivation), Query.parse text limit = .ok q → d.Derives text →
      q.outline = d.reading := by
  refine ⟨⟨?_, ?_⟩, ?_, ?_⟩
  · intro h
    obtain ⟨q, hq⟩ := h
    obtain ⟨d, hd, hl, _⟩ := derives_of_parse hq
    exact ⟨d, hd, hl⟩
  · intro h
    obtain ⟨d, hd, hl⟩ := h
    obtain ⟨q, hq, _⟩ := parse_of_derives hd hl
    exact ⟨q, hq⟩
  · exact fun d d' h h' => h.eq h'
  · intro q d hq hd
    obtain ⟨d', hd', _, hr⟩ := derives_of_parse hq
    rw [← hr, hd'.eq hd]

end ContextualQuery
