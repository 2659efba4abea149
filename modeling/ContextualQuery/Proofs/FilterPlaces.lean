import ContextualQuery.Proofs.Parsing
import ContextualQuery.Proofs.TextOrder
import ContextualQuery.Proofs.WellFormed
/-!
# Filters stand in the text as they are nested

The tree that is read off a text lies over it: a node covers its parts, and the parts stand one behind the
other. A chain covers its parts, a negation its reserved word and its part, and a group only what is inside.

* `Modifiers.Consistent`: no modifier is there together with its opposite;
* `SearchClause.WellPlaced`, `Filter.WellPlaced`: what is said above, of clauses and of trees;
* `stands_clause`, `stands_run`: it is so for what a run makes of items that follow each other, by induction on
  the run;
* `Query.WellPlaced`: the filter is placed well, and the sort clauses stand behind it, one behind the other;
* `wellPlaced_of_parse`: so it is with every query that is read.
-/

namespace ContextualQuery

open ContextualQuery.Parser

/-! ## 1. Modifiers -/

namespace Modifiers

/-- No modifier is in the set together with its opposite. -/
def Consistent (set : Modifiers) : Prop := ∀ m, set.contains m = true → set.contains m.opposite = false

variable {set : Modifiers}

theorem consistent_empty : empty.Consistent := fun m _ => contains_empty m.opposite

/-- A modifier whose opposite is not there may be added. -/
theorem Consistent.insert (h : set.Consistent) {m : Modifier} (hm : set.contains m.opposite = false) :
    (set.insert m).Consistent := by
  intro n hn
  rw [contains_insert, Bool.or_eq_true_iff, decide_eq_true_eq] at hn
  rw [contains_insert, Bool.or_eq_false_iff, decide_eq_false_iff_not]
  rcases hn with rfl | hn
  · exact ⟨n.ne_opposite.symm, hm⟩
  · refine ⟨fun he => ?_, h n hn⟩
    rw [(Modifier.eq_opposite_iff m n).mp he.symm, hm] at hn
    cases hn

theorem Consistent.insertAll (h : set.Consistent) {ms : List ModifierWord} (ha : Admits set ms) :
    (set.insertAll ms).Consistent := by
  induction ms generalizing set with
  | nil => exact h
  | cons m ms ih => exact ih (h.insert ha.1) ha.2

end Modifiers

/-! ## 2. Trees over a text -/

/-- The span reaches over another one. -/
def Span.Covers (s t : Span) : Prop := s.start ≤ t.start ∧ t.stop ≤ s.stop

namespace Span

variable {s t u : Span}

theorem covers_refl (s : Span) : s.Covers s := ⟨Nat.le_refl _, Nat.le_refl _⟩

theorem Covers.trans (h : s.Covers t) (h' : t.Covers u) : s.Covers u :=
  ⟨Nat.le_trans h.1 h'.1, Nat.le_trans h'.2 h.2⟩

theorem covers_merge_left (s t : Span) : (s.merge t).Covers s := ⟨Nat.min_le_left _ _, Nat.le_max_left _ _⟩

theorem covers_merge_right (s t : Span) : (s.merge t).Covers t := ⟨Nat.min_le_right _ _, Nat.le_max_right _ _⟩

end Span

/-- The name, the symbol and the term of the clause can be cut out, the name as it is written, and stand one
behind the other. No modifier is there together with its opposite. -/
structure SearchClause.WellPlaced (text : String) (c : SearchClause) : Prop where
  field : c.field.span.slice? text = some c.field.value
  symbol : c.symbol.span.Within text.toList
  term : c.term.span.Within text.toList
  fieldFirst : c.field.span.Before c.symbol.span
  termLast : c.symbol.span.Before c.term.span
  modifiers : c.modifiers.Consistent

theorem SearchClause.WellPlaced.within {text : String} {c : SearchClause} (h : c.WellPlaced text) :
    c.span.Within text.toList := (Span.slice?_eq_some_iff.mp h.field).within.merge h.term

namespace Filter

/-- Every connective has as many parts as it takes, and a span that can be cut out and covers the spans of
its parts, which stand one behind the other. Every clause is placed well. -/
inductive WellPlaced (text : String) : Filter → Prop
  | clause {c : SearchClause} (hc : c.WellPlaced text) : WellPlaced text (.clause c)
  | combined {op : Connective} {children : List Filter} {span : Span} (takes : op.Takes children.length)
      (within : span.Within text.toList) (covers : ∀ f ∈ children, span.Covers f.span)
      (ordered : children.Pairwise fun f g => f.span.Before g.span)
      (parts : ∀ f ∈ children, WellPlaced text f) : WellPlaced text (.combined op children span)

variable {text : String} {n m k : Nat}

theorem WellPlaced.within {f : Filter} (h : f.WellPlaced text) : f.span.Within text.toList := by
  cases h with
  | clause hc => exact hc.within
  | combined _ within => exact within

/-- A filter that is placed well, and lies between two offsets. -/
abbrev Stands (text : String) : Nat → Filter → Nat → Prop := Lies (WellPlaced text) span

/-- Filters that are placed well, and lie one behind the other between two offsets. -/
abbrev StandInOrder (text : String) : Nat → List Filter → Nat → Prop := InOrder (WellPlaced text) span

/-- What covers a first part and further parts lies where they lie. -/
theorem foldl_merge {s : Span} {fs : List Filter} (hs : s.Between n m) (hwithin : s.Within text.toList)
    (hfs : StandInOrder text m fs k) {t : Span} (ht : fs.foldl (fun s f => s.merge f.span) s = t) :
    t.Between n k ∧ t.Within text.toList ∧ t.Covers s ∧ ∀ f ∈ fs, t.Covers f.span := by
  induction fs generalizing s m with
  | nil =>
    cases ht
    exact ⟨⟨hs.start, hs.nonempty, Nat.le_trans hs.stop hfs.le⟩, hwithin, s.covers_refl, nofun⟩
  | cons f fs ih =>
    cases hfs with
    | cons hf hspan hfs =>
      obtain ⟨hbetween, hcut, hcovers, hall⟩ := ih (hs.merge hspan) (hwithin.merge hf.within) hfs ht
      refine ⟨hbetween, hcut, hcovers.trans (s.covers_merge_left f.span), ?_⟩
      exact List.forall_mem_cons.mpr ⟨hcovers.trans (s.covers_merge_right f.span), hall⟩

/-- A chain covers its parts. -/
theorem stands_chain (op : Connective) (hop : ∀ n, 2 ≤ n → op.Takes n) {f : Filter} {fs : List Filter}
    (hf : Stands text n f m) (hfs : StandInOrder text m fs k) : Stands text n (.chain op f fs) k := by
  obtain ⟨hplaced, hspan⟩ := hf
  obtain ⟨hbetween, hwithin, hcovers, hall⟩ := foldl_merge hspan hplaced.within hfs rfl
  have hparts : StandInOrder text n (f :: fs) k := .cons hplaced hspan hfs
  cases fs with
  | nil => exact ⟨hplaced, hbetween⟩
  | cons g fs =>
    refine ⟨.combined (hop _ (by simp)) hwithin ?_ hparts.pairwise ?_, hbetween⟩
    · exact List.forall_mem_cons.mpr ⟨hcovers, hall⟩
    · exact fun h hh => (hparts.of_mem hh).1

/-- A negation covers its reserved word and its part. -/
theorem stands_negation {word : Span} {f : Filter} (hword : word.Between n m)
    (hwithin : word.Within text.toList) (hf : Stands text m f k) : Stands text n (.negation word f) k := by
  obtain ⟨hplaced, hspan⟩ := hf
  refine ⟨.combined rfl (hwithin.merge hplaced.within) ?_ (List.pairwise_singleton _ _) ?_,
    hword.merge hspan⟩
  · exact List.forall_mem_singleton.mpr (word.covers_merge_right f.span)
  · exact List.forall_mem_singleton.mpr hplaced

end Filter

/-! ## 3. What runs make -/

section Runs

variable {text : String} {size levels n : Nat} {input rest : List Item}

/-- What is left behind tokens follows them. -/
theorem follow_of_consumes {ts : List Token} (h : Consumes input ts rest) (hf : Follow text.toList n input) :
    ∃ m, n ≤ m ∧ Follow text.toList m rest := by
  induction h generalizing n with
  | nil => exact ⟨n, Nat.le_refl n, hf⟩
  | cons _ ih =>
    obtain ⟨_, m, hspan, hrest⟩ := follow_cons hf
    obtain ⟨k, hk, hrest⟩ := ih hrest
    exact ⟨k, Nat.le_trans (Nat.le_of_lt hspan.lt) hk, hrest⟩

/-- **A clause that is read is placed well.** -/
theorem stands_clause {c : SearchClause} (h : Takes (clause size input) c rest)
    (hf : Follow text.toList n input) :
    ∃ m, Lies (SearchClause.WellPlaced text) SearchClause.span n c m ∧ Follow text.toList m rest := by
  obtain ⟨i₁, i₂, set, i₃, i₄, hfield, hsymbol, hinner, hterm, houter⟩ := takes_clause_iff.mp h
  obtain ⟨rfl, _⟩ := takes_indexName_iff.mp hfield
  obtain rfl := takes_relationSymbol_iff.mp hsymbol
  obtain ⟨ms, hms, hadmits, rfl⟩ := sound_modifiers hinner
  obtain ⟨ns, hns, hadmits', hset⟩ := sound_modifiers houter
  obtain ⟨t, rfl⟩ : ∃ t, i₃ = .ok ⟨t, c.term.span⟩ :: i₄ := by
    rcases takes_searchTerm_iff.mp hterm with rfl | rfl
    · exact ⟨_, rfl⟩
    · exact ⟨_, rfl⟩
  obtain ⟨⟨_, hmarks⟩, a, hfieldSpan, hf⟩ := follow_cons hf
  obtain ⟨⟨hsymbolWithin, _⟩, b, hsymbolSpan, hf⟩ := follow_cons hf
  obtain ⟨b', hb, hf⟩ := follow_of_consumes hms hf
  obtain ⟨⟨htermWithin, _⟩, d, htermSpan, hf⟩ := follow_cons hf
  obtain ⟨e, he, hf⟩ := follow_of_consumes hns hf
  have htail : c.term.span.Between a e :=
    ⟨Nat.le_trans (Nat.le_trans (Nat.le_of_lt hsymbolSpan.lt) hb) htermSpan.start, htermSpan.nonempty,
      Nat.le_trans htermSpan.stop he⟩
  refine ⟨e, ⟨⟨?_, hsymbolWithin, htermWithin, ?_, ?_, ?_⟩, hfieldSpan.merge htail⟩, hf⟩
  · exact Span.slice?_eq_some_iff.mpr (hmarks _ rfl)
  · exact ⟨hfieldSpan.nonempty, Nat.le_trans hfieldSpan.stop hsymbolSpan.start⟩
  · exact ⟨hsymbolSpan.nonempty, Nat.le_trans hsymbolSpan.stop (Nat.le_trans hb htermSpan.start)⟩
  · rw [hset]
    exact (Modifiers.consistent_empty.insertAll hadmits).insertAll hadmits'

/-- What is made of a category is placed well and lies between two offsets. -/
def Category.Stands (text : String) (a : Nat) : (n : Category) → n.Tree → Nat → Prop
  | .disjuncts | .conjuncts => Filter.StandInOrder text a
  | .disjunction | .conjunction | .negated | .term => Filter.Stands text a

/-- **What a run makes of items that follow each other is placed well.** -/
theorem stands_run {c : Category} {tree : c.Tree} (h : Run size levels c input tree rest)
    (hf : Follow text.toList n input) : ∃ m, c.Stands text n tree m ∧ Follow text.toList m rest := by
  induction h generalizing n with
  | disjunction _ _ ihf ihr =>
    obtain ⟨m, hfirst, hf⟩ := ihf hf
    obtain ⟨k, hparts, hf⟩ := ihr hf
    exact ⟨k, Filter.stands_chain .or (fun _ h => h) hfirst hparts, hf⟩
  | noDisjunct | noConjunct => exact ⟨n, .nil (Nat.le_refl n), hf⟩
  | disjunct _ _ _ ihp ihr | conjunct _ _ _ ihp ihr =>
    obtain ⟨_, a, hword, hf⟩ := follow_cons hf
    obtain ⟨m, hpart, hf⟩ := ihp hf
    obtain ⟨k, hparts, hf⟩ := ihr hf
    have hall : Filter.StandInOrder text a (_ :: _) k := .cons hpart.1 hpart.2 hparts
    exact ⟨k, hall.from_earlier (Nat.le_of_lt hword.lt), hf⟩
  | conjunction _ _ ihf ihr =>
    obtain ⟨m, hfirst, hf⟩ := ihf hf
    obtain ⟨k, hparts, hf⟩ := ihr hf
    exact ⟨k, Filter.stands_chain .and (fun _ h => h) hfirst hparts, hf⟩
  | exception _ _ _ ihp ihr =>
    obtain ⟨⟨hwithin, _⟩, a, hword, hf⟩ := follow_cons hf
    obtain ⟨m, hpart, hf⟩ := ihp hf
    obtain ⟨k, hparts, hf⟩ := ihr hf
    obtain ⟨hplaced, hspan⟩ := Filter.stands_negation hword hwithin hpart
    exact ⟨k, .cons hplaced hspan hparts, hf⟩
  | plain _ ih => exact ih hf
  | negated _ _ ih =>
    obtain ⟨⟨hwithin, _⟩, a, hword, hf⟩ := follow_cons hf
    obtain ⟨m, hpart, hf⟩ := ih hf
    exact ⟨m, Filter.stands_negation hword hwithin hpart, hf⟩
  | clause hc =>
    obtain ⟨m, ⟨hplaced, hspan⟩, hf⟩ := stands_clause hc hf
    exact ⟨m, ⟨.clause hplaced, hspan⟩, hf⟩
  | group _ ih =>
    -- the parentheses lie outside of what is covered
    obtain ⟨_, a, hopening, hf⟩ := follow_cons hf
    obtain ⟨m, ⟨hplaced, hspan⟩, hf⟩ := ih hf
    obtain ⟨_, k, hclosing, hf⟩ := follow_cons hf
    refine ⟨k, ⟨hplaced, ?_, hspan.nonempty, ?_⟩, hf⟩
    · exact Nat.le_trans (Nat.le_of_lt hopening.lt) hspan.start
    · exact Nat.le_trans hspan.stop (Nat.le_of_lt hclosing.lt)

end Runs

/-! ## 4. Spans -/

namespace Filter

mutual

/-- All spans in the filter. -/
def spans : Filter → List Span
  | combined _ children span => span :: spansOf children
  | clause c => [c.span, c.field.span, c.symbol.span, c.term.span]

/-- All spans in several filters. -/
def spansOf : List Filter → List Span
  | [] => []
  | f :: rest => spans f ++ spansOf rest

end

variable {text : String}

mutual

theorem WellPlaced.spans_within {f : Filter} (h : f.WellPlaced text) : ∀ s ∈ f.spans, s.Within text.toList := by
  cases h with
  | clause hc =>
    have hfield := (Span.slice?_eq_some_iff.mp hc.field).within
    rw [spans]
    refine List.forall_mem_cons.mpr ⟨hc.within, List.forall_mem_cons.mpr ⟨hfield, ?_⟩⟩
    exact List.forall_mem_cons.mpr ⟨hc.symbol, List.forall_mem_singleton.mpr hc.term⟩
  | combined _ within _ _ parts =>
    rw [spans]
    exact List.forall_mem_cons.mpr ⟨within, spansOf_within parts⟩

theorem spansOf_within {fs : List Filter} (h : ∀ f ∈ fs, f.WellPlaced text) :
    ∀ s ∈ spansOf fs, s.Within text.toList := by
  cases fs with
  | nil =>
    rw [spansOf]
    exact nofun
  | cons f fs =>
    obtain ⟨hf, hfs⟩ := List.forall_mem_cons.mp h
    rw [spansOf]
    exact List.forall_mem_append.mpr ⟨hf.spans_within, spansOf_within hfs⟩

end

end Filter

/-! ## 5. Queries -/

/-- All spans in the query. -/
def Query.spans (q : Query) : List Span :=
  q.span :: q.filter.elim [] Filter.spans ++ q.sort.flatMap fun c => [c.span, c.field.span]

/-- The filter is placed well, and its search clauses stand one behind the other. The sort clauses stand behind
the filter, one behind the other, with their names as they are written. -/
structure Query.WellPlaced (text : String) (q : Query) : Prop where
  whole : q.span = ⟨0, text.utf8ByteSize⟩
  filter : ∀ f, q.filter = some f → f.WellPlaced text
  clauses : q.clauses.Pairwise fun c d => c.span.Before d.span
  names : ∀ c ∈ q.sort, c.field.span.slice? text = some c.field.value
  sort : q.sort.Pairwise fun c d => c.span.Before d.span
  last : ∀ f, q.filter = some f → ∀ c ∈ q.sort, f.span.Before c.span

/-- What is left behind the filter follows it. -/
theorem stands_filter {text : String} {size limit : Nat} {input rest : List Item} {o : Option Filter}
    (h : filter size limit input = .ok (o, rest)) (hf : Follow text.toList 0 input) :
    ∃ m, (∀ f, o = some f → Filter.Stands text 0 f m) ∧ Follow text.toList m rest := by
  rcases filter_eq_ok_cases h with ⟨rfl, rfl⟩ | ⟨rfl, t, rfl, _⟩ | ⟨f, rfl, htakes⟩
  · exact ⟨0, nofun, hf⟩
  · obtain ⟨_, m, _, hf⟩ := follow_cons hf
    exact ⟨m, nofun, hf⟩
  · obtain ⟨m, hstands, hf⟩ := stands_run (run_of_takes htakes) hf
    refine ⟨m, fun f' he => ?_, hf⟩
    cases he
    exact hstands

/-- **The tree of every query that is read lies over its text.** Each connective has as many parts as it takes,
no clause has a modifier together with its opposite, nodes cover their parts, and parts, clauses and what is
in them stand one behind the other; every span starts and stops where characters do. -/
theorem wellPlaced_of_parse {text : String} {limit : Nat} {q : Query} (h : Query.parse text limit = .ok q) :
    q.WellPlaced text ∧ ∀ s ∈ q.spans, s.start ≤ s.stop ∧ s.stop ≤ text.utf8ByteSize ∧
      IsBoundary text.toList s.start ∧ IsBoundary text.toList s.stop := by
  have hplaced : q.Placed text.toList := by
    have hsafe := Query.safe_parse text limit
    rwa [h] at hsafe
  have horder := hplaced.inTextOrder
  obtain ⟨mid, hfilter, hsorting, hspan⟩ := query_eq_ok_iff.mp h
  obtain ⟨m, hstands, hmid⟩ := stands_filter hfilter (Lexer.stands_ofText text).items
  obtain ⟨k, hsort, _⟩ : Sorted text.toList m (q.sort, []) := by
    have hsafe := safe_sorting (Span.within_end text) hmid
    rwa [hsorting] at hsafe
  have hwell : q.WellPlaced text := by
    refine ⟨hspan, fun f hf => (hstands f hf).1, horder.clauses, fun c hc => ?_, horder.sort, fun f hf c hc => ?_⟩
    · exact Span.slice?_eq_some_iff.mpr (hsort.of_mem hc).1.field
    · obtain ⟨_, hfspan⟩ := hstands f hf
      exact ⟨hfspan.nonempty, Nat.le_trans hfspan.stop (hsort.of_mem hc).2.start⟩
  have hwithin : ∀ s ∈ q.spans, s.Within text.toList := by
    unfold Query.spans
    refine List.forall_mem_append.mpr ⟨List.forall_mem_cons.mpr ⟨?_, ?_⟩, fun s hs => ?_⟩
    · rw [hspan]
      exact ⟨text.toList, [], [], by simp, by simp [utf8ByteSize_eq]⟩
    · cases hf : q.filter with
      | none => exact nofun
      | some f => exact (hwell.filter f hf).spans_within
    · obtain ⟨c, hc, hs⟩ := List.mem_flatMap.mp hs
      obtain ⟨hclause, _⟩ := hsort.of_mem hc
      rcases List.mem_pair.mp hs with rfl | rfl
      · exact hclause.within
      · exact hclause.field.within
  refine ⟨hwell, fun s hs => ?_⟩
  obtain ⟨hle, hstart, hstop⟩ := Span.within_iff.mp (hwithin s hs)
  exact ⟨hle, utf8ByteSize_eq text ▸ hstop.le, hstart, hstop⟩

/-- An exception covers its reserved word and the group behind it, of which the parentheses do not count. -/
theorem wellPlaced_exception :
    ∃ q, Query.parse "a=1 not (b=2 or ä=3) sortBy d" 1 = .ok q ∧ q.WellPlaced "a=1 not (b=2 or ä=3) sortBy d" ∧
      q.spans = [⟨0, 30⟩, ⟨0, 20⟩, ⟨0, 3⟩, ⟨0, 1⟩, ⟨1, 2⟩, ⟨2, 3⟩, ⟨4, 20⟩, ⟨9, 20⟩, ⟨9, 12⟩, ⟨9, 10⟩, ⟨10, 11⟩,
        ⟨11, 12⟩, ⟨16, 20⟩, ⟨16, 18⟩, ⟨18, 19⟩, ⟨19, 20⟩, ⟨29, 30⟩, ⟨29, 30⟩] := by
  have hspans : (Query.parse "a=1 not (b=2 or ä=3) sortBy d" 1).map Query.spans = .ok [⟨0, 30⟩, ⟨0, 20⟩, ⟨0, 3⟩,
      ⟨0, 1⟩, ⟨1, 2⟩, ⟨2, 3⟩, ⟨4, 20⟩, ⟨9, 20⟩, ⟨9, 12⟩, ⟨9, 10⟩, ⟨10, 11⟩, ⟨11, 12⟩, ⟨16, 20⟩, ⟨16, 18⟩, ⟨18, 19⟩,
      ⟨19, 20⟩, ⟨29, 30⟩, ⟨29, 30⟩] := toOption_eq_some_iff.mp (by decide +kernel)
  obtain ⟨q, hq, hspans⟩ := map_eq_ok_iff.mp hspans
  obtain ⟨hwell, _⟩ := wellPlaced_of_parse hq
  exact ⟨q, hq, hwell, hspans⟩

end ContextualQuery
