import ContextualQuery.Proofs.ParserRules
import ContextualQuery.Proofs.Places
/-!
# Clauses stand in the order of the text

A query is read in one pass from the front. So each of its clauses has its place in the text, where it can be
cut out; the clauses stand there one behind the other, in the order in which the query lists them; and a
reader that stops does so at a place that can be shown.

* `SearchClause.Placed`, `SortClause.Placed`: names are marked as they are written, clauses can be cut out;
* `Query.Placed`: so it is with all clauses of a query, which lie one behind the other;
* `Parser.Safe`: a reader makes something good or stops at a fault that can be shown, with `Parser.safe_taken`
  for readers one after another and one lemma for each reader, by induction on the items for lists and on the
  levels for groups;
* `Query.safe_parse`: so it is with a whole text, and `Query.Placed.inTextOrder`.
-/

namespace ContextualQuery

/-! ## 1. Places in queries -/

/-- The name of the clause is marked as it is written, and its term can be cut out. -/
structure SearchClause.Placed (text : List Char) (c : SearchClause) : Prop where
  field : c.field.span.Marks text c.field.value.toList
  term : c.term.span.Within text

theorem SearchClause.Placed.within {text : List Char} {c : SearchClause} (h : c.Placed text) :
    c.span.Within text := h.field.within.merge h.term

/-- The name of the clause is marked as it is written, and the clause can be cut out. -/
structure SortClause.Placed (text : List Char) (c : SortClause) : Prop where
  field : c.field.span.Marks text c.field.value.toList
  within : c.span.Within text

/-- Search clauses have their places, one behind the other. -/
abbrev SearchClauses (text : List Char) : Nat → List SearchClause → Nat → Prop :=
  InOrder (SearchClause.Placed text) SearchClause.span

/-- Sort clauses have their places, one behind the other. -/
abbrev SortClauses (text : List Char) : Nat → List SortClause → Nat → Prop :=
  InOrder (SortClause.Placed text) SortClause.span

theorem Filter.clauses_chain (op : Connective) (f : Filter) (fs : List Filter) :
    (Filter.chain op f fs).clauses = f.clauses ++ clausesOf fs := by
  cases fs with
  | nil => rw [chain, clausesOf, List.append_nil]
  | cons g fs =>
    show clauses (.combined op (f :: g :: fs) _) = _
    rw [clauses, clausesOf]

theorem Filter.clauses_negation (word : Span) (f : Filter) :
    (Filter.negation word f).clauses = f.clauses := by
  rw [negation, clauses, clausesOf, clausesOf, List.append_nil]

/-- The search clauses of a query, in the order of the text. -/
def Query.clauses (q : Query) : List SearchClause := q.filter.elim [] Filter.clauses

/-- All clauses of the query have their places, one behind the other, and the sort clauses come last. -/
def Query.Placed (text : List Char) (q : Query) : Prop :=
  ∃ n, SearchClauses text 0 q.clauses n ∧ SortClauses text n q.sort (byteLength text)

theorem Query.Placed.clause {text : List Char} {q : Query} (h : q.Placed text) {c : SearchClause}
    (hc : c ∈ q.clauses) : c.Placed text := by
  obtain ⟨_, hclauses, _⟩ := h
  exact (hclauses.of_mem hc).1

theorem Query.Placed.sort {text : List Char} {q : Query} (h : q.Placed text) {c : SortClause}
    (hc : c ∈ q.sort) : c.Placed text := by
  obtain ⟨_, _, hsort⟩ := h
  exact (hsort.of_mem hc).1

/-- Each clause stops before the next one starts, and the search clauses come before the sort clauses. -/
structure Query.InTextOrder (q : Query) : Prop where
  clauses : q.clauses.Pairwise fun c d => c.span.Before d.span
  sort : q.sort.Pairwise fun c d => c.span.Before d.span
  last : ∀ c ∈ q.clauses, ∀ d ∈ q.sort, c.span.Before d.span

theorem Query.Placed.inTextOrder {text : List Char} {q : Query} (h : q.Placed text) : q.InTextOrder := by
  obtain ⟨n, hclauses, hsort⟩ := h
  refine ⟨hclauses.pairwise, hsort.pairwise, fun c hc d hd => ?_⟩
  obtain ⟨_, hcspan⟩ := hclauses.of_mem hc
  obtain ⟨_, hdspan⟩ := hsort.of_mem hd
  exact ⟨hcspan.nonempty, Nat.le_trans hcspan.stop hdspan.start⟩

/-! ## 2. Readers -/

/-- Items have their places, one behind the other, from an offset on. -/
def Follow (text : List Char) (n : Nat) (items : List Item) : Prop :=
  InOrder (Item.Placed text) Item.span n items (byteLength text)

theorem follow_cons {text : List Char} {n : Nat} {i : Item} {items : List Item}
    (h : Follow text n (i :: items)) :
    i.Placed text ∧ ∃ m, i.span.Between n m ∧ Follow text m items := by
  cases h with
  | cons hi hspan hitems => exact ⟨hi, _, hspan, hitems⟩

namespace Parser

section Readers

variable {α β : Type} {text : List Char} {good : Nat → α → Nat → Prop} {good' : β → Prop} {n : Nat}

/-- The reader makes something good, or stops at a fault that can be shown. -/
def Safe {α : Type} (text : List Char) (good : α → Prop) : Except QueryFault α → Prop
  | .ok a => good a
  | .error f => f.span.Within text

theorem safe_bind {good : α → Prop} {x : Except QueryFault α} {k : α → Except QueryFault β}
    (hx : Safe text good x) (hk : ∀ a, good a → Safe text good' (k a)) :
    Safe text good' (x >>= k) := by
  cases x with
  | ok a => exact hk a hx
  | error f => exact hx

theorem Safe.imp {good good' : α → Prop} {x : Except QueryFault α} (hx : Safe text good x)
    (h : ∀ a, good a → good' a) : Safe text good' x := by
  cases x with
  | ok a => exact h a hx
  | error f => exact hx

/-- What is taken is good between two offsets, and what is left follows the second one. -/
def Taken (text : List Char) (good : Nat → α → Nat → Prop) (n : Nat) {least : Nat} {input : List Item}
    (p : Portion least α input) : Prop :=
  ∃ m, good n p.value m ∧ Follow text m p.rest

theorem safe_taken {least : Nat} {input : List Item} {x : Except QueryFault (Portion least α input)}
    {k : Portion least α input → Except QueryFault β} (hx : Safe text (Taken text good n) x)
    (hk : ∀ a rest h m, good n a m → Follow text m rest → Safe text good' (k ⟨a, rest, h⟩)) :
    Safe text good' (x >>= k) :=
  safe_bind hx fun p hp => by
    obtain ⟨m, hgood, hrest⟩ := hp
    exact hk p.value p.rest p.enough m hgood hrest

end Readers

/-- The value is good, and its span lies between two offsets. -/
def Lies {α : Type} (good : α → Prop) (span : α → Span) (n : Nat) (a : α) (m : Nat) : Prop :=
  good a ∧ (span a).Between n m

/-- A token has its place. -/
abbrev Lexed (text : List Char) : Nat → Located Token → Nat → Prop :=
  Lies (fun t => Item.Placed text (.ok t)) Located.span

/-- A name is marked as it is written. -/
abbrev Named (text : List Char) : Nat → Located String → Nat → Prop :=
  Lies (fun a => a.span.Marks text a.value.toList) Located.span

/-- A value can be cut out. -/
abbrev Shown {α : Type} (text : List Char) : Nat → Located α → Nat → Prop :=
  Lies (fun a => a.span.Within text) Located.span

/-- Nothing is known of the value. -/
def Crossed {α : Type} (n : Nat) (_ : α) (m : Nat) : Prop := n ≤ m

variable {text : List Char} {size n : Nat} {input : List Item}

/-! ### Single tokens -/

theorem safe_token (hend : (endSpan size).Within text) (h : Follow text n input) :
    Safe text (Taken text (Lexed text) n) (token size input) := by
  cases input with
  | nil => exact hend
  | cons i rest =>
    obtain ⟨hi, m, hspan, hrest⟩ := follow_cons h
    cases i with
    | error f => exact hi
    | ok t => exact ⟨m, ⟨hi, hspan⟩, hrest⟩

theorem safe_indexName (hend : (endSpan size).Within text) (e : Expectation) (h : Follow text n input) :
    Safe text (Taken text (Named text) n) (indexName size e input) := by
  refine safe_taken (safe_token hend h) fun t rest hlt m ht hrest => ?_
  obtain ⟨v, s⟩ := t
  obtain ⟨⟨hwithin, hword⟩, hspan⟩ := ht
  cases v with
  | word w =>
    show Safe text _ (if (Keyword.ofWord? w).isSome then _ else _)
    split
    · exact hwithin
    · exact ⟨m, ⟨hword w rfl, hspan⟩, hrest⟩
  | _ => exact hwithin

theorem safe_relationSymbol (hend : (endSpan size).Within text) (h : Follow text n input) :
    Safe text (Taken text (Shown text) n) (relationSymbol size input) := by
  refine safe_taken (safe_token hend h) fun t rest hlt m ht hrest => ?_
  obtain ⟨v, s⟩ := t
  obtain ⟨⟨hwithin, _⟩, hspan⟩ := ht
  cases v with
  | relation symbol => exact ⟨m, ⟨hwithin, hspan⟩, hrest⟩
  | _ => exact hwithin

theorem safe_searchTerm (hend : (endSpan size).Within text) (h : Follow text n input) :
    Safe text (Taken text (Shown text) n) (searchTerm size input) := by
  refine safe_taken (safe_token hend h) fun t rest hlt m ht hrest => ?_
  obtain ⟨v, s⟩ := t
  obtain ⟨⟨hwithin, _⟩, hspan⟩ := ht
  cases v with
  | word w => exact ⟨m, ⟨hwithin, hspan⟩, hrest⟩
  | phrase content => exact ⟨m, ⟨hwithin, hspan⟩, hrest⟩
  | _ => exact hwithin

theorem safe_name (hend : (endSpan size).Within text) (e : Expectation) (h : Follow text n input) :
    Safe text (Taken text (Shown text) n) (name size e input) := by
  refine safe_taken (safe_token hend h) fun t rest hlt m ht hrest => ?_
  obtain ⟨v, s⟩ := t
  obtain ⟨⟨hwithin, _⟩, hspan⟩ := ht
  cases v with
  | word w => exact ⟨m, ⟨hwithin, hspan⟩, hrest⟩
  | _ => exact hwithin

theorem safe_closeParen (hend : (endSpan size).Within text) (h : Follow text n input) :
    Safe text (Taken text Crossed n) (closeParen size input) := by
  cases input with
  | nil => exact hend
  | cons i rest =>
    obtain ⟨hi, m, hspan, hrest⟩ := follow_cons h
    cases i with
    | error f => exact hi
    | ok t =>
      rw [closeParen]
      split
      · exact ⟨m, Nat.le_of_lt hspan.lt, hrest⟩
      · exact hi.1

theorem safe_nextIs (p : Token → Bool) (h : Follow text n input) :
    Safe text (fun _ => True) (nextIs p input) := by
  cases input with
  | nil => trivial
  | cons i rest =>
    obtain ⟨hi, _⟩ := follow_cons h
    cases i with
    | error f => exact hi
    | ok t => trivial

/-! ### Search clauses -/

theorem safe_addModifier (set : Modifiers) {name : Located String} (h : name.span.Within text) :
    Safe text (fun _ => True) (addModifier set name) := by
  unfold addModifier
  split
  · exact h
  · split
    · exact h
    · trivial

theorem safe_modifiers (hend : (endSpan size).Within text) (set : Modifiers) {n : Nat}
    {input : List Item} (h : Follow text n input) :
    Safe text (Taken text Crossed n) (modifiers size set input) := by
  rcases stops_or (· == .slash) input with hs | ⟨f, rest, rfl⟩ | ⟨t, s, rest, he, ht⟩
  · obtain ⟨_, hstop⟩ := (takes_modifiers_stop hs).mpr ⟨rfl, rfl⟩
    rw [hstop]
    exact ⟨n, Nat.le_refl n, h⟩
  · rw [modifiers]
    exact (follow_cons h).1
  · obtain rfl : t = .slash := eq_of_beq ht
    rw [he] at h ⊢
    obtain ⟨_, m, hslash, hrest⟩ := follow_cons h
    rw [modifiers]
    refine safe_taken (safe_name hend .modifierName hrest) fun name rest' hlt m' hname hrest' => ?_
    have hshorter : rest'.length < input.length := he ▸ Nat.lt_succ_of_lt hlt
    refine safe_bind (safe_addModifier set hname.1) fun set' _ => ?_
    refine safe_taken (safe_modifiers hend set' hrest') fun _ rest'' _ k hlater hrest'' => ?_
    have hfirst : n ≤ m' := Nat.le_of_lt (Nat.lt_trans hslash.lt hname.2.lt)
    exact ⟨k, Nat.le_trans hfirst hlater, hrest''⟩
termination_by input.length
decreasing_by exact hshorter

theorem safe_clause (hend : (endSpan size).Within text) (h : Follow text n input) :
    Safe text (Taken text (Lies (SearchClause.Placed text) SearchClause.span) n) (clause size input) := by
  refine safe_taken (safe_indexName hend .searchClause h) fun field rest _ a hfield hrest => ?_
  refine safe_taken (safe_relationSymbol hend hrest) fun symbol rest _ b hsymbol hrest => ?_
  refine safe_taken (safe_modifiers hend .empty hrest) fun set rest _ c hinner hrest => ?_
  refine safe_taken (safe_searchTerm hend hrest) fun term rest _ d hterm hrest => ?_
  refine safe_taken (safe_modifiers hend set hrest) fun set rest _ e houter hrest => ?_
  have hmiddle : a ≤ c := Nat.le_trans (Nat.le_of_lt hsymbol.2.lt) hinner
  have htail : term.span.Between a e :=
    ⟨Nat.le_trans hmiddle hterm.2.start, hterm.2.nonempty, Nat.le_trans hterm.2.stop houter⟩
  exact ⟨e, ⟨⟨hfield.1, hterm.1⟩, hfield.2.merge htail⟩, hrest⟩

/-! ### Filters -/

/-- The clauses of a filter have their places. -/
def FilterBetween (text : List Char) (n : Nat) (f : Filter) (m : Nat) : Prop :=
  SearchClauses text n f.clauses m

/-- The clauses of several filters have their places. -/
def FiltersBetween (text : List Char) (n : Nat) (fs : List Filter) (m : Nat) : Prop :=
  SearchClauses text n (Filter.clausesOf fs) m

theorem filterBetween_clause {c : SearchClause} {m : Nat}
    (h : Lies (SearchClause.Placed text) SearchClause.span n c m) :
    FilterBetween text n (.clause c) m := by
  rw [FilterBetween, Filter.clauses]
  exact .singleton h.1 h.2

theorem filterBetween_negation {f : Filter} {m k : Nat} (h : FilterBetween text m f k) (word : Span)
    (hn : n ≤ m) : FilterBetween text n (.negation word f) k := by
  rw [FilterBetween, Filter.clauses_negation]
  exact h.from_earlier hn

theorem filterBetween_chain {f : Filter} {fs : List Filter} {m k : Nat} (hf : FilterBetween text n f m)
    (hfs : FiltersBetween text m fs k) (op : Connective) : FilterBetween text n (.chain op f fs) k := by
  rw [FilterBetween, Filter.clauses_chain]
  exact hf.append hfs

theorem filtersBetween_nil : FiltersBetween text n [] n := by
  rw [FiltersBetween, Filter.clausesOf]
  exact .nil (Nat.le_refl n)

theorem filtersBetween_cons {f : Filter} {fs : List Filter} {m k l : Nat} (hn : n ≤ m)
    (hf : FilterBetween text m f k) (hfs : FiltersBetween text k fs l) :
    FiltersBetween text n (f :: fs) l := by
  rw [FiltersBetween, Filter.clausesOf]
  exact (hf.from_earlier hn).append hfs

/-- The reader of groups is safe. -/
def SafeGroup (text : List Char) (g : GroupReader) : Prop :=
  ∀ opening n input, opening.Within text → Follow text n input →
    Safe text (Taken text (FilterBetween text) n) (g opening input)

section Filters

variable {g : GroupReader} (hend : (endSpan size).Within text) (hg : SafeGroup text g)

include hend hg

theorem safe_term {n : Nat} (h : Follow text n input) :
    Safe text (Taken text (FilterBetween text) n) (term size g input) := by
  unfold term
  split
  · rename_i opening rest
    obtain ⟨⟨hopening, _⟩, m, hspan, hrest⟩ := follow_cons h
    refine safe_taken (hg opening m rest hopening hrest) fun inner rest' _ k hinner hrest' => ?_
    refine safe_taken (safe_closeParen hend hrest') fun _ rest'' _ l hclose hrest'' => ?_
    exact ⟨l, (hinner.from_earlier (Nat.le_of_lt hspan.lt)).to_later hclose, hrest''⟩
  · exact (follow_cons h).1
  · refine safe_taken (safe_clause hend h) fun c rest _ m hc hrest => ?_
    exact ⟨m, filterBetween_clause hc, hrest⟩

theorem safe_negated (h : Follow text n input) :
    Safe text (Taken text (FilterBetween text) n) (negated size g input) := by
  unfold negated
  split
  · rename_i t rest
    split
    · obtain ⟨_, m, hspan, hrest⟩ := follow_cons h
      refine safe_taken (safe_term hend hg hrest) fun inner rest' _ k hinner hrest' => ?_
      exact ⟨k, filterBetween_negation hinner t.span (Nat.le_of_lt hspan.lt), hrest'⟩
    · exact safe_term hend hg h
  · exact safe_term hend hg h

theorem safe_conjuncts {n : Nat} {input : List Item} (h : Follow text n input) :
    Safe text (Taken text (FiltersBetween text) n) (conjuncts size g input) := by
  cases he : input with
  | nil =>
    rw [he] at h
    rw [conjuncts]
    exact ⟨n, filtersBetween_nil, h⟩
  | cons i rest =>
    rw [he] at h
    obtain ⟨hi, m, hspan, hrest⟩ := follow_cons h
    have hword : n ≤ m := Nat.le_of_lt hspan.lt
    cases i with
    | error f =>
      rw [conjuncts]
      exact hi
    | ok t =>
      rw [conjuncts]
      split
      · refine safe_taken (safe_negated hend hg hrest) fun part rest' hlt k hpart hrest' => ?_
        have hshorter : rest'.length < input.length := he ▸ Nat.lt_succ_of_lt hlt
        refine safe_taken (safe_conjuncts hrest') fun parts rest'' _ l hparts hrest'' => ?_
        exact ⟨l, filtersBetween_cons hword hpart hparts, hrest''⟩
      · split
        · refine safe_taken (safe_term hend hg hrest) fun part rest' hlt k hpart hrest' => ?_
          have hshorter : rest'.length < input.length := he ▸ Nat.lt_succ_of_lt hlt
          have hnegation := filterBetween_negation hpart t.span hword
          refine safe_taken (safe_conjuncts hrest') fun parts rest'' _ l hparts hrest'' => ?_
          exact ⟨l, filtersBetween_cons (Nat.le_refl n) hnegation hparts, hrest''⟩
        · exact ⟨n, filtersBetween_nil, h⟩
termination_by input.length
decreasing_by all_goals exact hshorter

theorem safe_conjunction (h : Follow text n input) :
    Safe text (Taken text (FilterBetween text) n) (conjunction size g input) := by
  refine safe_taken (safe_negated hend hg h) fun first rest _ m hfirst hrest => ?_
  refine safe_taken (safe_conjuncts hend hg hrest) fun parts rest _ k hparts hrest => ?_
  exact ⟨k, filterBetween_chain hfirst hparts .and, hrest⟩

theorem safe_disjuncts {n : Nat} {input : List Item} (h : Follow text n input) :
    Safe text (Taken text (FiltersBetween text) n) (disjuncts size g input) := by
  cases he : input with
  | nil =>
    rw [he] at h
    rw [disjuncts]
    exact ⟨n, filtersBetween_nil, h⟩
  | cons i rest =>
    rw [he] at h
    obtain ⟨hi, m, hspan, hrest⟩ := follow_cons h
    cases i with
    | error f =>
      rw [disjuncts]
      exact hi
    | ok t =>
      rw [disjuncts]
      split
      · refine safe_taken (safe_conjunction hend hg hrest) fun part rest' hlt k hpart hrest' => ?_
        have hshorter : rest'.length < input.length := he ▸ Nat.lt_succ_of_lt hlt
        refine safe_taken (safe_disjuncts hrest') fun parts rest'' _ l hparts hrest'' => ?_
        exact ⟨l, filtersBetween_cons (Nat.le_of_lt hspan.lt) hpart hparts, hrest''⟩
      · exact ⟨n, filtersBetween_nil, h⟩
termination_by input.length
decreasing_by exact hshorter

theorem safe_disjunction (h : Follow text n input) :
    Safe text (Taken text (FilterBetween text) n) (disjunction size g input) := by
  refine safe_taken (safe_conjunction hend hg h) fun first rest _ m hfirst hrest => ?_
  refine safe_taken (safe_disjuncts hend hg hrest) fun parts rest _ k hparts hrest => ?_
  exact ⟨k, filterBetween_chain hfirst hparts .or, hrest⟩

end Filters

/-- **Groups are safe at every level**: if no level may be opened any more, the parenthesis is shown. -/
theorem safeGroup_group (hend : (endSpan size).Within text) (limit levels : Nat) :
    SafeGroup text (group size limit levels) := by
  induction levels with
  | zero => exact fun _ _ _ hopening _ => hopening
  | succ levels ih => exact fun _ _ _ _ h => safe_disjunction hend ih h

/-! ### Sort specifications -/

/-- The span of a key that starts behind an offset goes on to where its directions end. -/
def KeyFrom (text : List Char) (start : Nat) (_ : Nat) (r : Option Direction × Span) (m : Nat) : Prop :=
  Lies (fun r : Option Direction × Span => r.2.Within text) Prod.snd start r m

theorem safe_directions (hend : (endSpan size).Within text) {start n : Nat} {key : Span}
    (hkey : key.Within text) (hspan : key.Between start n) (found : Option Direction)
    {input : List Item} (h : Follow text n input) :
    Safe text (Taken text (KeyFrom text start) n) (directions size key found input) := by
  rcases stops_or (· == .slash) input with hs | ⟨f, rest, rfl⟩ | ⟨t, s, rest, he, ht⟩
  · obtain ⟨_, hstop⟩ := (takes_directions_stop hs).mpr ⟨rfl, rfl⟩
    rw [hstop]
    exact ⟨n, ⟨hkey, hspan⟩, h⟩
  · rw [directions]
    exact (follow_cons h).1
  · obtain rfl : t = .slash := eq_of_beq ht
    rw [he] at h ⊢
    obtain ⟨_, m, hslash, hrest⟩ := follow_cons h
    rw [directions]
    refine safe_taken (safe_name hend .sortModifier hrest) fun name rest' hlt k hname hrest' => ?_
    have hshorter : rest'.length < input.length := he ▸ Nat.lt_succ_of_lt hlt
    have hname' : name.span.Between n k :=
      ⟨Nat.le_trans (Nat.le_of_lt hslash.lt) hname.2.start, hname.2.nonempty, hname.2.stop⟩
    simp only
    split
    · exact hname.1
    · rename_i d hd
      split
      · exact hname.1
      · have hdirections := safe_directions hend (hkey.merge hname.1) (hspan.merge hname') (some d) hrest'
        refine safe_taken hdirections fun r rest'' _ l hr hrest'' => ?_
        exact ⟨l, hr, hrest''⟩
termination_by input.length
decreasing_by exact hshorter

theorem safe_sortClause (hend : (endSpan size).Within text) (h : Follow text n input) :
    Safe text (Taken text (Lies (SortClause.Placed text) SortClause.span) n) (sortClause size input) := by
  refine safe_taken (safe_indexName hend .sortKey h) fun field rest _ m hfield hrest => ?_
  have hdirections := safe_directions hend hfield.1.within hfield.2 none hrest
  refine safe_taken hdirections fun r rest _ k hspan hrest => ?_
  exact ⟨k, ⟨⟨hfield.1, hspan.1⟩, hspan.2⟩, hrest⟩

theorem safe_sortClauses (hend : (endSpan size).Within text) {n : Nat} {input : List Item}
    (h : Follow text n input) : Safe text (Taken text (SortClauses text) n) (sortClauses size input) := by
  cases he : input with
  | nil =>
    rw [he] at h
    rw [sortClauses]
    exact ⟨n, .nil (Nat.le_refl n), h⟩
  | cons i rest =>
    rw [he] at h
    obtain ⟨hi, _⟩ := follow_cons h
    cases i with
    | error f =>
      rw [sortClauses]
      exact hi
    | ok t =>
      rw [sortClauses]
      split
      · refine safe_taken (safe_sortClause hend h) fun key rest' hlt m hkey hrest' => ?_
        have hshorter : rest'.length < input.length := he ▸ hlt
        refine safe_taken (safe_sortClauses hend hrest') fun keys rest'' _ k hkeys hrest'' => ?_
        exact ⟨k, .cons hkey.1 hkey.2 hkeys, hrest''⟩
      · exact ⟨n, .nil (Nat.le_refl n), h⟩
termination_by input.length
decreasing_by exact hshorter

/-- The sort clauses have their places, and what is left follows them. -/
def Sorted (text : List Char) (n : Nat) (r : List SortClause × List Item) : Prop :=
  ∃ m, SortClauses text n r.1 m ∧ Follow text m r.2

theorem safe_sortSpecification (hend : (endSpan size).Within text) (h : Follow text n input) :
    Safe text (Sorted text n) (sortSpecification size input) := by
  refine safe_taken (safe_sortClauses hend h) fun keys rest _ m hkeys hrest => ?_
  simp only
  split
  · exact (follow_cons hrest).1.1
  · exact (follow_cons hrest).1
  · exact hend
  · exact ⟨m, hkeys, hrest⟩

/-! ### Queries -/

theorem safe_bareTermFollows (h : Follow text n input) :
    Safe text (fun _ => True) (bareTermFollows input) := by
  unfold bareTermFollows
  split
  · obtain ⟨_, m, _, hrest⟩ := follow_cons h
    split
    · split
      · trivial
      · exact (follow_cons hrest).1
      · trivial
    · trivial
  · trivial

theorem follow_drop (h : Follow text n input) : ∃ m, n ≤ m ∧ Follow text m (input.drop 1) := by
  cases input with
  | nil => exact ⟨n, Nat.le_refl n, h⟩
  | cons i rest =>
    obtain ⟨_, m, hspan, hrest⟩ := follow_cons h
    exact ⟨m, Nat.le_of_lt hspan.lt, hrest⟩

/-- The search clauses have their places, and what is left follows them. -/
def Filtered (text : List Char) (n : Nat) (r : Option Filter × List Item) : Prop :=
  ∃ m, SearchClauses text n (r.1.elim [] Filter.clauses) m ∧ Follow text m r.2

theorem safe_filter (hend : (endSpan size).Within text) (limit : Nat) (h : Follow text n input) :
    Safe text (Filtered text n) (filter size limit input) := by
  unfold filter
  refine safe_bind (safe_nextIs _ h) fun _ _ => ?_
  split
  · exact ⟨n, .nil (Nat.le_refl n), h⟩
  · refine safe_bind (safe_bareTermFollows h) fun _ _ => ?_
    split
    · obtain ⟨m, hlater, hrest⟩ := follow_drop h
      exact ⟨m, .nil hlater, hrest⟩
    · have hdisjunction := safe_disjunction hend (safeGroup_group hend limit limit) h
      refine safe_taken hdisjunction fun f rest _ m hf hrest => ?_
      exact ⟨m, hf, hrest⟩

theorem safe_sorting (hend : (endSpan size).Within text) (h : Follow text n input) :
    Safe text (Sorted text n) (sorting size input) := by
  unfold sorting
  refine safe_bind (safe_nextIs _ h) fun _ _ => ?_
  split
  · obtain ⟨m, hlater, hrest⟩ := follow_drop h
    refine (safe_sortSpecification hend hrest).imp fun r hr => ?_
    obtain ⟨k, hkeys, hleft⟩ := hr
    exact ⟨k, hkeys.from_earlier hlater, hleft⟩
  · exact ⟨n, .nil (Nat.le_refl n), h⟩

theorem safe_query (hend : (endSpan size).Within text) (limit : Nat) (h : Follow text 0 input) :
    Safe text (Query.Placed text) (query size limit input) := by
  refine safe_bind (safe_filter hend limit h) fun r hr => ?_
  obtain ⟨f, rest⟩ := r
  obtain ⟨m, hclauses, hrest⟩ := hr
  refine safe_bind (safe_sorting hend hrest) fun r hr => ?_
  obtain ⟨keys, rest⟩ := r
  obtain ⟨k, hkeys, hrest⟩ := hr
  simp only
  split
  · exact ⟨m, hclauses, hkeys.to_later hrest.le⟩
  · exact (follow_cons hrest).1
  · exact (follow_cons hrest).1.1

end Parser

/-- **A query that is read has its places, and a fault against the grammar can be shown.** -/
theorem Query.safe_parse (text : String) (limit : Nat) :
    Parser.Safe text.toList (Query.Placed text.toList) (Query.parse text limit) :=
  Parser.safe_query (Span.within_end text) limit (Lexer.stands_ofText text).items

end ContextualQuery
