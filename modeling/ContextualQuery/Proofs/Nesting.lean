import ContextualQuery.Proofs.Mirroring
import ContextualQuery.Proofs.Pushdown
/-!
# How deep filters nest

A limit on open parentheses bounds the height of the trees that are read, and so whatever goes down these
trees. Between two parentheses a tree grows by an `or`, an `and` and a `not` at most, as the parts of a chain
stand side by side.

* `Category.Shallow`, `shallow_run`: how high the tree of each category is, by induction on runs;
* `Filter.Mirrors.depth`: a predicate is as high as the filter that it mirrors;
* `deepest_of_parse`: the tokens of a query that is read have no more parentheses open than the limit says;
* `limit_bounds_nesting` puts these together with what is on the stack of the parser.
-/

namespace ContextualQuery

/-! ## 1. Filters -/

theorem Filter.depth_negation (word : Span) (f : Filter) : (negation word f).depth = 1 + f.depth := by
  rw [negation, depth, depthOf, depthOf, Nat.max_zero]

/-- A chain is higher than its parts by one at most. -/
theorem Filter.depth_chain_le (op : Connective) (f : Filter) (fs : List Filter) :
    (chain op f fs).depth ≤ 1 + max f.depth (depthOf fs) := by
  cases fs with
  | nil =>
    rw [chain]
    omega
  | cons g fs =>
    show depth (.combined op (f :: g :: fs) _) ≤ _
    rw [depth, depthOf]

/-- How high the tree of a category may be, if so many levels of parentheses are opened in it. -/
def Category.Shallow (levels : Nat) : (n : Category) → n.Tree → Prop
  | .disjunction => fun f : Filter => f.depth ≤ 3 * levels + 4
  | .disjuncts => fun fs : List Filter => Filter.depthOf fs ≤ 3 * levels + 3
  | .conjunction => fun f : Filter => f.depth ≤ 3 * levels + 3
  | .conjuncts => fun fs : List Filter => Filter.depthOf fs ≤ 3 * levels + 2
  | .negated => fun f : Filter => f.depth ≤ 3 * levels + 2
  | .term => fun f : Filter => f.depth ≤ 3 * levels + 1

/-- **A run that opens so many levels makes a tree of bounded height.** -/
theorem shallow_run {size levels : Nat} {n : Category} {input rest : List Item} {tree : n.Tree}
    (h : Run size levels n input tree rest) : n.Shallow levels tree := by
  induction h with
  | @disjunction levels _ _ _ first parts _ _ ihf ihr =>
    have hchain := Filter.depth_chain_le .or first parts
    simp only [Category.Shallow] at ihf ihr ⊢
    omega
  | noDisjunct | noConjunct =>
    simp only [Category.Shallow, Filter.depthOf]
    omega
  | disjunct _ _ _ ihp ihr | conjunct _ _ _ ihp ihr =>
    simp only [Category.Shallow, Filter.depthOf] at ihp ihr ⊢
    omega
  | @conjunction levels _ _ _ first parts _ _ ihf ihr =>
    have hchain := Filter.depth_chain_le .and first parts
    simp only [Category.Shallow] at ihf ihr ⊢
    omega
  | exception _ _ _ ihp ihr =>
    simp only [Category.Shallow, Filter.depthOf, Filter.depth_negation] at ihp ihr ⊢
    omega
  | plain _ ih =>
    simp only [Category.Shallow] at ih ⊢
    omega
  | negated _ _ ih =>
    simp only [Category.Shallow, Filter.depth_negation] at ih ⊢
    omega
  | clause _ =>
    simp only [Category.Shallow, Filter.depth]
    omega
  | group _ ih =>
    -- a filter of one level less, one higher than a term may be there
    simp only [Category.Shallow] at ih ⊢
    omega

/-- **The filter of a query that is read is of bounded height.** -/
theorem depth_of_parse {text : String} {limit : Nat} {q : Query} (h : Query.parse text limit = .ok q)
    {f : Filter} (hf : q.filter = some f) : f.depth ≤ 3 * limit + 4 := by
  obtain ⟨mid, hfilter, _⟩ := Parser.query_eq_ok_iff.mp h
  rw [hf] at hfilter
  rcases Parser.filter_eq_ok_cases hfilter with ⟨hnone, _⟩ | ⟨hnone, _⟩ | ⟨g, hg, htakes⟩
  · cases hnone
  · cases hnone
  · cases hg
    exact shallow_run (run_of_takes htakes)

/-! ## 2. Predicates -/

namespace Filter

variable {holds : SearchClause → Comparison → Prop}

mutual

/-- **A predicate is as high as the filter that it mirrors.** -/
theorem Mirrors.depth {f : Filter} {pr : Predicate} (h : f.Mirrors holds pr) : pr.depth = f.depth := by
  cases f with
  | clause c =>
    rw [Filter.depth]
    cases h with
    | matchAll => rw [Predicate.depth]
    | compare => rw [Predicate.depth]
  | combined op children s =>
    cases h with
    | boolean h => rw [Predicate.depth, Filter.depth, depthOf_of_mirrors h]

theorem depthOf_of_mirrors {fs : List Filter} {prs : List Predicate} (h : List.Forall₂ (Mirrors holds) fs prs) :
    Predicate.depthOf prs = depthOf fs := by
  cases fs with
  | nil =>
    cases h
    rw [Predicate.depthOf, depthOf]
  | cons f fs =>
    cases h with
    | cons hf hfs => rw [Predicate.depthOf, depthOf, hf.depth, depthOf_of_mirrors hfs]

end

end Filter

/-- The height of the filter; to select every record is as high as a clause. -/
def Query.depth (q : Query) : Nat := q.filter.elim 1 Filter.depth

theorem Query.Mirrors.depth {p : Planner} {entity : String} {q : Query} {plan : Plan}
    (h : q.Mirrors p entity plan) : plan.predicate.depth = q.depth := by
  unfold Query.depth
  cases hf : q.filter with
  | none =>
    rw [h.all hf, Predicate.depth]
    rfl
  | some f => exact (h.tree f hf).depth

/-! ## 3. Tokens -/

/-- **A query is read from tokens that have no more parentheses open than the limit says.** -/
theorem deepest_of_parse {text : String} {limit : Nat} {q : Query} (h : Query.parse text limit = .ok q) :
    ∃ ts, tokenize text = .ok ts ∧ deepest 0 (ts.map (·.value)) ≤ limit := by
  obtain ⟨d, ⟨ts, hts, hd⟩, hnesting, _⟩ := derives_of_parse h
  refine ⟨ts, hts, ?_⟩
  rwa [← hd, d.deepest_tokens]

/-! ## 4. The limit -/

/-- **The limit on open parentheses bounds whatever goes down a filter.** A filter that is read is no higher
than three times the limit and four, and its predicate is as high; what has more parentheses open is not
read; and while it is read, no more groups are open on the stack of the parser than the limit says, nor more
than four parts not finished for each of them and three besides, however long the chains are. -/
theorem limit_bounds_nesting (text : String) (limit : Nat) :
    (∀ q f, Query.parse text limit = .ok q → q.filter = some f → f.depth ≤ 3 * limit + 4) ∧
    (∀ (p : Planner) (c : PathCache) (entity : String) (plan : Plan), p.settings.maxDepth = limit →
      p.resolver.Reached c → (p.plan entity text c).1 = .ok plan →
        ∃ q, Query.parse text limit = .ok q ∧ plan.predicate.depth = q.depth) ∧
    (∀ ts, tokenize text = .ok ts → limit < deepest 0 (ts.map (·.value)) →
      ∃ f, Query.parse text limit = .error f) ∧
    ∀ (size : Nat) (input : List Item),
      Pushdown.Comes size limit (Pushdown.start input)
        (Parser.disjunction size (Parser.group size limit limit) input) (Pushdown.given []) ∧
      ∀ s, Pushdown.Steps size limit (Pushdown.start input) s →
        Pushdown.openGroups s.stack ≤ limit ∧ s.stack.length ≤ 4 * limit + 3 := by
  refine ⟨fun q f h hf => depth_of_parse h hf, fun p c entity plan hlimit hc h => ?_, fun ts hts hdeep => ?_,
    fun size input => Pushdown.pushdown_reads_filters size limit input⟩
  · rw [(Planner.plan_of_reached hc entity text).1] at h
    obtain ⟨q, hq, hplan⟩ := bind_eq_ok_iff.mp h
    refine ⟨q, hlimit ▸ Planner.parse_of_query hq, ?_⟩
    exact (Planner.mirrors_planResult hplan).depth
  · cases h : Query.parse text limit with
    | error f => exact ⟨f, rfl⟩
    | ok q =>
      obtain ⟨ts', hts', hle⟩ := deepest_of_parse h
      cases hts.symm.trans hts'
      omega

/-- Persons, where no group may be inside another one. -/
def personsUngrouped : Planner := { persons with settings := { maxDepth := 1 } }

/-- The bound is reached: outside the group and in it there are an `or`, an `and` and a `not`. Where no group
is allowed, the same text is refused. -/
theorem nesting_of_group :
    (∃ q f plan, Query.parse "name==a or name==b and not (name==c or name==d and not name==e)" 1 = .ok q ∧
      (personsUngrouped.plan "Person" "name==a or name==b and not (name==c or name==d and not name==e)" .empty).1 =
        .ok plan ∧
      q.filter = some f ∧ f.depth = 7 ∧ f.depth ≤ 3 * 1 + 4 ∧ plan.predicate.depth = 7) ∧
    ∃ fault, Query.parse "name==a or name==b and not (name==c or name==d and not name==e)" 0 = .error fault := by
  generalize htext : "name==a or name==b and not (name==c or name==d and not name==e)" = text
  have hparse : (Query.parse text 1).map (fun q => q.filter.map Filter.depth) = .ok (some 7) := by
    rw [← htext]
    exact toOption_eq_some_iff.mp (by decide +kernel)
  have hplan : (personsUngrouped.plan "Person" text .empty).1.isOk = true := by
    rw [← htext]
    decide +kernel
  have htokens : (tokenize text).map (fun ts => deepest 0 (ts.map (·.value))) = .ok 1 := by
    rw [← htext]
    exact toOption_eq_some_iff.mp (by decide +kernel)
  obtain ⟨q, hq, hdepth⟩ := map_eq_ok_iff.mp hparse
  obtain ⟨f, hf, hseven⟩ := Option.map_eq_some_iff.mp hdepth
  obtain ⟨plan, hp⟩ := exists_ok_of_isOk hplan
  obtain ⟨ts, hts, hdeep⟩ := map_eq_ok_iff.mp htokens
  obtain ⟨hbound, hmirror, _, _⟩ := limit_bounds_nesting text 1
  obtain ⟨_, _, hrefused, _⟩ := limit_bounds_nesting text 0
  obtain ⟨q', hq', hsame⟩ := hmirror personsUngrouped .empty "Person" plan rfl .empty hp
  cases hq.symm.trans hq'
  have hquery : q.depth = 7 := by
    unfold Query.depth
    rw [hf]
    exact hseven
  refine ⟨⟨q, f, plan, hq, hp, hf, hseven, hbound q f hq hf, hsame.trans hquery⟩, hrefused ts hts ?_⟩
  omega

end ContextualQuery
