import ContextualQuery.Proofs.Composition
import ContextualQuery.Proofs.TextOrder
import ContextualQuery.Proofs.Typing
/-!
# Plans mirror queries

A plan is made clause by clause: what becomes of a clause does not depend on the others, and the first
clause that fails is the one that is reported.

* `Path.dotted_follow`: the path of a name, written with dots, is the name;
* `Planner.Compares`, `Planner.Sorts`: a comparison is what a search clause comes to, a key what a sort
  clause comes to, each on its own, and `Planner.ClauseFails`, `Planner.KeyFails`: why one of them comes
  to nothing;
* `Filter.Mirrors`: a predicate is the tree of a filter with comparisons for its clauses, and
  `Filter.Mirrors.comparisons`: its comparisons stand in the order of the clauses;
* `mirrors_filterResult`, `filterResult_eq_error_iff`: the predicate of a filter mirrors it, and where
  there is none the fault is that of the first clause that fails;
* `plan_mirrors_query`: so it is with the plan of a query, in which the sort clauses come last; and the clauses
  of a query that a text spells stand in the order of the text.
-/

namespace ContextualQuery

/-! ## 1. Names with dots -/

theorem dottedNames_ne_nil (cs : List Char) : dottedNames cs ≠ [] := by
  cases cs with
  | nil => exact List.cons_ne_nil _ _
  | cons c cs =>
    unfold dottedNames
    split
    · exact List.cons_ne_nil _ _
    · split <;> exact List.cons_ne_nil _ _

/-- The names between the dots, with dots between them, are the text again. -/
theorem intercalate_dottedNames (cs : List Char) : ['.'].intercalate (dottedNames cs) = cs := by
  induction cs with
  | nil => rfl
  | cons c cs ih =>
    have hne := dottedNames_ne_nil cs
    unfold dottedNames
    by_cases hc : c = '.'
    · rw [if_pos hc, List.intercalate_cons_of_ne_nil hne, ih, hc]
      rfl
    · rw [if_neg hc]
      cases hd : dottedNames cs with
      | nil => exact absurd hd hne
      | cons name names =>
        rw [hd] at ih
        cases names with
        | nil =>
          rw [List.intercalate_singleton] at ih
          show ['.'].intercalate [c :: name] = c :: cs
          rw [List.intercalate_singleton, ih]
        | cons next names =>
          rw [List.intercalate_cons_cons] at ih
          show ['.'].intercalate ((c :: name) :: next :: names) = c :: cs
          rw [List.intercalate_cons_cons, ← ih]
          rfl

/-- The steps of a walk have the names that it goes along. -/
theorem Schema.names_walk {s : Schema} {names : List String} {entity : String} {w : Walk}
    (h : s.walk entity names = .ok w) : w.steps.map (·.name) = names := by
  induction names generalizing entity w with
  | nil => cases h
  | cons name names ih =>
    rcases walk_cases h with ⟨f, dom, _, _, rfl, rfl⟩ | ⟨f, target, w', _, _, hw, rfl⟩ |
      ⟨r, w', _, hw, rfl⟩
    · rfl
    · exact congrArg (name :: ·) (ih hw)
    · exact congrArg (name :: ·) (ih hw)

theorem intercalate_names (field : String) :
    String.intercalate "." ((dottedNames field.toList).map String.ofList) = field := by
  rw [← String.toList_inj, String.toList_intercalate, List.map_map]
  have hround : (String.toList ∘ String.ofList) = id := funext fun _ => String.toList_ofList
  rw [hround, List.map_id]
  exact intercalate_dottedNames field.toList

/-- **The path of a name, written with dots, is the name.** -/
theorem Path.dotted_follow {r : Resolver} {entity field : String} {path : Path}
    (h : r.follow entity field = .ok path) : path.dotted = field := by
  obtain ⟨w, hw, rfl⟩ := Schema.walk_of_resolve h
  have hnames : w.steps.map (·.name) = (dottedNames field.toList).map String.ofList :=
    Schema.names_walk hw
  show String.intercalate "." (w.steps.map (·.name)) = field
  rw [hnames, intercalate_names]

/-! ## 2. Clauses on their own -/

namespace Planner

/-- A search clause comes to a comparison: its name has the path, its term the operand, and its symbol
asks for the comparator. -/
structure Compares (p : Planner) (entity : String) (c : SearchClause) (cmp : Comparison) : Prop where
  path : p.resolver.follow entity c.field.value = .ok cmp.path
  operand : Operand.ofTerm p.settings cmp.path.domain c.symbol.value c.modifiers c.term.value =
    .ok cmp.operand
  comparator : cmp.comparator = c.symbol.value.comparator

/-- A sort clause comes to a key: its name has the path, which gives an order, and the direction is the
one that is asked for. -/
structure Sorts (p : Planner) (entity : String) (c : SortClause) (k : SortKey) : Prop where
  path : p.resolver.follow entity c.field.value = .ok k.path
  sortable : k.path.isSortable = true
  direction : k.direction = c.direction

/-- Why a search clause comes to nothing: its name has no path, or its term no operand. A clause that holds
of every record never fails. -/
inductive ClauseFails (p : Planner) (entity : String) (c : SearchClause) : PlanFault → Prop
  | name {f : ResolutionFault} (named : c.isAllRecords = false)
      (h : p.resolver.follow entity c.field.value = .error f) :
      ClauseFails p entity c (.name f c.field.span)
  | term {path : Path} {f : TermFault} (named : c.isAllRecords = false)
      (hpath : p.resolver.follow entity c.field.value = .ok path)
      (h : Operand.ofTerm p.settings path.domain c.symbol.value c.modifiers c.term.value = .error f) :
      ClauseFails p entity c (.term f c.span)

/-- Why a sort clause comes to nothing: its name has no path, or the path gives no order. -/
inductive KeyFails (p : Planner) (entity : String) (c : SortClause) : PlanFault → Prop
  | name {f : ResolutionFault} (h : p.resolver.follow entity c.field.value = .error f) :
      KeyFails p entity c (.name f c.field.span)
  | unsortable {path : Path} (hpath : p.resolver.follow entity c.field.value = .ok path)
      (h : path.isSortable = false) :
      KeyFails p entity c (.unsortable c.field.value path.isCollection c.span)

variable {p : Planner} {entity : String}

theorem followed_eq_ok_iff {field : Located String} {path : Path} :
    p.followed entity field = .ok path ↔ p.resolver.follow entity field.value = .ok path :=
  mapError_eq_ok_iff

theorem operand_eq_ok_iff {c : SearchClause} {path : Path} {o : Operand} :
    p.operand c path = .ok o ↔
      Operand.ofTerm p.settings path.domain c.symbol.value c.modifiers c.term.value = .ok o :=
  mapError_eq_ok_iff

/-- A clause gives the predicate that holds of every record, or a comparison that it comes to. -/
theorem clauseResult_eq_ok_iff {c : SearchClause} {pr : Predicate} :
    p.clauseResult entity c = .ok pr ↔
      c.isAllRecords = true ∧ pr = .matchAll ∨
        c.isAllRecords = false ∧ ∃ cmp, p.Compares entity c cmp ∧ pr = .compare cmp := by
  unfold clauseResult
  cases hall : c.isAllRecords with
  | true =>
    rw [if_pos rfl]
    constructor
    · intro h
      cases h
      exact .inl ⟨rfl, rfl⟩
    · intro h
      rcases h with ⟨_, rfl⟩ | ⟨h, _⟩
      · rfl
      · cases h
  | false =>
    rw [if_neg (by decide), bind_eq_ok_iff]
    constructor
    · intro h
      obtain ⟨path, hpath, h⟩ := h
      obtain ⟨o, ho, h⟩ := bind_eq_ok_iff.mp h
      cases h
      exact .inr ⟨rfl, _, ⟨followed_eq_ok_iff.mp hpath, operand_eq_ok_iff.mp ho, rfl⟩, rfl⟩
    · intro h
      rcases h with ⟨h, _⟩ | ⟨_, cmp, hcmp, rfl⟩
      · cases h
      · refine ⟨cmp.path, followed_eq_ok_iff.mpr hcmp.path, bind_eq_ok_iff.mpr ?_⟩
        refine ⟨cmp.operand, operand_eq_ok_iff.mpr hcmp.operand, ?_⟩
        rw [← hcmp.comparator]
        rfl

theorem clauseResult_eq_error_iff {c : SearchClause} {f : PlanFault} :
    p.clauseResult entity c = .error f ↔ p.ClauseFails entity c f := by
  unfold clauseResult
  cases hall : c.isAllRecords with
  | true =>
    rw [if_pos rfl]
    constructor
    · nofun
    · intro h
      cases h with
      | name named => exact absurd (hall.symm.trans named) nofun
      | term named => exact absurd (hall.symm.trans named) nofun
  | false =>
    rw [if_neg (by decide), bind_eq_error_iff]
    constructor
    · intro h
      rcases h with h | ⟨path, hpath, h⟩
      · obtain ⟨g, hg, rfl⟩ := mapError_eq_error_iff.mp h
        exact .name hall hg
      · rcases bind_eq_error_iff.mp h with h | ⟨o, _, h⟩
        · obtain ⟨g, hg, rfl⟩ := mapError_eq_error_iff.mp h
          exact .term hall (followed_eq_ok_iff.mp hpath) hg
        · cases h
    · intro h
      cases h with
      | name _ h => exact .inl (mapError_eq_error_iff.mpr ⟨_, h, rfl⟩)
      | @term path g _ hpath h =>
        refine .inr ⟨path, followed_eq_ok_iff.mpr hpath, bind_eq_error_iff.mpr (.inl ?_)⟩
        exact mapError_eq_error_iff.mpr ⟨g, h, rfl⟩

theorem keyResult_eq_ok_iff {c : SortClause} {k : SortKey} :
    p.keyResult entity c = .ok k ↔ p.Sorts entity c k := by
  unfold keyResult
  rw [bind_eq_ok_iff]
  constructor
  · intro h
    obtain ⟨path, hpath, h⟩ := h
    cases hs : path.isSortable with
    | true =>
      rw [if_pos hs] at h
      cases h
      exact ⟨followed_eq_ok_iff.mp hpath, hs, rfl⟩
    | false =>
      rw [if_neg (by rw [hs]; decide)] at h
      cases h
  · intro h
    refine ⟨k.path, followed_eq_ok_iff.mpr h.path, ?_⟩
    rw [if_pos h.sortable, ← h.direction]

theorem keyResult_eq_error_iff {c : SortClause} {f : PlanFault} :
    p.keyResult entity c = .error f ↔ p.KeyFails entity c f := by
  unfold keyResult
  rw [bind_eq_error_iff]
  constructor
  · intro h
    rcases h with h | ⟨path, hpath, h⟩
    · obtain ⟨g, hg, rfl⟩ := mapError_eq_error_iff.mp h
      exact .name hg
    · cases hs : path.isSortable with
      | true =>
        rw [if_pos hs] at h
        cases h
      | false =>
        rw [if_neg (by rw [hs]; decide)] at h
        cases h
        exact .unsortable (followed_eq_ok_iff.mp hpath) hs
  · intro h
    cases h with
    | name h => exact .inl (mapError_eq_error_iff.mpr ⟨_, h, rfl⟩)
    | @unsortable path hpath hs =>
      refine .inr ⟨path, followed_eq_ok_iff.mpr hpath, ?_⟩
      rw [if_neg (by rw [hs]; decide)]

end Planner

/-! ## 3. Filters and their predicates -/

/-- The predicate is the tree of the filter, node for node, and each search clause in it is one that
holds of every record, or holds together with the comparison at its place. -/
inductive Filter.Mirrors (holds : SearchClause → Comparison → Prop) : Filter → Predicate → Prop
  | matchAll {c : SearchClause} (all : c.isAllRecords = true) :
      Mirrors holds (.clause c) .matchAll
  | compare {c : SearchClause} {cmp : Comparison} (named : c.isAllRecords = false)
      (h : holds c cmp) : Mirrors holds (.clause c) (.compare cmp)
  | boolean {op : Connective} {children : List Filter} {parts : List Predicate} {s : Span}
      (h : List.Forall₂ (Mirrors holds) children parts) :
      Mirrors holds (.combined op children s) (.boolean op parts)

namespace Filter

variable {holds : SearchClause → Comparison → Prop}

mutual

/-- **The comparisons of a predicate stand in the order of the clauses of the filter that it mirrors.** -/
theorem Mirrors.comparisons {f : Filter} {pr : Predicate} (h : f.Mirrors holds pr) :
    List.Forall₂ holds (f.clauses.filter fun c => !c.isAllRecords) pr.comparisons := by
  cases f with
  | clause c =>
    rw [clauses]
    cases h with
    | matchAll all =>
      rw [Predicate.comparisons, List.filter_cons_of_neg (by rw [all]; decide)]
      exact .nil
    | compare named h =>
      rw [Predicate.comparisons, List.filter_cons_of_pos (by rw [named]; decide)]
      exact .cons h .nil
  | combined op children s =>
    cases h with
    | boolean h =>
      rw [clauses, Predicate.comparisons]
      exact comparisons_of_mirrors h

theorem comparisons_of_mirrors {fs : List Filter} {prs : List Predicate}
    (h : List.Forall₂ (Mirrors holds) fs prs) :
    List.Forall₂ holds ((clausesOf fs).filter fun c => !c.isAllRecords)
      (Predicate.comparisonsOf prs) := by
  cases fs with
  | nil =>
    cases h
    rw [clausesOf, Predicate.comparisonsOf]
    exact .nil
  | cons f fs =>
    cases h with
    | cons hf hfs =>
      rw [clausesOf, Predicate.comparisonsOf, List.filter_append]
      exact List.rel_append hf.comparisons (comparisons_of_mirrors hfs)

end

end Filter

namespace Planner

variable {p : Planner} {entity : String}

mutual

/-- **The predicate of a filter mirrors it.** -/
theorem mirrors_filterResult {f : Filter} {pr : Predicate} (h : p.filterResult entity f = .ok pr) :
    f.Mirrors (p.Compares entity) pr := by
  cases f with
  | clause c =>
    rw [filterResult] at h
    rcases clauseResult_eq_ok_iff.mp h with ⟨hall, rfl⟩ | ⟨hnamed, cmp, hcmp, rfl⟩
    · exact .matchAll hall
    · exact .compare hnamed hcmp
  | combined op children s =>
    rw [filterResult] at h
    obtain ⟨prs, hprs, rfl⟩ := map_eq_ok_iff.mp h
    exact .boolean (mirrors_filterResults hprs)

theorem mirrors_filterResults {fs : List Filter} {prs : List Predicate}
    (h : p.filterResults entity fs = .ok prs) :
    List.Forall₂ (Filter.Mirrors (p.Compares entity)) fs prs := by
  cases fs with
  | nil =>
    rw [filterResults] at h
    cases h
    exact .nil
  | cons f fs =>
    rw [filterResults] at h
    obtain ⟨pr, hpr, h⟩ := bind_eq_ok_iff.mp h
    obtain ⟨prs', hprs, h⟩ := bind_eq_ok_iff.mp h
    cases h
    exact .cons (mirrors_filterResult hpr) (mirrors_filterResults hprs)

end

mutual

/-- **Where a filter has no predicate, the fault is that of its first clause that fails.** -/
theorem filterResult_eq_error_iff (f : Filter) (e : PlanFault) :
    p.filterResult entity f = .error e ↔ FirstFault (p.ClauseFails entity) f.clauses e := by
  cases f with
  | clause c =>
    rw [filterResult, Filter.clauses, firstFault_cons_iff, clauseResult_eq_error_iff]
    exact ⟨.inl, fun h => h.resolve_right fun h => not_firstFault_nil h.2⟩
  | combined op children s =>
    rw [filterResult, Filter.clauses, map_eq_error_iff]
    exact filterResults_eq_error_iff children e

theorem filterResults_eq_error_iff (fs : List Filter) (e : PlanFault) :
    p.filterResults entity fs = .error e ↔
      FirstFault (p.ClauseFails entity) (Filter.clausesOf fs) e := by
  cases fs with
  | nil =>
    rw [filterResults, Filter.clausesOf]
    exact ⟨nofun, fun h => absurd h not_firstFault_nil⟩
  | cons f fs =>
    have hfirst := filterResult_eq_error_iff f
    have hrest := filterResults_eq_error_iff fs e
    rw [filterResults, Filter.clausesOf, firstFault_append_iff, bind_eq_error_iff,
      ← forall_not_firstFault_iff, ← hfirst, ← hrest]
    refine or_congr_right ?_
    constructor
    · intro h
      obtain ⟨pr, hpr, h⟩ := h
      refine ⟨fun e' he => ?_, ?_⟩
      · have hnone := (hfirst e').mpr he
        rw [hpr] at hnone
        cases hnone
      · exact map_eq_error_iff.mp h
    · intro h
      obtain ⟨hnone, h⟩ := h
      cases hf : p.filterResult entity f with
      | error e' => exact absurd ((hfirst e').mp hf) (hnone e')
      | ok pr => exact ⟨pr, rfl, map_eq_error_iff.mpr h⟩

end

end Planner

/-! ## 4. Plans -/

/-- The plan is made like the query: the tree of its predicate is that of the filter, its comparisons are
what the search clauses come to that name something, and its keys what the sort clauses come to, in the
order of the text and under the names that are written there. -/
structure Query.Mirrors (p : Planner) (entity : String) (q : Query) (plan : Plan) : Prop where
  all : q.filter = none → plan.predicate = .matchAll
  tree : ∀ f, q.filter = some f → f.Mirrors (p.Compares entity) plan.predicate
  comparisons : List.Forall₂
    (fun c cmp => p.Compares entity c cmp ∧ cmp.path.dotted = c.field.value)
    (q.clauses.filter fun c => !c.isAllRecords) plan.predicate.comparisons
  keys : List.Forall₂ (fun c k => p.Sorts entity c k ∧ k.path.dotted = c.field.value)
    q.sort plan.sort

namespace Planner

variable {p : Planner} {entity : String}

theorem not_clauseFails_iff {c : SearchClause} :
    (∀ f, ¬ p.ClauseFails entity c f) ↔
      (c.isAllRecords = false → ∃ cmp, p.Compares entity c cmp) := by
  simp only [← clauseResult_eq_error_iff, ← ne_eq]
  rw [← exists_ok_iff]
  simp only [clauseResult_eq_ok_iff]
  constructor
  · rintro ⟨pr, ⟨hall, _⟩ | ⟨_, cmp, hcmp, _⟩⟩ hnamed
    · exact absurd (hall.symm.trans hnamed) nofun
    · exact ⟨cmp, hcmp⟩
  · intro h
    cases hall : c.isAllRecords with
    | true => exact ⟨.matchAll, .inl ⟨rfl, rfl⟩⟩
    | false =>
      obtain ⟨cmp, hcmp⟩ := h hall
      exact ⟨.compare cmp, .inr ⟨rfl, cmp, hcmp, rfl⟩⟩

theorem not_keyFails_iff {c : SortClause} :
    (∀ f, ¬ p.KeyFails entity c f) ↔ ∃ k, p.Sorts entity c k := by
  simp only [← keyResult_eq_error_iff, ← ne_eq]
  rw [← exists_ok_iff]
  simp only [keyResult_eq_ok_iff]

theorem predicateResult_eq_error_iff {q : Query} {f : PlanFault} :
    p.predicateResult entity q.filter = .error f ↔ FirstFault (p.ClauseFails entity) q.clauses f := by
  unfold Query.clauses
  cases q.filter with
  | none => exact ⟨nofun, fun h => absurd h not_firstFault_nil⟩
  | some filter => exact filterResult_eq_error_iff filter f

theorem keyResults_eq_error_iff {cs : List SortClause} {f : PlanFault} :
    p.keyResults entity cs = .error f ↔ FirstFault (p.KeyFails entity) cs f := by
  have hfails : (fun c e => p.keyResult entity c = .error e) = p.KeyFails entity :=
    funext fun _ => funext fun _ => propext keyResult_eq_error_iff
  unfold keyResults
  rw [mapM_eq_error_iff, hfails]

/-- The search clauses come before the sort clauses, and the first of them all that fails counts. -/
theorem planResult_eq_error_iff {q : Query} {f : PlanFault} :
    p.planResult entity q = .error f ↔
      FirstFault (p.ClauseFails entity) q.clauses f ∨
        (∀ c ∈ q.clauses, ∀ f', ¬ p.ClauseFails entity c f') ∧
          FirstFault (p.KeyFails entity) q.sort f := by
  have hnone : (∀ c ∈ q.clauses, ∀ f', ¬ p.ClauseFails entity c f') ↔
      ∃ pr, p.predicateResult entity q.filter = .ok pr := by
    rw [← forall_not_firstFault_iff, exists_ok_iff]
    simp only [← predicateResult_eq_error_iff]
  have hkeys (pr : Predicate) :
      (p.keyResults entity q.sort >>= fun sort => pure (Plan.mk pr sort)) = .error f ↔
        FirstFault (p.KeyFails entity) q.sort f := by
    rw [← keyResults_eq_error_iff]
    exact map_eq_error_iff
  rw [planResult, bind_eq_error_iff, predicateResult_eq_error_iff, hnone]
  simp only [hkeys, exists_and_right]

/-- There is a plan exactly if each search clause that names something comes to a comparison, and each sort
clause to a key. -/
theorem exists_planResult_iff {q : Query} :
    (∃ plan, p.planResult entity q = .ok plan) ↔
      (∀ c ∈ q.clauses, c.isAllRecords = false → ∃ cmp, p.Compares entity c cmp) ∧
        ∀ c ∈ q.sort, ∃ k, p.Sorts entity c k := by
  simp only [← not_clauseFails_iff, ← not_keyFails_iff]
  rw [exists_ok_iff]
  simp only [ne_eq, planResult_eq_error_iff, ← forall_not_firstFault_iff]
  constructor
  · intro h
    have hclauses := fun f hf => h f (.inl hf)
    exact ⟨hclauses, fun f hf => h f (.inr ⟨hclauses, hf⟩)⟩
  · rintro ⟨hclauses, hkeys⟩ f (hf | ⟨_, hf⟩)
    · exact hclauses f hf
    · exact hkeys f hf

theorem mirrors_planResult {q : Query} {plan : Plan} (h : p.planResult entity q = .ok plan) :
    q.Mirrors p entity plan := by
  obtain ⟨pr, hpr, h⟩ := bind_eq_ok_iff.mp h
  obtain ⟨keys, hkeys, h⟩ := bind_eq_ok_iff.mp h
  cases h
  have htree : ∀ f, q.filter = some f → f.Mirrors (p.Compares entity) pr := fun f hf =>
    mirrors_filterResult (show p.predicateResult entity (some f) = .ok pr from hf ▸ hpr)
  have hall : q.filter = none → pr = .matchAll := by
    intro hf
    rw [hf] at hpr
    cases hpr
    rfl
  refine ⟨hall, htree, ?_, ?_⟩
  · show List.Forall₂ _ _ pr.comparisons
    unfold Query.clauses
    cases hf : q.filter with
    | none =>
      rw [hall hf, Predicate.comparisons]
      exact .nil
    | some f =>
      exact (htree f hf).comparisons.imp fun _ _ h => ⟨h, Path.dotted_follow h.path⟩
  · refine (mapM_eq_ok_iff.mp hkeys).imp fun _ _ h => ?_
    have hsorts := keyResult_eq_ok_iff.mp h
    exact ⟨hsorts, Path.dotted_follow hsorts.path⟩

theorem placed_of_query {text : String} {q : Query} (h : p.query text = .ok q) : q.Placed text.toList := by
  have hsafe := Query.safe_parse text p.settings.maxDepth
  rw [parse_of_query h] at hsafe
  exact hsafe

/-- **Planning is done clause by clause.** Whatever is remembered, and for a query that a text spells, with its
clauses in the order of the text, or any other: there is a plan exactly if each search clause that names
something has a path and an operand on its own and each sort clause a path that gives an order; the plan
mirrors the query; and if there is none, the fault is that of the first search clause that fails, or, if none
does, of the first sort clause. -/
theorem plan_mirrors_query {c : PathCache} (hc : p.resolver.Reached c) (entity : String) (q : Query) :
    (∀ text, p.query text = .ok q →
      p.plan entity text c = (p.ofQuery entity q).run c ∧ q.InTextOrder) ∧
    ((∃ plan, ((p.ofQuery entity q).run c).1 = .ok plan) ↔
      (∀ s ∈ q.clauses, s.isAllRecords = false → ∃ cmp, p.Compares entity s cmp) ∧
        ∀ s ∈ q.sort, ∃ k, p.Sorts entity s k) ∧
    (∀ plan, ((p.ofQuery entity q).run c).1 = .ok plan → q.Mirrors p entity plan) ∧
    ∀ f, ((p.ofQuery entity q).run c).1 = .error f ↔
      FirstFault (p.ClauseFails entity) q.clauses f ∨
        (∀ s ∈ q.clauses, ∀ f', ¬ p.ClauseFails entity s f') ∧
          FirstFault (p.KeyFails entity) q.sort f := by
  have hresult : ((p.ofQuery entity q).run c).1 = p.planResult entity q :=
    (gives_ofQuery p entity q c hc).1
  refine ⟨fun text hq => ⟨?_, (placed_of_query hq).inTextOrder⟩, ?_, fun plan h => ?_, fun f => ?_⟩
  · unfold plan
    rw [hq]
  · rw [hresult]
    exact exists_planResult_iff
  · exact mirrors_planResult (hresult ▸ h)
  · rw [hresult]
    exact planResult_eq_error_iff

end Planner

/-- A plan for the persons of a name in the order of their names mirrors its query; of three names that a
person does not have, the first is at fault. -/
theorem persons_mirror_query :
    (∃ q plan, persons.query "cql.allRecords=1 and name==Bob sortBy name" = .ok q ∧ q.InTextOrder ∧
      (persons.plan "Person" "cql.allRecords=1 and name==Bob sortBy name" .empty).1 = .ok plan ∧
      q.Mirrors persons "Person" plan) ∧
    ∃ q f, persons.query "name==Bob and age=3 or size=1 sortBy weight" = .ok q ∧
      (persons.plan "Person" "name==Bob and age=3 or size=1 sortBy weight" .empty).1 = .error f ∧
      f = .name (.unknownField "Person" "age") ⟨14, 17⟩ ∧
      (FirstFault (persons.ClauseFails "Person") q.clauses f ∨
        (∀ s ∈ q.clauses, ∀ f', ¬ persons.ClauseFails "Person" s f') ∧
          FirstFault (persons.KeyFails "Person") q.sort f) := by
  refine ⟨?_, ?_⟩
  · obtain ⟨q, hq⟩ : ∃ q, persons.query "cql.allRecords=1 and name==Bob sortBy name" = .ok q :=
      exists_ok_of_isOk (by decide +kernel)
    obtain ⟨plan, hplan⟩ :
        ∃ plan, persons.planOnce "Person" "cql.allRecords=1 and name==Bob sortBy name" = .ok plan :=
      exists_ok_of_isOk (by decide +kernel)
    rw [Planner.planOnce] at hplan
    obtain ⟨htext, _, hmirrors, _⟩ := Planner.plan_mirrors_query .empty "Person" q
    obtain ⟨hrun, horder⟩ := htext _ hq
    exact ⟨q, plan, hq, horder, hplan, hmirrors plan (hrun ▸ hplan)⟩
  · obtain ⟨q, hq⟩ : ∃ q, persons.query "name==Bob and age=3 or size=1 sortBy weight" = .ok q :=
      exists_ok_of_isOk (by decide +kernel)
    have hplan : persons.planOnce "Person" "name==Bob and age=3 or size=1 sortBy weight" =
        .error (.name (.unknownField "Person" "age") ⟨14, 17⟩) :=
      fault?_eq_some_iff.mp (by decide +kernel)
    rw [Planner.planOnce] at hplan
    obtain ⟨htext, _, _, hfault⟩ := Planner.plan_mirrors_query .empty "Person" q
    obtain ⟨hrun, _⟩ := htext _ hq
    exact ⟨q, _, hq, hplan, rfl, (hfault _).mp (hrun ▸ hplan)⟩

end ContextualQuery
