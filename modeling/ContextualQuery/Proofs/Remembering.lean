import ContextualQuery.Plan.Requests
import ContextualQuery.Proofs.Planning
import Mathlib.Data.List.DropRight
/-!
# What a planner remembers

A planner that is asked one thing after another remembers paths, and nothing of this is seen in its
answers.

* `Planner.names`: the names that a text makes the planner look up, which are those up to the first
  clause that fails, and `memory_plan`: planning a text leaves a memory of these names, whether it
  succeeds or not;
* `PathCache.Holds`: a memory has the paths of the names that were looked up, each once, and
  `Holds.resolve`: one more name keeps this so;
* `answerAlone`: the answer of a planner that remembers nothing to one request alone, and
  `answer_eq_answerAlone`: this is the answer after other requests;
* `holds_answers`: what is remembered after any requests are the paths of the names looked up since
  the last request to forget;
* `memory_invisible` puts these together.
-/

namespace ContextualQuery

/-! ## 1. Names that are asked for -/

/-- A place of a query where a name is looked up: the name, and whether planning goes on behind it. -/
structure Lookup where
  name : String
  passes : Bool

/-- The names that are looked up: those up to the first place that is not passed. -/
def Lookup.names : List Lookup → List String
  | [] => []
  | l :: rest => l.name :: if l.passes then Lookup.names rest else []

namespace Planner

variable {p : Planner} {entity : String}

/-- The places of search clauses. The index of all records is no name. -/
def clauseLookups (p : Planner) (entity : String) (cs : List SearchClause) : List Lookup :=
  (cs.filter (!·.isAllRecords)).map fun c => ⟨c.field.value, (p.clauseResult entity c).isOk⟩

/-- The places of sort clauses. -/
def keyLookups (p : Planner) (entity : String) (cs : List SortClause) : List Lookup :=
  cs.map fun c => ⟨c.field.value, (p.keyResult entity c).isOk⟩

/-- The places of a query, in the order of its text. -/
def lookups (p : Planner) (entity : String) (q : Query) : List Lookup :=
  p.clauseLookups entity ((q.filter.map Filter.clauses).getD []) ++ p.keyLookups entity q.sort

/-- The names that a text makes the planner look up. -/
def names (p : Planner) (entity text : String) : List String :=
  match p.query text with
  | .ok q => Lookup.names (p.lookups entity q)
  | .error _ => []

end Planner

/-- The entities and names that a request makes a planner look up. -/
def Request.keys (p : Planner) : Request → List (String × String)
  | .plan entity text | .selection entity text | .count entity text =>
    (p.names entity text).map (entity, ·)
  | .path entity field => [(entity, field)]
  | .forget => []

theorem Lookup.names_append (ls ms : List Lookup) :
    names (ls ++ ms) = names ls ++ if ls.all (·.passes) then names ms else [] := by
  induction ls with
  | nil => simp [names]
  | cons l ls ih =>
    rw [List.cons_append, names, names, ih, List.all_cons]
    cases l.passes <;> simp

/-! ## 2. What a step of planning looks up -/

/-- What is remembered after looking up several names. -/
def Resolver.resolveAll (r : Resolver) (entity : String) (c : PathCache) (names : List String) :
    PathCache :=
  names.foldl (fun c name => (r.resolve entity name c).2) c

namespace Planner

variable {p : Planner} {entity : String} {α β : Type}

/-- The step has the result, which is no fault if all its places are passed, and looks up the names
of its places. -/
structure Visits (p : Planner) (entity : String) (x : Planning α) (ls : List Lookup)
    (r : Except PlanFault α) : Prop where
  gives : p.Gives x r
  passes : r.isOk = ls.all (·.passes)
  leaves : ∀ c, p.resolver.Reached c →
    (x.run c).2 = p.resolver.resolveAll entity c (Lookup.names ls)

theorem visits_pure (a : α) : p.Visits entity (pure a) [] (.ok a) :=
  ⟨gives_pure a, rfl, fun _ _ => rfl⟩

theorem visits_bind {x : Planning α} {f : α → Planning β} {ls ms : List Lookup}
    {r : Except PlanFault α} {k : α → Except PlanFault β} (hx : p.Visits entity x ls r)
    (hf : ∀ a, p.Visits entity (f a) ms (k a)) :
    p.Visits entity (x >>= f) (ls ++ ms) (r >>= k) := by
  refine ⟨gives_bind hx.gives fun a => (hf a).gives, ?_, fun c hc => ?_⟩
  · rw [List.all_append, ← hx.passes]
    cases r with
    | error e => rfl
    | ok a => exact (hf a).passes
  · obtain ⟨hr, hreached⟩ := hx.gives c hc
    have hleaves := hx.leaves c hc
    rw [Lookup.names_append, ← hx.passes]
    cases hrun : x.run c with
    | mk o c' =>
      rw [hrun] at hr hreached hleaves
      subst hr
      simp only at hleaves hreached
      cases o with
      | error e =>
        rw [run_bind_error hrun, hleaves]
        simp [Except.isOk, Except.toBool]
      | ok a =>
        rw [run_bind_ok hrun, (hf a).leaves c' hreached, hleaves]
        simp [Except.isOk, Except.toBool, Resolver.resolveAll, List.foldl_append]

theorem visits_map {x : Planning α} {g : α → β} {ls : List Lookup} {r : Except PlanFault α}
    (hx : p.Visits entity x ls r) :
    p.Visits entity (x >>= fun a => pure (g a)) ls (r >>= fun a => .ok (g a)) := by
  have h := visits_bind hx fun a => @visits_pure p entity _ (g a)
  rwa [List.append_nil] at h

/-- Looking up a name is one step; what follows it remembers nothing. -/
theorem leaves_path {field : Located String} {f : Path → Planning α} {c : PathCache}
    (hf : ∀ path c, ((f path).run c).2 = c) :
    ((p.path entity field >>= f).run c).2 = (p.resolver.resolve entity field.value c).2 := by
  have hstep : (modifyGet (p.resolver.resolve entity field.value) : Planning _).run c =
      (.ok (p.resolver.resolve entity field.value c).1,
        (p.resolver.resolve entity field.value c).2) := rfl
  cases hr : (p.resolver.resolve entity field.value c).1 with
  | error e =>
    have hpath : (p.path entity field).run c =
        (.error (.name e field.span), (p.resolver.resolve entity field.value c).2) := by
      rw [path, run_bind_ok hstep, hr]
      rfl
    rw [run_bind_error hpath]
  | ok path =>
    have hpath : (p.path entity field).run c =
        (.ok path, (p.resolver.resolve entity field.value c).2) := by
      rw [Planner.path, run_bind_ok hstep, hr]
      rfl
    rw [run_bind_ok hpath, hf]

theorem visits_clause (p : Planner) (entity : String) (c : SearchClause) :
    p.Visits entity (p.clause entity c) (p.clauseLookups entity [c]) (p.clauseResult entity c) := by
  by_cases hall : c.isAllRecords = true
  · have hclause : p.clause entity c = pure .matchAll := by rw [clause, if_pos hall]
    have hresult : p.clauseResult entity c = .ok .matchAll := by rw [clauseResult, if_pos hall]
    have hlookups : p.clauseLookups entity [c] = [] := by simp [clauseLookups, hall]
    rw [hclause, hresult, hlookups]
    exact visits_pure _
  · have hlookups : p.clauseLookups entity [c] =
        [⟨c.field.value, (p.clauseResult entity c).isOk⟩] := by simp [clauseLookups, hall]
    rw [hlookups]
    refine ⟨gives_clause p entity c, by simp, fun cache _ => ?_⟩
    have hnames : Lookup.names [⟨c.field.value, (p.clauseResult entity c).isOk⟩] =
        [c.field.value] := by simp [Lookup.names]
    rw [hnames, clause, if_neg hall]
    refine leaves_path fun path cache => ?_
    cases Operand.ofTerm p.settings path.domain c.symbol.value c.modifiers c.term.value <;> rfl

theorem clauseLookups_append (cs ds : List SearchClause) :
    p.clauseLookups entity (cs ++ ds) = p.clauseLookups entity cs ++ p.clauseLookups entity ds := by
  simp [clauseLookups]

mutual

theorem visits_filter (p : Planner) (entity : String) (f : Filter) :
    p.Visits entity (p.filter entity f) (p.clauseLookups entity f.clauses)
      (p.filterResult entity f) := by
  cases f with
  | clause c =>
    rw [filter, filterResult, Filter.clauses]
    exact visits_clause p entity c
  | combined op children span =>
    rw [filter, filterResult, Filter.clauses]
    exact visits_map (visits_filters p entity children)

theorem visits_filters (p : Planner) (entity : String) (fs : List Filter) :
    p.Visits entity (p.filters entity fs) (p.clauseLookups entity (Filter.clausesOf fs))
      (p.filterResults entity fs) := by
  cases fs with
  | nil =>
    rw [filters, filterResults, Filter.clausesOf]
    exact visits_pure _
  | cons f fs =>
    rw [filters, filterResults, Filter.clausesOf, clauseLookups_append]
    exact visits_bind (visits_filter p entity f) fun q =>
      visits_map (visits_filters p entity fs)

end

theorem visits_predicate (p : Planner) (entity : String) (o : Option Filter) :
    p.Visits entity (p.predicate entity o)
      (p.clauseLookups entity ((o.map Filter.clauses).getD [])) (p.predicateResult entity o) := by
  cases o with
  | none => exact visits_pure _
  | some f => exact visits_filter p entity f

theorem visits_sortKey (p : Planner) (entity : String) (c : SortClause) :
    p.Visits entity (p.sortKey entity c) (p.keyLookups entity [c]) (p.keyResult entity c) := by
  refine ⟨gives_sortKey p entity c, by simp [keyLookups], fun cache _ => ?_⟩
  have hnames : Lookup.names (p.keyLookups entity [c]) = [c.field.value] := by
    simp [keyLookups, Lookup.names]
  rw [hnames]
  refine leaves_path fun path cache => ?_
  cases path.isSortable <;> rfl

theorem visits_sortKeys (p : Planner) (entity : String) (cs : List SortClause) :
    p.Visits entity (p.sortKeys entity cs) (p.keyLookups entity cs) (p.keyResults entity cs) := by
  rw [keyResults]
  induction cs with
  | nil =>
    rw [sortKeys, List.mapM_nil]
    exact visits_pure _
  | cons c cs ih =>
    rw [sortKeys, List.mapM_cons]
    exact visits_bind (visits_sortKey p entity c) fun k => visits_map ih

theorem visits_ofQuery (p : Planner) (entity : String) (q : Query) :
    p.Visits entity (p.ofQuery entity q) (p.lookups entity q) (p.planResult entity q) :=
  visits_bind (visits_predicate p entity q.filter) fun _ =>
    visits_map (visits_sortKeys p entity q.sort)

/-- **Planning a text leaves a memory of the names that it looks up.** -/
theorem memory_plan {c : PathCache} (hc : p.resolver.Reached c) (entity text : String) :
    (p.plan entity text c).2 = p.resolver.resolveAll entity c (p.names entity text) := by
  rw [plan, names]
  cases p.query text with
  | error f => rfl
  | ok q => exact (visits_ofQuery p entity q).leaves c hc

end Planner

/-! ## 3. What a memory holds -/

/-- The entities and names under which there are paths. -/
def PathCache.keys (c : PathCache) : List (String × String) := c.entries.map (·.1)

/-- A memory of looked-up names: it holds their paths, as following the names gives them, each under
its name and once. Names that lead nowhere are not there, and nothing is if paths are not remembered. -/
structure PathCache.Holds (c : PathCache) (r : Resolver) (looked : List (String × String)) :
    Prop where
  faithful : ∀ e ∈ c.entries, r.follow e.1.1 e.1.2 = .ok e.2
  keys : ∀ k, k ∈ c.keys ↔
    r.isCaching = true ∧ k ∈ looked ∧ ∃ path, r.follow k.1 k.2 = .ok path
  once : c.keys.Nodup

namespace PathCache.Holds

variable {c : PathCache} {r : Resolver} {looked : List (String × String)}

theorem empty (r : Resolver) : PathCache.empty.Holds r [] :=
  ⟨fun _ h => absurd h List.not_mem_nil, fun _ => by simp [PathCache.keys, PathCache.empty],
    List.nodup_nil⟩

theorem find?_eq_none_iff {entity field : String} :
    c.find? entity field = none ↔ (entity, field) ∉ c.keys := by
  rw [PathCache.find?, Option.map_eq_none_iff, List.find?_eq_none, PathCache.keys, List.mem_map]
  constructor
  · intro h hmem
    obtain ⟨e, he, hkey⟩ := hmem
    exact h e he (beq_iff_eq.mpr hkey)
  · intro h e he hkey
    exact h ⟨e, he, beq_iff_eq.mp hkey⟩

/-- A name that leads nowhere, or that was looked up before, changes nothing. -/
theorem of_nothing_new (h : c.Holds r looked) {k : String × String}
    (hk : r.isCaching = true → ∀ path, r.follow k.1 k.2 = .ok path → k ∈ looked) :
    c.Holds r (looked ++ [k]) := by
  refine ⟨h.faithful, fun k' => ?_, h.once⟩
  rw [h.keys, List.mem_append, List.mem_singleton]
  constructor
  · rintro ⟨hc, hthere, hp⟩
    exact ⟨hc, .inl hthere, hp⟩
  · rintro ⟨hc, hthere | rfl, path, hp⟩
    · exact ⟨hc, hthere, path, hp⟩
    · exact ⟨hc, hk hc path hp, path, hp⟩

/-- One more name that is looked up. -/
theorem resolve (h : c.Holds r looked) (entity field : String) :
    (r.resolve entity field c).2.Holds r (looked ++ [(entity, field)]) := by
  rw [Resolver.resolve]
  split
  · rename_i hoff
    refine h.of_nothing_new fun hon => ?_
    simp [hon] at hoff
  · rename_i hon
    have hon : r.isCaching = true := by simpa using hon
    cases hfind : c.find? entity field with
    | some path =>
      have hmem : (entity, field) ∈ c.keys := by
        by_contra hno
        rw [find?_eq_none_iff.mpr hno] at hfind
        cases hfind
      have hthere := ((h.keys _).mp hmem).2.1
      exact h.of_nothing_new fun _ _ _ => hthere
    | none =>
      have hno := find?_eq_none_iff.mp hfind
      cases hfollow : r.follow entity field with
      | error f =>
        refine h.of_nothing_new fun _ path hpath => ?_
        rw [hfollow] at hpath
        cases hpath
      | ok path =>
        refine ⟨List.forall_mem_cons.mpr ⟨hfollow, h.faithful⟩, fun k => ?_,
          List.nodup_cons.mpr ⟨hno, h.once⟩⟩
        have hkeys : (c.insert entity field path).keys = (entity, field) :: c.keys := rfl
        rw [hkeys, List.mem_cons, h.keys, List.mem_append, List.mem_singleton]
        constructor
        · rintro (rfl | ⟨hc, hk, hp⟩)
          · exact ⟨hon, .inr rfl, path, hfollow⟩
          · exact ⟨hc, .inl hk, hp⟩
        · rintro ⟨hc, hk | rfl, hp⟩
          · exact .inr ⟨hc, hk, hp⟩
          · exact .inl rfl

theorem resolveAll (h : c.Holds r looked) (entity : String) (names : List String) :
    (r.resolveAll entity c names).Holds r (looked ++ names.map (entity, ·)) := by
  induction names generalizing c looked with
  | nil => simpa [Resolver.resolveAll] using h
  | cons name names ih => simpa [Resolver.resolveAll] using ih (h.resolve entity name)

end PathCache.Holds

/-! ## 4. Requests -/

namespace Planner

/-- The same planner, remembering nothing. -/
def forgetful (p : Planner) : Planner :=
  { p with settings := { p.settings with cachesPaths := false } }

variable (p : Planner) (entity : String)

mutual

theorem forgetful_filterResult (f : Filter) :
    p.forgetful.filterResult entity f = p.filterResult entity f := by
  cases f with
  | clause c =>
    rw [filterResult, filterResult]
    rfl
  | combined op children span => rw [filterResult, filterResult, forgetful_filterResults children]

theorem forgetful_filterResults (fs : List Filter) :
    p.forgetful.filterResults entity fs = p.filterResults entity fs := by
  cases fs with
  | nil => rw [filterResults, filterResults]
  | cons f fs =>
    rw [filterResults, filterResults, forgetful_filterResult f, forgetful_filterResults fs]

end

theorem forgetful_planOnce (text : String) :
    p.forgetful.planOnce entity text = p.planOnce entity text := by
  rw [planOnce_eq, planOnce_eq]
  have hquery : p.forgetful.query text = p.query text := rfl
  rw [hquery]
  congr 1
  funext q
  have hpredicate : p.forgetful.predicateResult entity q.filter =
      p.predicateResult entity q.filter := by
    cases q.filter with
    | none => rfl
    | some f => exact forgetful_filterResult p entity f
  rw [planResult, planResult, hpredicate]
  rfl

/-- The answer of a planner that remembers nothing, and has been asked nothing before. -/
def answerAlone (p : Planner) (q : Request) : Reply := (p.forgetful.answer .empty q).1

variable {p entity} {c : PathCache}

/-- **A request is answered as if nothing was remembered.** -/
theorem answer_eq_answerAlone (hc : p.resolver.Reached c) (q : Request) :
    (p.answer c q).1 = p.answerAlone q := by
  have hplan (entity text : String) :
      (p.plan entity text c).1 = (p.forgetful.plan entity text .empty).1 :=
    (plan_eq_planOnce hc entity text).trans (forgetful_planOnce p entity text).symm
  cases q with
  | plan entity text => exact congrArg Reply.plan (hplan entity text)
  | selection entity text =>
    exact congrArg (fun r => Reply.selection (r.map Plan.selection)) (hplan entity text)
  | count entity text =>
    exact congrArg (fun r => Reply.count (r.map Plan.count)) (hplan entity text)
  | path entity field =>
    exact congrArg Reply.path (Resolver.resolve_eq_follow hc.faithful entity field)
  | forget => rfl

theorem reached_answer (hc : p.resolver.Reached c) (q : Request) :
    p.resolver.Reached (p.answer c q).2 := by
  cases q with
  | plan entity text => exact (plan_of_reached hc entity text).2
  | selection entity text => exact (plan_of_reached hc entity text).2
  | count entity text => exact (plan_of_reached hc entity text).2
  | path entity field => exact hc.resolve entity field
  | forget => exact .empty

/-- The keys that requests make a planner look up, since it was last told to forget. -/
def lookedUp (p : Planner) (qs : List Request) : List (String × String) :=
  (qs.rtakeWhile (· ≠ .forget)).flatMap (·.keys p)

theorem holds_answer (hc : p.resolver.Reached c) {qs : List Request}
    (h : c.Holds p.resolver (p.lookedUp qs)) (q : Request) :
    (p.answer c q).2.Holds p.resolver (p.lookedUp (qs ++ [q])) := by
  have hlooked (hq : q ≠ .forget) : p.lookedUp (qs ++ [q]) = p.lookedUp qs ++ q.keys p := by
    rw [lookedUp, List.rtakeWhile_concat_pos _ _ _ (by simpa using hq), List.flatMap_append]
    simp [lookedUp]
  have hplan (entity text : String) :
      (p.plan entity text c).2.Holds p.resolver
        (p.lookedUp qs ++ (p.names entity text).map (entity, ·)) := by
    rw [memory_plan hc]
    exact h.resolveAll entity _
  cases q with
  | plan entity text => exact hlooked nofun ▸ hplan entity text
  | selection entity text => exact hlooked nofun ▸ hplan entity text
  | count entity text => exact hlooked nofun ▸ hplan entity text
  | path entity field => exact hlooked nofun ▸ h.resolve entity field
  | forget =>
    have hnone : p.lookedUp (qs ++ [.forget]) = [] := by
      rw [lookedUp, List.rtakeWhile_concat_neg _ _ _ (by simp)]
      rfl
    rw [hnone]
    exact .empty _

theorem answers_concat (c : PathCache) (qs : List Request) (q : Request) :
    p.answers c (qs ++ [q]) =
      ((p.answers c qs).1 ++ [(p.answer (p.answers c qs).2 q).1],
        (p.answer (p.answers c qs).2 q).2) := by
  induction qs generalizing c with
  | nil => rfl
  | cons q' qs ih => simp only [List.cons_append, answers, ih]

theorem reached_answers (p : Planner) (qs : List Request) :
    p.resolver.Reached (p.answers .empty qs).2 := by
  induction qs using List.reverseRecOn with
  | nil => exact .empty
  | append_singleton qs q ih =>
    rw [answers_concat]
    exact reached_answer ih q

theorem holds_answers (p : Planner) (qs : List Request) :
    (p.answers .empty qs).2.Holds p.resolver (p.lookedUp qs) := by
  induction qs using List.reverseRecOn with
  | nil => exact .empty _
  | append_singleton qs q ih =>
    rw [answers_concat]
    exact holds_answer (reached_answers p qs) ih q

theorem answers_eq_map (p : Planner) (qs : List Request) :
    (p.answers .empty qs).1 = qs.map p.answerAlone := by
  induction qs using List.reverseRecOn with
  | nil => rfl
  | append_singleton qs q ih =>
    rw [answers_concat, ih, answer_eq_answerAlone (reached_answers p qs), List.map_append]
    rfl

end Planner

/-- **What a planner remembers is not seen.** -/
theorem memory_invisible (p : Planner) :
    (∀ qs : List Request,
      (p.answers .empty qs).1 = qs.map p.answerAlone ∧
      (p.answers .empty qs).2.Holds p.resolver (p.lookedUp qs) ∧
      (p.settings.cachesPaths = false → (p.answers .empty qs).2 = .empty)) ∧
    ∀ entity text, ∃ r : Except PlanFault Plan, ∀ qs : List Request,
      (p.answer (p.answers .empty qs).2 (.selection entity text)).1 =
        .selection (r.map fun plan => ⟨plan.predicate, plan.sort⟩) ∧
      (p.answer (p.answers .empty qs).2 (.count entity text)).1 =
        .count (r.map fun plan => plan.predicate) := by
  refine ⟨fun qs => ⟨p.answers_eq_map qs, p.holds_answers qs, fun hoff => ?_⟩,
    fun entity text => ⟨p.planOnce entity text, fun qs => ?_⟩⟩
  · have hkeys := (p.holds_answers qs).keys
    generalize (p.answers .empty qs).2 = c at hkeys
    obtain ⟨entries⟩ := c
    cases entries with
    | nil => rfl
    | cons e entries =>
      obtain ⟨hon, _⟩ := (hkeys e.1).mp List.mem_cons_self
      rw [Planner.resolver] at hon
      exact absurd (hon.symm.trans hoff) nofun
  · have hplan := Planner.plan_eq_planOnce (p.reached_answers qs) entity text
    rw [← hplan]
    exact ⟨rfl, rfl⟩

end ContextualQuery
