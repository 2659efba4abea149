import ContextualQuery.Catalog.Validity
import ContextualQuery.Plan.Basic
import ContextualQuery.Proofs.Grammar
import ContextualQuery.Store.Basic
/-!
# Plans without memory and without places

A plan is made with a memory of paths, from a query with places. Neither changes what the plan is:

* `Resolver.Reached`: the memories that a resolver comes to, and `Reached.faithful`: what they hold
  is what following the names gives;
* `Planner.Gives`: a step of planning gives one result, whatever is remembered, with one rule for
  each way to put steps together;
* `Outline.predicate?`: the predicate of a filter, read off its outline;
* `gives_filter`, `filterResult_outline`: the planner makes this predicate, and fails if there is
  none;
* `plan_of_reached`: so a text has one plan, whatever is remembered.
-/

namespace ContextualQuery

/-! ## 1. Memories -/

/-- What is remembered is what following the names gives. -/
def PathCache.Faithful (c : PathCache) (r : Resolver) : Prop :=
  ∀ entity field p, c.find? entity field = some p → r.follow entity field = .ok p

namespace Resolver

variable {r : Resolver} {c : PathCache}

/-- The memories that a resolver comes to, one name after the other. -/
inductive Reached (r : Resolver) : PathCache → Prop
  | empty : Reached r .empty
  | resolve {c : PathCache} (entity field : String) (h : Reached r c) :
      Reached r (r.resolve entity field c).2

/-- With a faithful memory, resolving is following. -/
theorem resolve_eq_follow (h : c.Faithful r) (entity field : String) :
    (r.resolve entity field c).1 = r.follow entity field := by
  rw [resolve]
  split
  · rfl
  · cases hc : c.find? entity field with
    | some p => exact (h entity field p hc).symm
    | none => cases hf : r.follow entity field <;> rfl

/-- One more name leaves a memory faithful. -/
theorem faithful_resolve (h : c.Faithful r) (entity field : String) :
    (r.resolve entity field c).2.Faithful r := by
  rw [resolve]
  split
  · exact h
  · cases hc : c.find? entity field with
    | some p => exact h
    | none =>
      cases hf : r.follow entity field with
      | error f => exact h
      | ok p =>
        intro entity' field' p' hp
        rw [PathCache.find?_insert] at hp
        split at hp
        · rename_i he
          cases he
          cases hp
          exact hf
        · exact h entity' field' p' hp

/-- **Every memory that is reached is faithful.** -/
theorem Reached.faithful (h : r.Reached c) : c.Faithful r := by
  induction h with
  | empty => exact fun _ _ _ hp => by cases hp
  | resolve entity field _ ih => exact faithful_resolve ih entity field

end Resolver

/-! ## 2. Steps of planning -/

namespace Planner

variable {p : Planner} {α β : Type}

/-- Whatever is remembered, the step has the result, and leaves a memory that is reached too. -/
def Gives (p : Planner) (x : Planning α) (r : Except PlanFault α) : Prop :=
  ∀ c, p.resolver.Reached c → (x.run c).1 = r ∧ p.resolver.Reached (x.run c).2

theorem gives_pure (a : α) : p.Gives (pure a) (.ok a) := fun _ h => ⟨rfl, h⟩

theorem gives_throw (f : PlanFault) : p.Gives (throw f : Planning α) (.error f) :=
  fun _ h => ⟨rfl, h⟩

/-- The second step starts from the memory that the first has left. -/
theorem run_bind_ok {x : Planning α} {f : α → Planning β} {c c' : PathCache} {a : α}
    (h : x.run c = (.ok a, c')) : (x >>= f).run c = (f a).run c' := by
  have hrun : (x >>= f).run c = ExceptT.bindCont f (x.run c).1 (x.run c).2 := rfl
  rw [hrun, h]
  rfl

theorem run_bind_error {x : Planning α} {f : α → Planning β} {c c' : PathCache} {e : PlanFault}
    (h : x.run c = (.error e, c')) : (x >>= f).run c = (.error e, c') := by
  have hrun : (x >>= f).run c = ExceptT.bindCont f (x.run c).1 (x.run c).2 := rfl
  rw [hrun, h]
  rfl

theorem gives_bind {x : Planning α} {f : α → Planning β} {r : Except PlanFault α}
    {k : α → Except PlanFault β} (hx : p.Gives x r) (hf : ∀ a, p.Gives (f a) (k a)) :
    p.Gives (x >>= f) (r >>= k) := by
  intro c hc
  obtain ⟨rfl, hr⟩ := hx c hc
  cases hxc : x.run c with
  | mk o c' =>
    rw [hxc] at hr
    cases o with
    | error e =>
      rw [run_bind_error hxc]
      exact ⟨rfl, hr⟩
    | ok a =>
      rw [run_bind_ok hxc]
      exact hf a c' hr

end Planner

/-! ## 3. Planning without a memory -/

namespace Planner

/-- The path that a name is followed to. -/
def followed (p : Planner) (entity : String) (field : Located String) : Except PlanFault Path :=
  (p.resolver.follow entity field.value).mapError (.name · field.span)

/-- The operand of a search clause at the end of a path. -/
def operand (p : Planner) (c : SearchClause) (path : Path) : Except PlanFault Operand :=
  (Operand.ofTerm p.settings path.domain c.symbol.value c.modifiers c.term.value).mapError
    (.term · c.span)

/-- The predicate of a search clause. -/
def clauseResult (p : Planner) (entity : String) (c : SearchClause) : Except PlanFault Predicate :=
  if c.isAllRecords then .ok .matchAll
  else do
    let path ← p.followed entity c.field
    let operand ← p.operand c path
    return .compare ⟨path, c.symbol.value.comparator, operand⟩

mutual

/-- The predicate of a filter. -/
def filterResult (p : Planner) (entity : String) : Filter → Except PlanFault Predicate
  | .combined op children _ => (filterResults p entity children).map (.boolean op)
  | .clause c => p.clauseResult entity c

/-- The predicates of several filters, or the first fault. -/
def filterResults (p : Planner) (entity : String) : List Filter → Except PlanFault (List Predicate)
  | [] => .ok []
  | f :: rest => do return (← filterResult p entity f) :: (← filterResults p entity rest)

end

/-- The key of a sort clause. -/
def keyResult (p : Planner) (entity : String) (c : SortClause) : Except PlanFault SortKey := do
  let path ← p.followed entity c.field
  if path.isSortable then .ok ⟨path, c.direction⟩
  else .error (.unsortable c.field.value path.isCollection c.span)

/-- The keys of several sort clauses, or the first fault. -/
def keyResults (p : Planner) (entity : String) (cs : List SortClause) :
    Except PlanFault (List SortKey) :=
  cs.mapM (p.keyResult entity)

/-- The predicate of an optional filter. -/
def predicateResult (p : Planner) (entity : String) : Option Filter → Except PlanFault Predicate
  | none => .ok .matchAll
  | some f => p.filterResult entity f

/-- The plan of a query that has been read. -/
def planResult (p : Planner) (entity : String) (q : Query) : Except PlanFault Plan := do
  let predicate ← p.predicateResult entity q.filter
  let sort ← p.keyResults entity q.sort
  return ⟨predicate, sort⟩

/-! ### The planner gives these results -/

theorem gives_path (p : Planner) (entity : String) (field : Located String) :
    p.Gives (p.path entity field) (p.followed entity field) := by
  intro c hc
  have he := Resolver.resolve_eq_follow hc.faithful entity field.value
  have hr := hc.resolve entity field.value
  have hstep : (modifyGet (p.resolver.resolve entity field.value) : Planning _).run c =
      (.ok (p.resolver.resolve entity field.value c).1,
        (p.resolver.resolve entity field.value c).2) := rfl
  rw [path, run_bind_ok hstep, he, followed]
  cases p.resolver.follow entity field.value with
  | ok path => exact ⟨rfl, hr⟩
  | error f => exact ⟨rfl, hr⟩

theorem gives_clause (p : Planner) (entity : String) (c : SearchClause) :
    p.Gives (p.clause entity c) (p.clauseResult entity c) := by
  rw [clause, clauseResult]
  by_cases hall : c.isAllRecords = true
  · rw [if_pos hall, if_pos hall]
    exact gives_pure _
  · rw [if_neg hall, if_neg hall]
    refine gives_bind (gives_path p entity c.field) fun path => ?_
    rw [operand]
    cases Operand.ofTerm p.settings path.domain c.symbol.value c.modifiers c.term.value with
    | ok operand => exact gives_pure _
    | error f => exact gives_throw _

mutual

theorem gives_filter (p : Planner) (entity : String) (f : Filter) :
    p.Gives (p.filter entity f) (p.filterResult entity f) := by
  cases f with
  | clause c =>
    rw [filter, filterResult]
    exact gives_clause p entity c
  | combined op children span =>
    rw [filter, filterResult]
    exact gives_bind (gives_filters p entity children) fun ps =>
      gives_pure (Predicate.boolean op ps)

theorem gives_filters (p : Planner) (entity : String) (fs : List Filter) :
    p.Gives (p.filters entity fs) (p.filterResults entity fs) := by
  cases fs with
  | nil =>
    rw [filters, filterResults]
    exact gives_pure _
  | cons f fs =>
    rw [filters, filterResults]
    exact gives_bind (gives_filter p entity f) fun q =>
      gives_bind (gives_filters p entity fs) fun qs => gives_pure (q :: qs)

end

theorem gives_predicate (p : Planner) (entity : String) (o : Option Filter) :
    p.Gives (p.predicate entity o) (p.predicateResult entity o) := by
  cases o with
  | none => exact gives_pure _
  | some f => exact gives_filter p entity f

theorem gives_sortKey (p : Planner) (entity : String) (c : SortClause) :
    p.Gives (p.sortKey entity c) (p.keyResult entity c) := by
  refine gives_bind (gives_path p entity c.field) fun path => ?_
  by_cases h : path.isSortable = true
  · rw [if_pos h, if_pos h]
    exact gives_pure _
  · rw [if_neg h, if_neg h]
    exact gives_throw _

theorem gives_sortKeys (p : Planner) (entity : String) (cs : List SortClause) :
    p.Gives (p.sortKeys entity cs) (p.keyResults entity cs) := by
  rw [keyResults]
  induction cs with
  | nil =>
    rw [sortKeys, List.mapM_nil]
    exact gives_pure _
  | cons c cs ih =>
    rw [sortKeys, List.mapM_cons]
    exact gives_bind (gives_sortKey p entity c) fun k =>
      gives_bind ih fun ks => gives_pure (k :: ks)

theorem gives_ofQuery (p : Planner) (entity : String) (q : Query) :
    p.Gives (p.ofQuery entity q) (p.planResult entity q) :=
  gives_bind (gives_predicate p entity q.filter) fun predicate =>
    gives_bind (gives_sortKeys p entity q.sort) fun sort => gives_pure (Plan.mk predicate sort)

/-- **Whatever is remembered, the plan of a text is the one of its query, and what is remembered
afterwards is reached too.** -/
theorem plan_of_reached {p : Planner} {c : PathCache} (h : p.resolver.Reached c)
    (entity text : String) :
    (p.plan entity text c).1 = p.query text >>= p.planResult entity ∧
      p.resolver.Reached (p.plan entity text c).2 := by
  rw [plan]
  cases p.query text with
  | error f => exact ⟨rfl, h⟩
  | ok q => exact gives_ofQuery p entity q c h

theorem planOnce_eq (p : Planner) (entity text : String) :
    p.planOnce entity text = p.query text >>= p.planResult entity :=
  (plan_of_reached .empty entity text).1

theorem plan_eq_planOnce {p : Planner} {c : PathCache} (h : p.resolver.Reached c)
    (entity text : String) : (p.plan entity text c).1 = p.planOnce entity text := by
  rw [planOnce_eq, (plan_of_reached h entity text).1]

end Planner

/-! ## 4. Predicates of outlines -/

namespace Outline

mutual

/-- The predicate of an outline, if every name in it has a path and every term an operand. -/
def predicate? (p : Planner) (entity : String) : Outline → Option Predicate
  | combined op children => (predicates? p entity children).map (.boolean op)
  | clause field symbol term modifiers =>
    if sameIgnoringCase field SearchClause.allRecordsIndex then some .matchAll
    else do
      let path ← (p.resolver.follow entity field).toOption
      let operand ← (Operand.ofTerm p.settings path.domain symbol modifiers term).toOption
      return .compare ⟨path, symbol.comparator, operand⟩

/-- The predicates of several outlines. -/
def predicates? (p : Planner) (entity : String) : List Outline → Option (List Predicate)
  | [] => some []
  | o :: rest => do return (← predicate? p entity o) :: (← predicates? p entity rest)

end

end Outline

namespace Planner

variable {p : Planner} {entity : String}

theorem clauseResult_outline (c : SearchClause) :
    (p.clauseResult entity c).toOption = c.outline.predicate? p entity := by
  rw [clauseResult, SearchClause.outline, Outline.predicate?, SearchClause.isAllRecords]
  by_cases hall : sameIgnoringCase c.field.value SearchClause.allRecordsIndex = true
  · rw [if_pos hall, if_pos hall]
    rfl
  · rw [if_neg hall, if_neg hall, followed]
    cases p.resolver.follow entity c.field.value with
    | error f => rfl
    | ok path =>
      have hterm (r : Except TermFault Operand) :
          ((r.mapError (PlanFault.term · c.span)) >>= fun o =>
            pure (Predicate.compare ⟨path, c.symbol.value.comparator, o⟩)).toOption =
          r.toOption >>= fun o =>
            pure (Predicate.compare ⟨path, c.symbol.value.comparator, o⟩) := by
        cases r <;> rfl
      exact hterm _

mutual

/-- **The predicate of a filter is that of its outline, and there is a fault if that has none.** -/
theorem filterResult_outline (f : Filter) :
    (p.filterResult entity f).toOption = f.outline.predicate? p entity := by
  cases f with
  | clause c =>
    rw [filterResult, Filter.outline_clause]
    exact clauseResult_outline c
  | combined op children span =>
    rw [filterResult, Filter.outline_combined, Outline.predicate?,
      ← filterResults_outlines children]
    cases p.filterResults entity children <;> rfl

theorem filterResults_outlines (fs : List Filter) :
    (p.filterResults entity fs).toOption =
      Outline.predicates? p entity (Filter.outlines fs) := by
  cases fs with
  | nil =>
    rw [filterResults, Filter.outlines_nil, Outline.predicates?]
    rfl
  | cons f fs =>
    rw [filterResults, Filter.outlines_cons, Outline.predicates?, ← filterResult_outline f,
      ← filterResults_outlines fs]
    cases p.filterResult entity f with
    | error e => rfl
    | ok q => cases p.filterResults entity fs <;> rfl

end

end Planner

/-! ## 5. Persons, to show things on -/

/-- Queries about persons, who have a name. -/
def persons : Planner where
  schema := (Schema.empty 1 0).withEntity
    { name := "Person", identityField := "name", fields := [⟨"name", .scalar .one .string, true⟩] }

/-- The path of the name. -/
def personName : Path := ⟨"Person", [⟨"Person", "name", .value false⟩], .text, false, false, true⟩

/-- Two persons. -/
def bobAndEve : Store :=
  ⟨[("Person", [[("name", .scalar (.text "Bob"))], [("name", .scalar (.text "Eve"))]])]⟩

end ContextualQuery
