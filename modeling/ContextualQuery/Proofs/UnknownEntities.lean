import ContextualQuery.Proofs.Mirroring
import ContextualQuery.Proofs.Remembering
import ContextualQuery.Repository
/-!
# Entities that a schema does not have

Nothing but a name makes a planner look at the entity. On an entity that the schema does not have, a query is
refused at the first name in it, and one without names has a plan.

* `Query.names`: the names of a query that are looked up;
* `planResult_eq_error_iff_of_unknown`: on an unknown entity the first of them is at fault, and
  `exists_planResult_of_names_eq_nil`: where there is none, the plan compares nothing;
* `plan_snd_of_unknown`: nothing is remembered of an unknown entity;
* `Planner.Refuses`: a text has no plan, and no gateway is asked for it;
* `refuses_unknown_entity` puts these together.
-/

namespace ContextualQuery

/-! ## 1. Names of a query -/

/-- The names of a query that are looked up, in the order of its text: those of its search clauses, without
the index of all records, and then those of its sort clauses. -/
def Query.names (q : Query) : List (Located String) :=
  (q.clauses.filter fun c => !c.isAllRecords).map (·.field) ++ q.sort.map (·.field)

/-- Where a part has a fault exactly if it is selected, the first fault is that of the first selected part. -/
theorem firstFault_selected_iff {ε α : Type} {fails : α → ε → Prop} {selected : α → Bool} {fault : α → ε}
    (hfails : ∀ a e, fails a e ↔ selected a = true ∧ e = fault a) {as : List α} {e : ε} :
    FirstFault fails as e ↔ ∃ a, (as.filter selected).head? = some a ∧ e = fault a := by
  induction as with
  | nil => exact ⟨fun h => absurd h not_firstFault_nil, nofun⟩
  | cons a as ih =>
    rw [firstFault_cons_iff, ih]
    cases ha : selected a with
    | true =>
      rw [List.filter_cons_of_pos ha, List.head?_cons]
      constructor
      · intro h
        rcases h with h | ⟨h, _⟩
        · exact ⟨a, rfl, ((hfails a e).mp h).2⟩
        · exact absurd ((hfails a _).mpr ⟨ha, rfl⟩) (h _)
      · intro h
        obtain ⟨b, hb, rfl⟩ := h
        cases hb
        exact .inl ((hfails a _).mpr ⟨ha, rfl⟩)
    | false =>
      have hnone : ∀ e', ¬ fails a e' := fun e' h =>
        absurd (((hfails a e').mp h).1.symm.trans ha) nofun
      rw [List.filter_cons_of_neg (by rw [ha]; decide)]
      constructor
      · intro h
        rcases h with h | ⟨_, h⟩
        · exact absurd h (hnone e)
        · exact h
      · exact fun h => .inr ⟨hnone, h⟩

/-! ## 2. Plans on an unknown entity -/

namespace Planner

variable {p : Planner} {entity : String}

theorem follow_of_unknown (h : p.schema.hasEntity entity = false) (field : String) :
    p.resolver.follow entity field = .error (.unknownEntity entity) := by
  show p.schema.resolve p.settings.maxPathHops entity field = _
  unfold Schema.resolve
  rw [h]
  rfl

theorem clauseFails_iff_of_unknown (h : p.schema.hasEntity entity = false) (c : SearchClause) (f : PlanFault) :
    p.ClauseFails entity c f ↔
      (!c.isAllRecords) = true ∧ f = .name (.unknownEntity entity) c.field.span := by
  have hfollow := follow_of_unknown h c.field.value
  rw [Bool.not_eq_true']
  constructor
  · intro hf
    cases hf with
    | name named hname =>
      cases hfollow.symm.trans hname
      exact ⟨named, rfl⟩
    | term named hpath => cases hfollow.symm.trans hpath
  · rintro ⟨named, rfl⟩
    exact .name named hfollow

theorem keyFails_iff_of_unknown (h : p.schema.hasEntity entity = false) (c : SortClause) (f : PlanFault) :
    p.KeyFails entity c f ↔ true = true ∧ f = .name (.unknownEntity entity) c.field.span := by
  have hfollow := follow_of_unknown h c.field.value
  constructor
  · intro hf
    cases hf with
    | name hname =>
      cases hfollow.symm.trans hname
      exact ⟨rfl, rfl⟩
    | unsortable hpath => cases hfollow.symm.trans hpath
  · rintro ⟨-, rfl⟩
    exact .name hfollow

/-- **On an unknown entity the first name of a query is at fault.** -/
theorem planResult_eq_error_iff_of_unknown (h : p.schema.hasEntity entity = false) {q : Query} {f : PlanFault} :
    p.planResult entity q = .error f ↔
      ∃ field, q.names.head? = some field ∧ f = .name (.unknownEntity entity) field.span := by
  have hclauses := clauseFails_iff_of_unknown h
  have hkeys := keyFails_iff_of_unknown h
  rw [planResult_eq_error_iff, firstFault_selected_iff hclauses, firstFault_selected_iff hkeys,
    ← forall_not_firstFault_iff]
  simp only [firstFault_selected_iff hclauses]
  unfold Query.names
  rw [List.head?_append, List.head?_map, List.head?_map, List.filter_true]
  cases (q.clauses.filter fun c => !c.isAllRecords).head? with
  | some c => simp
  | none => simp

/-- **A query without names has a plan on any entity; it compares nothing and asks for no order.** -/
theorem exists_planResult_of_names_eq_nil {q : Query} (hq : q.names = []) :
    ∃ plan, p.planResult entity q = .ok plan ∧ plan.predicate.comparisons = [] ∧ plan.sort = [] := by
  obtain ⟨hclauses, hsort⟩ := List.append_eq_nil_iff.mp hq
  have hnamed := List.map_eq_nil_iff.mp hclauses
  have hkeys := List.map_eq_nil_iff.mp hsort
  have hall : ∀ c ∈ q.clauses, c.isAllRecords = false → ∃ cmp, p.Compares entity c cmp := by
    intro c hc hfalse
    exact absurd (by rw [hfalse]; rfl) (List.filter_eq_nil_iff.mp hnamed c hc)
  obtain ⟨plan, hplan⟩ := exists_planResult_iff.mpr ⟨hall, by rw [hkeys]; exact nofun⟩
  have hmirrors := mirrors_planResult hplan
  refine ⟨plan, hplan, ?_, ?_⟩
  · have h := hmirrors.comparisons
    rw [hnamed] at h
    exact List.forall₂_nil_left_iff.mp h
  · have h := hmirrors.keys
    rw [hkeys] at h
    exact List.forall₂_nil_left_iff.mp h

/-- Looking up names on an unknown entity leaves a memory as it is. -/
theorem resolveAll_of_unknown (h : p.schema.hasEntity entity = false) (c : PathCache)
    (names : List String) : p.resolver.resolveAll entity c names = c := by
  induction names with
  | nil => rfl
  | cons name names ih =>
    have hfollow := follow_of_unknown h name
    have hstep : (p.resolver.resolve entity name c).2 = c := by
      unfold Resolver.resolve
      rw [hfollow]
      split
      · rfl
      · cases hfind : c.find? entity name with
        | none => rfl
        | some path => rfl
    unfold Resolver.resolveAll
    rw [List.foldl_cons, hstep]
    exact ih

theorem plan_snd_of_unknown (h : p.schema.hasEntity entity = false) {c : PathCache}
    (hc : p.resolver.Reached c) (text : String) : (p.plan entity text c).2 = c := by
  rw [memory_plan hc]
  exact resolveAll_of_unknown h c _

/-! ## 3. Refusing -/

/-- The text has no plan, for this fault. It leaves the memory as it is, and whatever the gateway is, a page
of rows or their number is refused without asking it. -/
structure Refuses (p : Planner) (entity text : String) (c : PathCache) (f : PlanFault) : Prop where
  plan : p.plan entity text c = (.error f, c)
  find : ∀ {m : Type → Type} [Monad m] {ε α : Type} (g : Gateway m ε α) (w : Window),
    Repository.find ⟨p, g⟩ entity text w c = pure (.error (.plan f), c)
  count : ∀ {m : Type → Type} [Monad m] {ε α : Type} (g : Gateway m ε α),
    Repository.count ⟨p, g⟩ entity text c = pure (.error (.plan f), c)

theorem refuses_of_plan {text : String} {c : PathCache} {f : PlanFault}
    (h : p.plan entity text c = (.error f, c)) : p.Refuses entity text c f where
  plan := h
  find g w := by
    unfold Repository.find
    rw [h]
  count g := by
    unfold Repository.count
    rw [h]

/-- A text that spells no query is at fault as a text. -/
theorem kind_of_query_eq_error {text : String} {f : PlanFault} (h : p.query text = .error f) :
    f.kind = .lex ∨ f.kind = .parse := by
  unfold query at h
  simp only at h
  split at h
  · cases h
    exact .inr rfl
  · cases hparse : Query.parse text p.settings.maxDepth with
    | ok q =>
      rw [hparse] at h
      cases h
    | error g =>
      rw [hparse] at h
      cases h
      cases g with
      | lexical g => exact .inl rfl
      | grammatical g => exact .inr rfl

/-- **An unknown entity is refused at the first name.** A text that is faulty or too long is refused for this.
A query that names something is refused at its first name, because the entity is unknown. Nothing is
remembered of it, and no gateway is asked. A query that names nothing has a plan, which compares nothing and
asks for no order. -/
theorem refuses_unknown_entity (h : p.schema.hasEntity entity = false) {c : PathCache}
    (hc : p.resolver.Reached c) (text : String) :
    (∀ f, p.query text = .error f →
      p.Refuses entity text c f ∧ (f.kind = .lex ∨ f.kind = .parse)) ∧
    ∀ q, p.query text = .ok q →
      (∀ field, q.names.head? = some field →
        ∃ f, f = .name (.unknownEntity entity) field.span ∧ f.kind = .unknownEntity ∧
          p.Refuses entity text c f) ∧
      (q.names = [] →
        ∃ plan, p.plan entity text c = (.ok plan, c) ∧
          plan.predicate.comparisons = [] ∧ plan.sort = []) := by
  have hmemory := plan_snd_of_unknown h hc text
  have hplan := (plan_of_reached hc entity text).1
  refine ⟨fun f hf => ?_, fun q hq => ⟨fun field hfield => ?_, fun hnames => ?_⟩⟩
  · rw [hf] at hplan
    exact ⟨refuses_of_plan (Prod.ext hplan hmemory), kind_of_query_eq_error hf⟩
  · have hfault := (planResult_eq_error_iff_of_unknown h).mpr ⟨field, hfield, rfl⟩
    rw [hq] at hplan
    exact ⟨_, rfl, rfl, refuses_of_plan (Prod.ext (hplan.trans hfault) hmemory)⟩
  · obtain ⟨plan, hok, hcomparisons, hsort⟩ : ∃ plan, p.planResult entity q = .ok plan ∧
        plan.predicate.comparisons = [] ∧ plan.sort = [] := exists_planResult_of_names_eq_nil hnames
    rw [hq] at hplan
    exact ⟨plan, Prod.ext (hplan.trans hok) hmemory, hcomparisons, hsort⟩

end Planner

/-- There are no ghosts among the entities: the first name that a query for them looks up is refused. -/
theorem persons_refuse_ghosts :
    persons.schema.hasEntity "Ghost" = false ∧
    ∃ f, f = .name (.unknownEntity "Ghost") ⟨20, 24⟩ ∧ f.kind = .unknownEntity ∧
      persons.Refuses "Ghost" "cql.allRecords=1 or name==Bob sortBy age" .empty f := by
  have hghost : persons.schema.hasEntity "Ghost" = false := by decide +kernel
  have hfirst : (persons.query "cql.allRecords=1 or name==Bob sortBy age").map (·.names.head?) =
      .ok (some ⟨"name", ⟨20, 24⟩⟩) :=
    toOption_eq_some_iff.mp (by decide +kernel)
  obtain ⟨q, hq, hname⟩ := map_eq_ok_iff.mp hfirst
  obtain ⟨_, hquery⟩ := Planner.refuses_unknown_entity hghost .empty "cql.allRecords=1 or name==Bob sortBy age"
  exact ⟨hghost, (hquery q hq).1 _ hname⟩

/-- So an unknown entity is not refused by itself: texts that name nothing have plans on it. -/
theorem persons_plan_for_ghosts :
    persons.schema.hasEntity "Ghost" = false ∧
    (∀ text ∈ ["", "*", "cql.allRecords=1"], ∃ plan, (persons.plan "Ghost" text .empty).1 = .ok plan) ∧
    ¬ ∀ (p : Planner) (entity text : String), p.schema.hasEntity entity = false →
      ∃ f, (p.plan entity text .empty).1 = .error f := by
  have hghost : persons.schema.hasEntity "Ghost" = false := by decide +kernel
  have hplans : ∀ text ∈ ["", "*", "cql.allRecords=1"],
      ∃ plan, (persons.plan "Ghost" text .empty).1 = .ok plan := by
    have hok : ∀ text ∈ ["", "*", "cql.allRecords=1"], (persons.planOnce "Ghost" text).isOk = true := by
      decide +kernel
    exact fun text ht => exists_ok_of_isOk (hok text ht)
  refine ⟨hghost, hplans, fun hall => ?_⟩
  obtain ⟨f, hf⟩ := hall persons "Ghost" "cql.allRecords=1" hghost
  obtain ⟨plan, hplan⟩ := hplans "cql.allRecords=1" (by decide)
  cases hf.symm.trans hplan

end ContextualQuery
