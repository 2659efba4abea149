import ContextualQuery.Proofs.Composition
import ContextualQuery.Proofs.Masks
import ContextualQuery.Proofs.Typing
/-!
# Plans are well formed

What runs a plan may rely on more than its type says.

* `Predicate.WellFormed`, `SortKey.WellFormed`, `Plan.WellFormed`: what this is. Connectives have as
  many parts as they take, comparisons start from the entity that is asked for and have operands that
  suit them (`Operand.Suits`), and sort keys give every record one value at most;
* `Operand.suits_ofTerm`: the operand of a term suits its comparison;
* `Derivation.shaped_reading`: what is read off a derivation has connectives of the right size, and
  `Outline.wellFormed_predicate`: its predicate is well formed;
* `wellFormed_plan`: so is every plan.
-/

namespace ContextualQuery

/-! ## 1. What may be expected of a plan -/

/-- Whether the value is neither infinite nor no number at all. -/
def Value.isFinite : Value → Bool
  | float32 x => x.isFinite
  | float64 x => x.isFinite
  | _ => true

/-- How many parts a connective takes: `not` takes one, the others take several. -/
def Connective.Takes : Connective → Nat → Prop
  | .not, n => n = 1
  | .and, n | .or, n => 2 ≤ n

/-- An operand that suits a comparison with the values of a domain. -/
structure Operand.Suits (o : Operand) (d : Domain) (c : Comparator) : Prop where
  admits : d.admits o.value = true
  finite : o.value.isFinite = true
  ordered : c.isOrdering = true → d.isOrdered = true
  exact : d.isText = false → o.mode = .exact
  sensitive : d.isText = false → o.isCaseSensitive = true
  contained : o.mode = .contains → c = .eq
  masked : o.mode = .pattern → (c = .eq ∨ c = .ne) ∧
    ∃ term, o.value = .text term ∧ ∃ e ∈ Mask.elements term.toList, e.isWild = true

/-- A predicate on the records of an entity whose connectives have as many parts as they take, and
whose comparisons start from the entity and have operands that suit them. -/
inductive Predicate.WellFormed (entity : String) : Predicate → Prop
  | matchAll : WellFormed entity .matchAll
  | compare {c : Comparison} (start : c.path.entity = entity)
      (suits : c.operand.Suits c.path.domain c.comparator) : WellFormed entity (.compare c)
  | boolean {op : Connective} {children : List Predicate} (takes : op.Takes children.length)
      (parts : ∀ pr ∈ children, WellFormed entity pr) : WellFormed entity (.boolean op children)

/-- A key that gives every record of the entity one value at most to sort by. -/
structure SortKey.WellFormed (entity : String) (k : SortKey) : Prop where
  start : k.path.entity = entity
  sortable : k.path.isSortable = true
  single : ∀ s ∈ k.path.steps, s.isCollection = false

/-- A plan whose predicate and keys are well formed. -/
structure Plan.WellFormed (entity : String) (plan : Plan) : Prop where
  predicate : plan.predicate.WellFormed entity
  sort : ∀ k ∈ plan.sort, k.WellFormed entity

/-! ## 2. Operands -/

/-- A reader that keeps only what has a property gives nothing else. -/
theorem eq_true_of_kept {α β : Type} {p : β → Bool} {f : α → β} {o : Option α} {b : β}
    (h : (o.bind fun a => if p (f a) then some (f a) else none) = some b) : p b = true := by
  obtain ⟨a, _, h⟩ := Option.bind_eq_some_iff.mp h
  split at h
  · rename_i hp
    cases h
    exact hp
  · cases h

/-- What a term is read as is finite. -/
theorem Domain.isFinite_read {d : Domain} {cs : List Char} {v : Value}
    (h : d.read? cs = some v) : v.isFinite = true := by
  cases d with
  | text =>
    cases h
    rfl
  | float32 =>
    obtain ⟨x, hx, rfl⟩ := Option.map_eq_some_iff.mp h
    exact eq_true_of_kept (p := Single.isFinite) hx
  | float64 =>
    obtain ⟨x, hx, rfl⟩ := Option.map_eq_some_iff.mp h
    exact eq_true_of_kept (p := Double.isFinite) hx
  | _ =>
    obtain ⟨x, _, rfl⟩ := Option.map_eq_some_iff.mp h
    rfl

namespace Operand

variable {settings : Settings} {d : Domain} {symbol : RelationSymbol} {modifiers : Modifiers}
  {term : String} {o : Operand}

/-- What a term becomes: a mask, or a literal text, or a value of another domain. -/
theorem ofTerm_cases (h : ofTerm settings d symbol modifiers term = .ok o) :
    (d = .text ∧ isMask modifiers term = true ∧ symbol.isOrdering = false ∧
      o = ⟨.text term, .pattern, respectsCase settings modifiers⟩) ∨
    (d = .text ∧ isMask modifiers term = false ∧
      o = ⟨.text (String.ofList (unescape term.toList)), literalMode settings symbol,
        respectsCase settings modifiers⟩) ∨
    (d.isText = false ∧ (symbol.isOrdering = true → d.isOrdered = true) ∧
      ∃ v, d.read? (trim term.toList) = some v ∧ o = exact v) := by
  rw [ofTerm] at h
  split at h
  · rename_i htext
    have hd : d = .text := by
      cases d <;> first | rfl | cases htext
    rw [ofText] at h
    split at h
    · rename_i hmask
      split at h
      · cases h
      · rename_i hord
        cases h
        exact .inl ⟨hd, hmask, eq_false_of_ne_true hord, rfl⟩
    · rename_i hmask
      cases h
      exact .inr (.inl ⟨hd, eq_false_of_ne_true hmask, rfl⟩)
  · rename_i htext
    rw [ofValue] at h
    split at h
    · cases h
    · split at h
      · cases h
      · rename_i hord
        split at h
        · rename_i v hv
          cases h
          refine .inr (.inr ⟨eq_false_of_ne_true htext, fun hs => ?_, v, hv, rfl⟩)
          rw [hs, Bool.true_and] at hord
          simpa using hord
        · cases h

/-- A literal text is looked for inside others only where the symbol is `=`. -/
theorem literalMode_cases (settings : Settings) (symbol : RelationSymbol) :
    literalMode settings symbol = .exact ∨
      literalMode settings symbol = .contains ∧ symbol = .word := by
  cases symbol with
  | word =>
    rw [literalMode]
    split
    · exact .inr ⟨rfl, rfl⟩
    · exact .inl rfl
  | _ => exact .inl rfl

/-- **The operand of a term suits the comparison that its symbol asks for.** -/
theorem suits_ofTerm (h : ofTerm settings d symbol modifiers term = .ok o) :
    o.Suits d symbol.comparator := by
  have hadmits := admits_ofTerm h
  rcases ofTerm_cases h with ⟨rfl, hmask, hord, rfl⟩ | ⟨rfl, _, rfl⟩ | ⟨htext, hord, v, hv, rfl⟩
  · refine ⟨hadmits, rfl, fun _ => rfl, nofun, nofun, nofun, fun _ => ⟨?_, term, rfl, ?_⟩⟩
    · cases symbol <;> first | exact .inl rfl | exact .inr rfl | cases hord
    · exact hasWildcards_iff.mp (Bool.and_eq_true_iff.mp hmask).2
  · refine ⟨hadmits, rfl, fun _ => rfl, nofun, nofun, fun hm => ?_, fun hm => ?_⟩
    · rcases literalMode_cases settings symbol with he | ⟨_, rfl⟩
      · exact absurd (he.symm.trans hm) nofun
      · rfl
    · rcases literalMode_cases settings symbol with he | ⟨he, _⟩
      · exact absurd (he.symm.trans hm) nofun
      · exact absurd (he.symm.trans hm) nofun
  · refine ⟨hadmits, Domain.isFinite_read hv, fun hs => hord ?_, fun _ => rfl, fun _ => rfl,
      nofun, nofun⟩
    rw [RelationSymbol.isOrdering_comparator] at hs
    exact hs

end Operand

/-! ## 3. Outlines -/

/-- An outline whose connectives have as many parts as they take. -/
inductive Outline.Shaped : Outline → Prop
  | clause (field : String) (symbol : RelationSymbol) (term : String) (modifiers : Modifiers) :
      Shaped (.clause field symbol term modifiers)
  | combined {op : Connective} {children : List Outline} (takes : op.Takes children.length)
      (parts : ∀ o ∈ children, Shaped o) : Shaped (.combined op children)

/-- What is read off a derivation is well shaped, if it is one outline or several. -/
def Category.Shaped : (n : Category) → n.Reading → Prop
  | .disjuncts | .conjuncts => fun os : List Outline => ∀ o ∈ os, o.Shaped
  | .disjunction | .conjunction | .negated | .term => Outline.Shaped

theorem Outline.shaped_chain (op : Connective) (hop : ∀ n, 2 ≤ n → op.Takes n) {o : Outline}
    {os : List Outline} (h : o.Shaped) (hs : ∀ u ∈ os, u.Shaped) : (chain op o os).Shaped := by
  cases os with
  | nil => exact h
  | cons u us => exact .combined (hop _ (by simp)) (List.forall_mem_cons.mpr ⟨h, hs⟩)

theorem Outline.shaped_not {o : Outline} (h : o.Shaped) : (combined .not [o]).Shaped :=
  .combined rfl (by simpa using h)

/-- **What is read off a derivation is well shaped.** -/
theorem Derivation.shaped_reading {n : Category} (d : Derivation n) : n.Shaped d.reading := by
  induction d with
  | disjunction first rest ihf ihr => exact Outline.shaped_chain .or (fun _ h => h) ihf ihr
  | noDisjunct => exact fun _ h => by cases h
  | disjunct _ part rest ihp ihr => exact List.forall_mem_cons.mpr ⟨ihp, ihr⟩
  | conjunction first rest ihf ihr => exact Outline.shaped_chain .and (fun _ h => h) ihf ihr
  | noConjunct => exact fun _ h => by cases h
  | conjunct _ part rest ihp ihr => exact List.forall_mem_cons.mpr ⟨ihp, ihr⟩
  | exception _ part rest ihp ihr =>
    exact List.forall_mem_cons.mpr ⟨Outline.shaped_not ihp, ihr⟩
  | plain part ih => exact ih
  | negated _ part ih => exact Outline.shaped_not ih
  | clause c => exact .clause _ _ _ _
  | group inner ih => exact ih

/-- The outline of a filter that is read is well shaped. -/
theorem shaped_of_parse {text : String} {limit : Nat} {q : Query}
    (h : Query.parse text limit = .ok q) : ∀ f, q.filter = some f → f.outline.Shaped := by
  intro f hf
  obtain ⟨⟨fp, s⟩, _, _, hr⟩ := derives_of_parse h
  have hreading : fp.reading = some f.outline := by
    have hfilter := congrArg QueryOutline.filter hr
    rw [Query.outline, hf] at hfilter
    exact hfilter
  cases fp with
  | absent => cases hreading
  | lone t bare => cases hreading
  | filter d =>
    rw [← Option.some.inj hreading]
    exact d.shaped_reading

/-! ## 4. Predicates and keys -/

/-- A path that a name is followed to starts from the entity. -/
theorem Resolver.entity_of_follow {r : Resolver} {entity field : String} {path : Path}
    (h : r.follow entity field = .ok path) : path.entity = entity := by
  obtain ⟨w, _, rfl⟩ := Schema.walk_of_resolve h
  rfl

/-- A path that records may be sorted by leads to one place at most. -/
theorem Resolver.single_of_follow {r : Resolver} {entity field : String} {path : Path}
    (h : r.follow entity field = .ok path) (hs : path.isSortable = true) :
    ∀ s ∈ path.steps, s.isCollection = false := by
  obtain ⟨w, _, rfl⟩ := Schema.walk_of_resolve h
  have hnone : w.isCollection = false := by
    simpa using (Bool.and_eq_true_iff.mp hs).2
  intro s hmem
  exact eq_false_of_ne_true (List.any_eq_false.mp hnone s hmem)

namespace Outline

variable {p : Planner} {entity : String}

theorem wellFormed_clause {field : String} {symbol : RelationSymbol} {term : String}
    {modifiers : Modifiers} {pr : Predicate}
    (h : (clause field symbol term modifiers).predicate? p entity = some pr) :
    pr.WellFormed entity := by
  rw [predicate?] at h
  split at h
  · cases h
    exact .matchAll
  · obtain ⟨path, hpath, h⟩ := Option.bind_eq_some_iff.mp h
    obtain ⟨o, ho, h⟩ := Option.bind_eq_some_iff.mp h
    cases h
    exact .compare (Resolver.entity_of_follow (toOption_eq_some_iff.mp hpath))
      (Operand.suits_ofTerm (toOption_eq_some_iff.mp ho))

mutual

/-- **The predicate of a well-shaped outline is well formed.** -/
theorem wellFormed_predicate {o : Outline} {pr : Predicate} (hs : o.Shaped)
    (h : o.predicate? p entity = some pr) : pr.WellFormed entity := by
  cases hs with
  | clause => exact wellFormed_clause h
  | @combined op children takes parts =>
    rw [predicate?] at h
    obtain ⟨prs, hprs, rfl⟩ := Option.map_eq_some_iff.mp h
    obtain ⟨hlen, hparts⟩ := wellFormed_predicates parts hprs
    exact .boolean (hlen ▸ takes) hparts

theorem wellFormed_predicates {os : List Outline} {prs : List Predicate}
    (hs : ∀ o ∈ os, o.Shaped) (h : predicates? p entity os = some prs) :
    prs.length = os.length ∧ ∀ pr ∈ prs, pr.WellFormed entity := by
  cases os with
  | nil =>
    rw [predicates?] at h
    cases h
    exact ⟨rfl, by simp⟩
  | cons o os =>
    rw [predicates?] at h
    obtain ⟨pr, hpr, h⟩ := Option.bind_eq_some_iff.mp h
    obtain ⟨prs', hprs, h⟩ := Option.bind_eq_some_iff.mp h
    cases h
    obtain ⟨ho, hos⟩ := List.forall_mem_cons.mp hs
    obtain ⟨hlen, hparts⟩ := wellFormed_predicates hos hprs
    exact ⟨congrArg (· + 1) hlen, List.forall_mem_cons.mpr ⟨wellFormed_predicate ho hpr, hparts⟩⟩

end

end Outline

namespace Planner

variable {p : Planner} {entity : String}

theorem wellFormed_key {c : SortClause} {k : SortKey} (h : p.keyResult entity c = .ok k) :
    k.WellFormed entity := by
  obtain ⟨path, hpath, h⟩ := bind_eq_ok_iff.mp h
  split at h
  · rename_i hs
    cases h
    have hfollow := mapError_eq_ok_iff.mp hpath
    exact ⟨Resolver.entity_of_follow hfollow, hs, Resolver.single_of_follow hfollow hs⟩
  · cases h

/-- **Every plan is well formed**, whatever is remembered when it is made. -/
theorem wellFormed_plan {c : PathCache} (hc : p.resolver.Reached c) {text : String} {plan : Plan}
    (h : (p.plan entity text c).1 = .ok plan) : plan.WellFormed entity := by
  rw [(plan_of_reached hc entity text).1] at h
  obtain ⟨q, hq, h⟩ := bind_eq_ok_iff.mp h
  obtain ⟨pr, hpr, h⟩ := bind_eq_ok_iff.mp h
  obtain ⟨keys, hkeys, h⟩ := bind_eq_ok_iff.mp h
  cases h
  refine ⟨?_, fun k hk => ?_⟩
  · cases hf : q.filter with
    | none =>
      rw [hf] at hpr
      cases hpr
      exact .matchAll
    | some f =>
      rw [hf] at hpr
      have hshaped := shaped_of_parse (parse_of_query hq) f hf
      have houtline : (p.filterResult entity f).toOption = f.outline.predicate? p entity :=
        filterResult_outline f
      rw [show p.filterResult entity f = .ok pr from hpr] at houtline
      exact Outline.wellFormed_predicate hshaped houtline.symm
  · obtain ⟨clause, _, hclause⟩ := exists_of_mem_mapM hkeys k hk
    exact wellFormed_key hclause

end Planner

/-- A plan for the persons of a name, unless it fits a mask, in the order of their names. -/
theorem wellFormed_persons :
    ∃ plan, (persons.plan "Person" "name==Bob and not name=E* sortBy name" .empty).1 = .ok plan ∧
      plan.predicate.comparisons = [⟨personName, .eq, .text "Bob" .exact⟩,
        ⟨personName, .eq, .text "E*" .pattern⟩] ∧
      plan.sort = [⟨personName, .ascending⟩] ∧ plan.WellFormed "Person" := by
  have hplan : ((persons.plan "Person" "name==Bob and not name=E* sortBy name" .empty).1.toOption.map
      fun plan => (plan.predicate.comparisons, plan.sort)) =
        some ([⟨personName, .eq, .text "Bob" .exact⟩, ⟨personName, .eq, .text "E*" .pattern⟩],
          [⟨personName, .ascending⟩]) := by decide +kernel
  obtain ⟨plan, hplan, hobserved⟩ := Option.map_eq_some_iff.mp hplan
  have hok := toOption_eq_some_iff.mp hplan
  obtain ⟨hcomparisons, hsort⟩ := Prod.mk.inj hobserved
  exact ⟨plan, hok, hcomparisons, hsort, Planner.wellFormed_plan .empty hok⟩

end ContextualQuery
