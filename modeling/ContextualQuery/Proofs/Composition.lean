import ContextualQuery.Proofs.Parsing
import ContextualQuery.Proofs.Planning
import ContextualQuery.Store.Answering
/-!
# Filters put together

Two texts that are filters are put together by parentheses and a word between them, and the new text
selects what the word says of the two selections:

* `Planner.Filters`: a text is a filter, and this is its plan; `filters_of_derivation` and
  `Filters.derivation`: such a text is one whose derivation has a predicate;
* `Planner.Selects`: what a text selects, and `Filters.selects`: a filter selects in the order of
  the table;
* `bothText`, `eitherText`, `oppositeText`, `exceptText`: the texts that are put together;
* `selects_composed`: what they select.
-/

namespace ContextualQuery

/-! ## 1. Texts that are filters -/

namespace Planner

/-- The text has the plan, and is a filter without a sort specification. -/
structure Filters (p : Planner) (entity text : String) (plan : Plan) : Prop where
  planned : ∃ c, p.resolver.Reached c ∧ (p.plan entity text c).1 = .ok plan
  filter : ∀ q, p.query text = .ok q → q.filter.isSome = true ∧ q.sort = []

/-- The text is no longer than the settings allow, and its parentheses nest no deeper. -/
structure Fits (p : Planner) (text : String) : Prop where
  length : byteLength text.toList ≤ p.settings.maxQueryLength
  depth : ∀ ts, tokenize text = .ok ts → deepest 0 (ts.map (·.value)) ≤ p.settings.maxDepth

variable {p : Planner} {entity text : String}

/-- A derivation of a filter alone. -/
def alone (d : Derivation .disjunction) : QueryDerivation := ⟨.filter d, none⟩

theorem Fits.nesting (h : p.Fits text) {d : Derivation .disjunction}
    (hd : (alone d).Derives text) : d.nesting ≤ p.settings.maxDepth := by
  obtain ⟨ts, ht, hv⟩ := hd
  have hdeep := h.depth ts ht
  rw [← hv, QueryDerivation.deepest_tokens] at hdeep
  exact hdeep

theorem query_eq_parse (h : byteLength text.toList ≤ p.settings.maxQueryLength) {q : Query}
    (hq : Query.parse text p.settings.maxDepth = .ok q) : p.query text = .ok q := by
  rw [query, if_neg (Nat.not_lt.mpr h), hq]

theorem parse_of_query {q : Query} (h : p.query text = .ok q) :
    Query.parse text p.settings.maxDepth = .ok q := by
  rw [query] at h
  split at h
  · cases h
  · cases hq : Query.parse text p.settings.maxDepth with
    | error f =>
      rw [hq] at h
      cases h
    | ok q' =>
      rw [hq] at h
      cases h
      rfl

/-- How deep a text nests is known from its derivation. -/
theorem fits_of_derives (hl : byteLength text.toList ≤ p.settings.maxQueryLength)
    {d : Derivation .disjunction} (hd : (alone d).Derives text)
    (hn : d.nesting ≤ p.settings.maxDepth) : p.Fits text := by
  refine ⟨hl, fun ts ht => ?_⟩
  obtain ⟨ts', ht', hv⟩ := hd
  cases ht.symm.trans ht'
  rw [← hv, QueryDerivation.deepest_tokens]
  exact hn

/-- A filter is planned by its outline. -/
theorem planResult_filter {f : Filter} {s : Span} {pr : Predicate}
    (h : f.outline.predicate? p entity = some pr) :
    p.planResult entity ⟨some f, [], s⟩ = .ok ⟨pr, []⟩ := by
  rw [← filterResult_outline] at h
  cases hf : p.filterResult entity f with
  | error e =>
    rw [hf] at h
    cases h
  | ok pr' =>
    rw [hf] at h
    cases h
    exact bind_eq_ok_iff.mpr ⟨pr, hf, rfl⟩

/-- A text whose derivation has a predicate is a filter. -/
theorem filters_of_derivation (hfits : p.Fits text) {d : Derivation .disjunction}
    (hd : (alone d).Derives text) {pr : Predicate}
    (hpr : Outline.predicate? p entity d.reading = some pr) :
    p.Filters entity text ⟨pr, []⟩ := by
  obtain ⟨⟨o, ks, s⟩, hq, ho⟩ := parse_of_derives hd (hfits.nesting hd)
  simp only [Query.outline, QueryDerivation.reading, alone, QueryOutline.mk.injEq] at ho
  obtain ⟨hf, hs⟩ := ho
  obtain ⟨f, rfl, hfr⟩ := Option.map_eq_some_iff.mp hf
  cases List.map_eq_nil_iff.mp hs
  have hquery := query_eq_parse hfits.length hq
  refine ⟨⟨.empty, .empty, ?_⟩, ?_⟩
  · rw [(plan_of_reached .empty entity text).1, hquery]
    exact planResult_filter (hfr ▸ hpr)
  · intro q h
    cases hquery.symm.trans h
    exact ⟨rfl, rfl⟩

/-- A text that is a filter has a derivation with a predicate. -/
theorem Filters.derivation {plan : Plan} (h : p.Filters entity text plan) :
    ∃ d : Derivation .disjunction, (alone d).Derives text ∧
      Outline.predicate? p entity d.reading = some plan.predicate := by
  obtain ⟨c, hc, hplan⟩ := h.planned
  rw [(plan_of_reached hc entity text).1] at hplan
  obtain ⟨⟨o, ks, s⟩, hq, hplan⟩ := bind_eq_ok_iff.mp hplan
  obtain ⟨hsome, hks⟩ := h.filter _ hq
  obtain ⟨f, rfl⟩ := Option.isSome_iff_exists.mp hsome
  cases hks
  obtain ⟨⟨fp, sp⟩, hd, _, hr⟩ := derives_of_parse (parse_of_query hq)
  simp only [Query.outline, QueryDerivation.reading, QueryOutline.mk.injEq] at hr
  cases sp with
  | some sp => cases hr.2
  | none =>
    cases fp with
    | absent => cases hr.1
    | lone t bare => cases hr.1
    | filter d =>
      refine ⟨d, hd, ?_⟩
      obtain ⟨pr, hpr, hplan⟩ := bind_eq_ok_iff.mp hplan
      cases hplan
      have hout : (p.filterResult entity f).toOption = f.outline.predicate? p entity :=
        filterResult_outline f
      rw [Option.some.inj hr.1, ← hout]
      exact congrArg Except.toOption hpr

/-! ## 2. What a text selects -/

/-- Whatever is remembered, the text has a plan, and the plan selects the records of the entity for
which `holds` is true, in the order of their table. -/
def Selects (p : Planner) (s : Store) (entity text : String) (holds : Record → Bool) : Prop :=
  ∀ c, p.resolver.Reached c → ∃ plan, (p.plan entity text c).1 = .ok plan ∧
    s.matching entity plan.predicate plan.sort = (s.rows entity).filter holds

end Planner

namespace Store

/-- Without keys the order stays. -/
theorem sorted_nil (s : Store) (rs : List Record) : s.sorted [] rs = rs :=
  List.mergeSort_of_pairwise (List.pairwise_of_forall fun _ _ => rfl)

variable (s : Store) (r : Record) (pr qr : Predicate)

theorem satisfies_and :
    s.satisfies r (.boolean .and [pr, qr]) = (s.satisfies r pr && s.satisfies r qr) := by
  rw [satisfies, satisfiesAll, satisfiesAll, satisfiesAll, Bool.and_true]

theorem satisfies_or :
    s.satisfies r (.boolean .or [pr, qr]) = (s.satisfies r pr || s.satisfies r qr) := by
  rw [satisfies, satisfiesAny, satisfiesAny, satisfiesAny, Bool.or_false]

theorem satisfies_not : s.satisfies r (.boolean .not [pr]) = !s.satisfies r pr := by
  rw [satisfies, satisfiesAll, satisfiesAll, Bool.and_true]

end Store

namespace Planner

variable {p : Planner} {entity text : String}

/-- The plan of a filter does not depend on what is remembered. -/
theorem Filters.planOnce_eq {plan : Plan} (h : p.Filters entity text plan) :
    p.planOnce entity text = .ok plan := by
  obtain ⟨c, hc, hplan⟩ := h.planned
  rw [← plan_eq_planOnce hc, hplan]

theorem Filters.selects {pr : Predicate} (h : p.Filters entity text ⟨pr, []⟩) (s : Store) :
    p.Selects s entity text (s.satisfies · pr) := by
  intro c hc
  refine ⟨⟨pr, []⟩, ?_, s.sorted_nil _⟩
  rw [plan_eq_planOnce hc, h.planOnce_eq]

theorem selects_of_derivation (hfits : p.Fits text) {d : Derivation .disjunction}
    (hd : (alone d).Derives text) {pr : Predicate}
    (hpr : Outline.predicate? p entity d.reading = some pr) (s : Store) :
    p.Selects s entity text (s.satisfies · pr) :=
  (filters_of_derivation hfits hd hpr).selects s

end Planner

/-! ## 3. Texts put together -/

/-- Both filters. -/
def bothText (a b : String) : String := "(" ++ a ++ ") and (" ++ b ++ ")"

/-- One filter or the other. -/
def eitherText (a b : String) : String := "(" ++ a ++ ") or (" ++ b ++ ")"

/-- Not the filter. -/
def oppositeText (a : String) : String := "not (" ++ a ++ ")"

/-- The first filter, and not the second. -/
def exceptText (a b : String) : String := "(" ++ a ++ ") not (" ++ b ++ ")"

namespace Reserved

/-- The word `and`. -/
def and : Reserved .and := ⟨"and", by decide⟩

/-- The word `or`. -/
def or : Reserved .or := ⟨"or", by decide⟩

/-- The word `not`. -/
def not : Reserved .not := ⟨"not", by decide⟩

end Reserved

namespace Derivation

variable (d e : Derivation .disjunction)

/-- A chain of a single negated part. -/
def ofNegated (d : Derivation .negated) (rest : Derivation .conjuncts) : Derivation .disjunction :=
  .disjunction (.conjunction d rest) .noDisjunct

/-- Both groups. -/
def both : Derivation .disjunction :=
  .ofNegated (.plain (.group d)) (.conjunct .and (.plain (.group e)) .noConjunct)

/-- One group or the other. -/
def either : Derivation .disjunction :=
  .disjunction (.conjunction (.plain (.group d)) .noConjunct)
    (.disjunct .or (.conjunction (.plain (.group e)) .noConjunct) .noDisjunct)

/-- Not the group. -/
def opposite : Derivation .disjunction := .ofNegated (.negated .not (.group d)) .noConjunct

/-- The first group, and not the second. -/
def except : Derivation .disjunction :=
  .ofNegated (.plain (.group d)) (.exception .not (.group e) .noConjunct)

end Derivation

namespace Spells

variable {as bs : List Char} {ts us : List Token}

/-- A group, and what follows it. -/
theorem group (ha : Spells as ts) (hb : Spells bs us) :
    Spells ('(' :: (as ++ ')' :: bs)) (.openParen :: (ts ++ .closeParen :: us)) :=
  .openParen (ha.append (breaks_closeParen _) hb.closeParen)

theorem and (h : Spells as ts) :
    Spells ('a' :: 'n' :: 'd' :: ' ' :: as) (.word "and" :: ts) := .token rfl h.space

theorem or (h : Spells as ts) : Spells ('o' :: 'r' :: ' ' :: as) (.word "or" :: ts) :=
  .token rfl h.space

theorem not (h : Spells as ts) :
    Spells ('n' :: 'o' :: 't' :: ' ' :: as) (.word "not" :: ts) := .token rfl h.space

end Spells

section Derives

open Planner (alone)

variable {d e : Derivation .disjunction} {a b : String}

theorem derives_alone_iff {text : String} :
    (alone d).Derives text ↔ Spells text.toList d.tokens := by
  rw [QueryDerivation.derives_iff_spells, QueryDerivation.tokens, alone, QueryDerivation.sortTokens,
    List.append_nil]
  rfl

theorem derives_both (ha : (alone d).Derives a) (hb : (alone e).Derives b) :
    (alone (d.both e)).Derives (bothText a b) := by
  rw [derives_alone_iff] at ha hb ⊢
  have h := ha.group (hb.group .nil).and.space
  simpa [bothText, Derivation.tokens, Derivation.both, Derivation.ofNegated, Reserved.and] using h

theorem derives_either (ha : (alone d).Derives a) (hb : (alone e).Derives b) :
    (alone (d.either e)).Derives (eitherText a b) := by
  rw [derives_alone_iff] at ha hb ⊢
  have h := ha.group (hb.group .nil).or.space
  simpa [eitherText, Derivation.tokens, Derivation.either, Reserved.or] using h

theorem derives_opposite (ha : (alone d).Derives a) :
    (alone d.opposite).Derives (oppositeText a) := by
  rw [derives_alone_iff] at ha ⊢
  have h := (ha.group .nil).not
  simpa [oppositeText, Derivation.tokens, Derivation.opposite, Derivation.ofNegated, Reserved.not]
    using h

theorem derives_except (ha : (alone d).Derives a) (hb : (alone e).Derives b) :
    (alone (d.except e)).Derives (exceptText a b) := by
  rw [derives_alone_iff] at ha hb ⊢
  have h := ha.group (hb.group .nil).not.space
  simpa [exceptText, Derivation.tokens, Derivation.except, Derivation.ofNegated, Reserved.not]
    using h

end Derives

/-! ## 4. What texts put together select -/

section Predicates

variable {p : Planner} {entity : String} {d e : Derivation .disjunction} {pr qr : Predicate}

/-- A connective over two outlines is one over their predicates. -/
theorem predicate_pair {o u : Outline} (op : Connective) (ho : o.predicate? p entity = some pr)
    (hu : u.predicate? p entity = some qr) :
    (Outline.combined op [o, u]).predicate? p entity = some (.boolean op [pr, qr]) := by
  simp [Outline.predicate?, Outline.predicates?, ho, hu]

theorem predicate_not {o : Outline} (ho : o.predicate? p entity = some pr) :
    (Outline.combined .not [o]).predicate? p entity = some (.boolean .not [pr]) := by
  simp [Outline.predicate?, Outline.predicates?, ho]

variable (hd : Outline.predicate? p entity d.reading = some pr)
  (he : Outline.predicate? p entity e.reading = some qr)

include hd he in
theorem predicate_both :
    Outline.predicate? p entity (d.both e).reading = some (.boolean .and [pr, qr]) :=
  predicate_pair .and hd he

include hd he in
theorem predicate_either :
    Outline.predicate? p entity (d.either e).reading = some (.boolean .or [pr, qr]) :=
  predicate_pair .or hd he

include hd in
theorem predicate_opposite :
    Outline.predicate? p entity d.opposite.reading = some (.boolean .not [pr]) :=
  predicate_not hd

include hd he in
theorem predicate_except :
    Outline.predicate? p entity (d.except e).reading =
      some (.boolean .and [pr, .boolean .not [qr]]) :=
  predicate_pair .and hd (predicate_not he)

end Predicates

/-- **Two filters put together select what the word between them says of their selections**, if the
new text is not too long and does not nest too deep. -/
theorem selects_composed {p : Planner} {entity a b : String} {pa pb : Plan}
    (ha : p.Filters entity a pa) (hb : p.Filters entity b pb) (s : Store) :
    (p.Fits (bothText a b) → p.Selects s entity (bothText a b) fun r =>
      s.satisfies r pa.predicate && s.satisfies r pb.predicate) ∧
    (p.Fits (eitherText a b) → p.Selects s entity (eitherText a b) fun r =>
      s.satisfies r pa.predicate || s.satisfies r pb.predicate) ∧
    (p.Fits (oppositeText a) → p.Selects s entity (oppositeText a) fun r =>
      !s.satisfies r pa.predicate) ∧
    (p.Fits (exceptText a b) → p.Selects s entity (exceptText a b) fun r =>
      s.satisfies r pa.predicate && !s.satisfies r pb.predicate) := by
  obtain ⟨d, hda, hd⟩ := ha.derivation
  obtain ⟨e, heb, he⟩ := hb.derivation
  refine ⟨fun h => ?_, fun h => ?_, fun h => ?_, fun h => ?_⟩
  · have hboth := derives_both hda heb
    have hsel := Planner.selects_of_derivation h hboth (predicate_both hd he) s
    simpa only [Store.satisfies_and] using hsel
  · have heither := derives_either hda heb
    have hsel := Planner.selects_of_derivation h heither (predicate_either hd he) s
    simpa only [Store.satisfies_or] using hsel
  · have hopposite := derives_opposite hda
    have hsel := Planner.selects_of_derivation h hopposite (predicate_opposite hd) s
    simpa only [Store.satisfies_not] using hsel
  · have hexcept := derives_except hda heb
    have hsel := Planner.selects_of_derivation h hexcept (predicate_except hd he) s
    simpa only [Store.satisfies_and, Store.satisfies_not] using hsel

/-! ### Persons by their names -/

/-- The derivation of a filter for a name. -/
def nameIs (name : String) : Derivation .disjunction :=
  .disjunction
    (.conjunction
      (.plain (.clause ⟨⟨"name", by decide⟩, .exact, [], .word name, [], by intro a ha; cases ha⟩))
      .noConjunct)
    .noDisjunct

/-- The predicate of a filter for a name. -/
def nameMatches (name : String) : Predicate := .compare ⟨personName, .eq, .text name .exact⟩

theorem derives_bob : (Planner.alone (nameIs "bob")).Derives "name==bob" :=
  derives_alone_iff.mpr (@Spells.token _ _ "==bob".toList _ _ rfl
    (@Spells.token _ _ "bob".toList _ _ rfl (.token rfl .nil)))

theorem derives_eve : (Planner.alone (nameIs "eve")).Derives "name==eve" :=
  derives_alone_iff.mpr (@Spells.token _ _ "==eve".toList _ _ rfl
    (@Spells.token _ _ "eve".toList _ _ rfl (.token rfl .nil)))

theorem filters_bob : persons.Filters "Person" "name==bob" ⟨nameMatches "bob", []⟩ :=
  Planner.filters_of_derivation (Planner.fits_of_derives (by decide) derives_bob (by decide))
    derives_bob rfl

theorem filters_eve : persons.Filters "Person" "name==eve" ⟨nameMatches "eve", []⟩ :=
  Planner.filters_of_derivation (Planner.fits_of_derives (by decide) derives_eve (by decide))
    derives_eve rfl

/-- A filter for either name. -/
theorem filters_either : persons.Filters "Person" "(name==bob) or (name==eve)"
    ⟨.boolean .or [nameMatches "bob", nameMatches "eve"], []⟩ :=
  have h := derives_either derives_bob derives_eve
  Planner.filters_of_derivation (Planner.fits_of_derives (by decide) h (by decide)) h
    (predicate_either rfl rfl)

/-- Bob and Eve, selected by filters for their names put together. -/
theorem selects_composed_persons :
    let s := bobAndEve
    persons.Filters "Person" "name==bob" ⟨nameMatches "bob", []⟩ ∧
    persons.Filters "Person" "name==eve" ⟨nameMatches "eve", []⟩ ∧
    persons.Selects s "Person" "(name==bob) and (name==eve)" (fun r =>
      s.satisfies r (nameMatches "bob") && s.satisfies r (nameMatches "eve")) ∧
    persons.Selects s "Person" "(name==bob) or (name==eve)" (fun r =>
      s.satisfies r (nameMatches "bob") || s.satisfies r (nameMatches "eve")) ∧
    persons.Selects s "Person" "not (name==bob)" (fun r => !s.satisfies r (nameMatches "bob")) ∧
    persons.Selects s "Person" "(name==bob) not (name==eve)" (fun r =>
      s.satisfies r (nameMatches "bob") && !s.satisfies r (nameMatches "eve")) := by
  intro s
  obtain ⟨hboth, heither, hopposite, hexcept⟩ := selects_composed filters_bob filters_eve s
  refine ⟨filters_bob, filters_eve, hboth ?_, heither ?_, hopposite ?_, hexcept ?_⟩
  · exact Planner.fits_of_derives (by decide) (derives_both derives_bob derives_eve) (by decide)
  · exact Planner.fits_of_derives (by decide) (derives_either derives_bob derives_eve) (by decide)
  · exact Planner.fits_of_derives (by decide) (derives_opposite derives_bob) (by decide)
  · exact Planner.fits_of_derives (by decide) (derives_except derives_bob derives_eve) (by decide)

end ContextualQuery
