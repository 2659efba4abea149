import ContextualQuery.Proofs.Grammar
import ContextualQuery.Proofs.ParserRules
/-!
# Runs of the parser

What the readers of filters do with the items of a text, as data: one rule for each way in which a category
of the grammar is read.

* `Run`: a category is read off the items, with the tree that is made of it, and at most so many levels of
  parentheses are opened on the way;
* `run_term`, …, `run_disjunction`: a reader that takes something runs, by induction on the items for the
  lists of parts;
* `groupRuns_group`: so do the readers of groups, by induction on the levels.

Whatever holds of all trees that are read follows from this by induction on runs.
-/

namespace ContextualQuery

open ContextualQuery.Parser

/-- What is made of a category: one filter, or the further parts of a chain. -/
def Category.Tree : Category → Type
  | disjuncts | conjuncts => List Filter
  | _ => Filter

/-- The category is read off `input`, where the items `rest` are left, as this tree, and at most so many
levels of parentheses are opened one in another. -/
inductive Run (size : Nat) : (levels : Nat) → (n : Category) → (input : List Item) → n.Tree →
    (rest : List Item) → Prop
  | disjunction {levels : Nat} {input mid rest : List Item} {first : Filter} {parts : List Filter}
      (hfirst : Run size levels .conjunction input first mid)
      (hparts : Run size levels .disjuncts mid parts rest) :
      Run size levels .disjunction input (Filter.chain .or first parts) rest
  | noDisjunct {levels : Nat} {input : List Item} : Run size levels .disjuncts input ([] : List Filter) input
  | disjunct {levels : Nat} {input mid rest : List Item} {part : Filter} {parts : List Filter}
      {t : Located Token} (word : t.value.isKeyword .or = true)
      (hpart : Run size levels .conjunction input part mid)
      (hparts : Run size levels .disjuncts mid parts rest) :
      Run size levels .disjuncts (.ok t :: input) (List.cons part parts) rest
  | conjunction {levels : Nat} {input mid rest : List Item} {first : Filter} {parts : List Filter}
      (hfirst : Run size levels .negated input first mid)
      (hparts : Run size levels .conjuncts mid parts rest) :
      Run size levels .conjunction input (Filter.chain .and first parts) rest
  | noConjunct {levels : Nat} {input : List Item} : Run size levels .conjuncts input ([] : List Filter) input
  | conjunct {levels : Nat} {input mid rest : List Item} {part : Filter} {parts : List Filter}
      {t : Located Token} (word : t.value.isKeyword .and = true)
      (hpart : Run size levels .negated input part mid)
      (hparts : Run size levels .conjuncts mid parts rest) :
      Run size levels .conjuncts (.ok t :: input) (List.cons part parts) rest
  | exception {levels : Nat} {input mid rest : List Item} {part : Filter} {parts : List Filter}
      {t : Located Token} (word : t.value.isKeyword .not = true)
      (hpart : Run size levels .term input part mid)
      (hparts : Run size levels .conjuncts mid parts rest) :
      Run size levels .conjuncts (.ok t :: input) (List.cons (Filter.negation t.span part) parts) rest
  | plain {levels : Nat} {input rest : List Item} {part : Filter}
      (hpart : Run size levels .term input part rest) : Run size levels .negated input part rest
  | negated {levels : Nat} {input rest : List Item} {part : Filter} {t : Located Token}
      (word : t.value.isKeyword .not = true) (hpart : Run size levels .term input part rest) :
      Run size levels .negated (.ok t :: input) (Filter.negation t.span part) rest
  | clause {levels : Nat} {input rest : List Item} {c : SearchClause} (hc : Takes (Parser.clause size input) c rest) :
      Run size levels .term input (Filter.clause c) rest
  | group {levels : Nat} {input rest : List Item} {inner : Filter} {opening closing : Span}
      (hinner : Run size levels .disjunction input inner (.ok ⟨.closeParen, closing⟩ :: rest)) :
      Run size (levels + 1) .term (.ok ⟨.openParen, opening⟩ :: input) inner rest

/-- What the reader of groups takes is a run, one level further down. -/
def GroupRuns (size : Nat) (g : GroupReader) (levels : Nat) : Prop :=
  ∀ s input f rest, Takes (g s input) f rest →
    ∃ inner, levels = inner + 1 ∧ Run size inner .disjunction input f rest

section Readers

variable {size levels : Nat} {g : GroupReader} {input rest : List Item}

theorem run_term (hg : GroupRuns size g levels) {f : Filter} (h : Takes (term size g input) f rest) :
    Run size levels .term input f rest := by
  by_cases hp : ∃ s i, input = .ok ⟨.openParen, s⟩ :: i
  · obtain ⟨s, i, rfl⟩ := hp
    obtain ⟨mid, s', ht, rfl⟩ := takes_term_group.mp h
    obtain ⟨inner, rfl, hinner⟩ := hg s i f _ ht
    exact .group hinner
  · obtain ⟨c, hc, rfl⟩ := (takes_term_clause fun s i he => hp ⟨s, i, he⟩).mp h
    exact .clause hc

theorem run_negated (hg : GroupRuns size g levels) {f : Filter} (h : Takes (negated size g input) f rest) :
    Run size levels .negated input f rest := by
  by_cases hn : ∃ t i, input = .ok t :: i ∧ t.value.isKeyword .not = true
  · obtain ⟨t, i, rfl, ht⟩ := hn
    obtain ⟨part, hp, rfl⟩ := (takes_negated_not ht).mp h
    exact .negated ht (run_term hg hp)
  · have hplain : ∀ t i, input = .ok t :: i → t.value.isKeyword .not = false :=
      fun t i he => Bool.eq_false_iff.mpr fun ht => hn ⟨t, i, he, ht⟩
    exact .plain (run_term hg ((takes_negated_plain hplain).mp h))

theorem run_conjuncts (hg : GroupRuns size g levels) {fs : List Filter} {input : List Item}
    (h : Takes (conjuncts size g input) fs rest) : Run size levels .conjuncts input fs rest := by
  rcases stops_or endsConjuncts input with hs | ⟨f, i, rfl⟩ | ⟨t, s, i, he, ht⟩
  · obtain ⟨rfl, rfl⟩ := (takes_conjuncts_stop hs).mp h
    exact .noConjunct
  · exact absurd h not_takes_conjuncts_error
  · rw [he] at h ⊢
    rcases Bool.or_eq_true_iff.mp ht with hand | hnot
    · obtain ⟨part, mid, parts, hp, hps, rfl⟩ := (takes_conjuncts_and hand).mp h
      have hlt : mid.length < input.length := he ▸ Nat.lt_succ_of_lt hp.shorter
      exact .conjunct hand (run_negated hg hp) (run_conjuncts hg hps)
    · obtain ⟨part, mid, parts, hp, hps, rfl⟩ := (takes_conjuncts_not hnot).mp h
      have hlt : mid.length < input.length := he ▸ Nat.lt_succ_of_lt hp.shorter
      exact .exception hnot (run_term hg hp) (run_conjuncts hg hps)
termination_by input.length
decreasing_by all_goals exact hlt

theorem run_conjunction (hg : GroupRuns size g levels) {f : Filter}
    (h : Takes (conjunction size g input) f rest) : Run size levels .conjunction input f rest := by
  obtain ⟨first, mid, parts, hf, hps, rfl⟩ := takes_conjunction_iff.mp h
  exact .conjunction (run_negated hg hf) (run_conjuncts hg hps)

theorem run_disjuncts (hg : GroupRuns size g levels) {fs : List Filter} {input : List Item}
    (h : Takes (disjuncts size g input) fs rest) : Run size levels .disjuncts input fs rest := by
  rcases stops_or (·.isKeyword .or) input with hs | ⟨f, i, rfl⟩ | ⟨t, s, i, he, hor⟩
  · obtain ⟨rfl, rfl⟩ := (takes_disjuncts_stop hs).mp h
    exact .noDisjunct
  · exact absurd h not_takes_disjuncts_error
  · rw [he] at h ⊢
    obtain ⟨part, mid, parts, hp, hps, rfl⟩ := (takes_disjuncts_or hor).mp h
    have hlt : mid.length < input.length := he ▸ Nat.lt_succ_of_lt hp.shorter
    exact .disjunct hor (run_conjunction hg hp) (run_disjuncts hg hps)
termination_by input.length
decreasing_by exact hlt

theorem run_disjunction (hg : GroupRuns size g levels) {f : Filter}
    (h : Takes (disjunction size g input) f rest) : Run size levels .disjunction input f rest := by
  obtain ⟨first, mid, parts, hf, hps, rfl⟩ := takes_disjunction_iff.mp h
  exact .disjunction (run_conjunction hg hf) (run_disjuncts hg hps)

/-- **What is read between parentheses is a run**: with every pair one level less may be opened. -/
theorem groupRuns_group (size limit levels : Nat) : GroupRuns size (group size limit levels) levels := by
  induction levels with
  | zero => exact fun _ _ _ _ h => absurd h not_takes_error
  | succ levels ih => exact fun _ _ _ _ h => ⟨levels, rfl, run_disjunction ih h⟩

/-- **What is read as a filter is a run.** -/
theorem run_of_takes {limit : Nat} {f : Filter}
    (h : Takes (disjunction size (group size limit limit) input) f rest) :
    Run size limit .disjunction input f rest :=
  run_disjunction (groupRuns_group size limit limit) h

end Readers

end ContextualQuery
