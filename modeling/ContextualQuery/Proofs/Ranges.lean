import ContextualQuery.Proofs.RelationSymbols
import ContextualQuery.Proofs.SortedRows
/-!
# Ranges of sorted rows

Values are compared by one routine where a filter asks for an order and by another where records are sorted, and
the two agree on every ordered domain but those of floating point numbers. So a filter by bounds takes a run out of
the rows in the order of the path.

* `Domain.IsOrderedExactly`: the domains of which this is said, and `Operand.ReadIn`: what terms come to there;
* `Operand.test_of_ordering`: a test for an order asks how the value is sorted, and `Comparator.accepts_below`,
  `Comparator.accepts_above`: what it therefore says of values that are sorted before or behind;
* `Store.filter_sorted`: rows may be left out before or after sorting;
* `Path.Bounds`, `Store.meets_upper`, `Store.meets_lower`: bounds on a path, and rows with one value at its end;
* `exists_block`: what two properties leave of a list, if the one lasts once it holds and the other once it fails;
* `ranges_in_sorted_rows` puts these together.
-/

namespace ContextualQuery

/-! ## 1. Two orders of values -/

/-- A domain of values that are ordered, and none of floating point numbers. -/
def Domain.IsOrderedExactly (d : Domain) : Prop := d ∈ [.text, .int32, .int64, .timestamp, .date]

/-- An operand that a term comes to in a domain, under some symbol and with case respected. -/
def Operand.ReadIn (o : Operand) (d : Domain) : Prop :=
  ∃ settings symbol modifiers term, ofTerm settings d symbol modifiers term = .ok o ∧
    (d = .text → respectsCase settings modifiers = true)

/-- **On these domains values can be compared, and are sorted as they are compared.** -/
theorem Value.compare?_eq_sortCompare {d : Domain} (hd : d.IsOrderedExactly) {a b : Value}
    (ha : d.admits a = true) (hb : d.admits b = true) : a.compare? b = some (a.sortCompare b) := by
  simp only [Domain.IsOrderedExactly, List.mem_cons, List.not_mem_nil, or_false] at hd
  rcases hd with rfl | rfl | rfl | rfl | rfl
  all_goals
    cases a <;> first | cases ha; done | skip
    cases b <;> first | cases hb; done | rfl

namespace Operand

variable {o : Operand} {d : Domain} {c : Comparator}

theorem ReadIn.admits (h : o.ReadIn d) : d.admits o.value = true := by
  obtain ⟨_, _, _, _, h, _⟩ := h
  exact (suits_ofTerm h).admits

theorem ReadIn.isCaseSensitive (h : o.ReadIn d) : o.isCaseSensitive = true := by
  obtain ⟨settings, symbol, modifiers, term, h, hcase⟩ := h
  rcases ofTerm_cases h with ⟨hd, _, _, rfl⟩ | ⟨hd, _, rfl⟩ | ⟨htext, _⟩
  · exact hcase hd
  · exact hcase hd
  · exact (suits_ofTerm h).sensitive htext

/-- A mask is not asked for an order; whatever the mode, the order is that of the whole texts. -/
theorem test_eq_order_of_ordering (hc : c.isOrdering = true) (o : Operand) (a : Value) :
    o.test c a = (o.order? a).any c.accepts := by
  unfold test
  split
  · next s t ht =>
    rw [order?_of_texts ht]
    cases c <;> first | cases hc; done | cases o.mode <;> rfl
  · rename_i a _ _ htexts
    rw [order?_of_not_texts htexts]
    split
    · cases hc
    · cases hc
    · cases a.compare? o.value <;> rfl

theorem order?_of_isCaseSensitive (h : o.isCaseSensitive = true) (a : Value) : o.order? a = a.compare? o.value := by
  unfold order?
  split
  · next s t ht =>
    rw [h, ht, folded, folded, if_pos rfl, if_pos rfl, String.ofList_toList, String.ofList_toList]
    rfl
  · rfl

/-- **A test for an order asks how a value is sorted beside the operand.** -/
theorem test_of_ordering (hd : d.IsOrderedExactly) (ho : o.ReadIn d) (hc : c.isOrdering = true) {a : Value}
    (ha : d.admits a = true) : o.test c a = c.accepts (a.sortCompare o.value) := by
  rw [test_eq_order_of_ordering hc, order?_of_isCaseSensitive ho.isCaseSensitive,
    Value.compare?_eq_sortCompare hd ha ho.admits, Option.any_some]

end Operand

namespace Comparator

/-- Whether a comparison bounds values from above. -/
def isUpper : Comparator → Bool
  | lt | le => true
  | _ => false

variable {c : Comparator} {a b t : Value}

/-- An upper bound of a value bounds what is sorted before it. -/
theorem accepts_below (hc : c.isUpper = true) (hab : a.sortCompare b ≠ .gt)
    (h : c.accepts (b.sortCompare t) = true) : c.accepts (a.sortCompare t) = true := by
  have hle := Ordering.isLE_iff_ne_gt.mpr hab
  cases c with
  | lt => exact beq_iff_eq.mpr (Std.TransCmp.lt_of_isLE_of_lt hle (beq_iff_eq.mp h))
  | le =>
    have hbt := Ordering.isLE_iff_ne_gt.mpr (bne_iff_ne.mp h)
    exact bne_iff_ne.mpr (Ordering.isLE_iff_ne_gt.mp (Std.TransCmp.isLE_trans hle hbt))
  | _ => cases hc

/-- A lower bound of a value bounds what is sorted behind it. -/
theorem accepts_above (hc : c.isOrdering = true) (hupper : c.isUpper = false) (hab : a.sortCompare b ≠ .gt)
    (h : c.accepts (a.sortCompare t) = true) : c.accepts (b.sortCompare t) = true := by
  have hle := Ordering.isLE_iff_ne_gt.mpr hab
  cases c with
  | gt =>
    have hta : t.sortCompare a = .lt := Std.OrientedCmp.lt_of_gt (beq_iff_eq.mp h)
    exact beq_iff_eq.mpr (Std.OrientedCmp.gt_of_lt (Std.TransCmp.lt_of_lt_of_isLE hta hle))
  | ge =>
    refine bne_iff_ne.mpr fun hbt => bne_iff_ne.mp h ?_
    exact Std.TransCmp.lt_of_isLE_of_lt hle hbt
  | lt => cases hupper
  | le => cases hupper
  | eq => cases hc
  | ne => cases hc

end Comparator

/-! ## 2. Rows that are left out -/

namespace Store

variable {s : Store} {keys : List SortKey}

theorem Ties.refl (s : Store) (keys : List SortKey) (a : Record) : s.Ties keys a a := fun _ _ => rfl

theorem ties_of_inOrder {a b : Record} (hab : s.InOrder keys a b) (hba : s.InOrder keys b a) :
    s.Ties keys a b := by
  rw [← compareRecords_ne_gt_iff] at hab hba
  rw [← compareRecords_eq_eq_iff]
  have hswap : s.compareRecords keys b a = (s.compareRecords keys a b).swap := Std.OrientedCmp.eq_swap
  rw [hswap] at hba
  revert hab hba
  cases s.compareRecords keys a b <;> simp

theorem filter_ties_cons_of_ties {row a : Record} {l : List Record} (h : s.Ties keys row a) :
    (a :: l).filter (s.Ties keys row ·) = a :: l.filter (s.Ties keys row ·) :=
  List.filter_cons_of_pos (decide_eq_true h)

theorem filter_ties_cons_of_not_ties {row a : Record} {l : List Record} (h : ¬ s.Ties keys row a) :
    (a :: l).filter (s.Ties keys row ·) = l.filter (s.Ties keys row ·) :=
  List.filter_cons_of_neg fun hd => h (of_decide_eq_true hd)

theorem mem_of_filter_ties_eq {l l' : List Record}
    (h : ∀ row, l.filter (s.Ties keys row ·) = l'.filter (s.Ties keys row ·)) {a : Record} (ha : a ∈ l) :
    a ∈ l' := by
  have hself : a ∈ l.filter (s.Ties keys a ·) := List.mem_filter.mpr ⟨ha, decide_eq_true (.refl s keys a)⟩
  rw [h] at hself
  exact (List.mem_filter.mp hself).1

/-- **Rows in order are the same if those that tie stand the same way.** -/
theorem eq_of_filter_ties_eq {l l' : List Record} (hl : l.Pairwise (s.InOrder keys))
    (hl' : l'.Pairwise (s.InOrder keys))
    (h : ∀ row, l.filter (s.Ties keys row ·) = l'.filter (s.Ties keys row ·)) : l = l' := by
  induction l generalizing l' with
  | nil =>
    cases l' with
    | nil => rfl
    | cons b l' => exact absurd (mem_of_filter_ties_eq (fun row => (h row).symm) List.mem_cons_self) List.not_mem_nil
  | cons a l ih =>
    cases l' with
    | nil => exact absurd (mem_of_filter_ties_eq h List.mem_cons_self) List.not_mem_nil
    | cons b l' =>
      obtain ⟨ha, hrest⟩ := List.pairwise_cons.mp hl
      obtain ⟨hb, hrest'⟩ := List.pairwise_cons.mp hl'
      have hfirst {a b : Record} {l : List Record} (ha : ∀ r ∈ l, s.InOrder keys a r) (hb : b ∈ a :: l) :
          s.InOrder keys a b := by
        rcases List.mem_cons.mp hb with rfl | hb
        · exact inOrder_of_ties (.refl s keys _)
        · exact ha b hb
      -- each of the two heads stands in the other list, so that they tie, and are the first of those that do
      have hab : s.InOrder keys a b := hfirst ha (mem_of_filter_ties_eq (fun row => (h row).symm) List.mem_cons_self)
      have hba : s.InOrder keys b a := hfirst hb (mem_of_filter_ties_eq h List.mem_cons_self)
      have htie := ties_of_inOrder hab hba
      have heads := h a
      rw [filter_ties_cons_of_ties (.refl s keys a), filter_ties_cons_of_ties htie] at heads
      obtain ⟨rfl, -⟩ := List.cons.inj heads
      refine congrArg (a :: ·) (ih hrest hrest' fun row => ?_)
      have hrow := h row
      by_cases hrowa : s.Ties keys row a
      · rw [filter_ties_cons_of_ties hrowa, filter_ties_cons_of_ties hrowa] at hrow
        exact (List.cons.inj hrow).2
      · rw [filter_ties_cons_of_not_ties hrowa, filter_ties_cons_of_not_ties hrowa] at hrow
        exact hrow

/-- **Rows may be left out before or after sorting.** -/
theorem filter_sorted (s : Store) (keys : List SortKey) (rs : List Record) (p : Record → Bool) :
    (s.sorted keys rs).filter p = s.sorted keys (rs.filter p) := by
  refine eq_of_filter_ties_eq ((s.pairwise_sorted keys rs).filter p) (s.pairwise_sorted keys _) fun row => ?_
  rw [List.filter_comm, filter_ties_sorted, List.filter_comm, filter_ties_sorted]

theorem satisfiesAll_compare (s : Store) (r : Record) (bounds : List Comparison) :
    s.satisfiesAll r (bounds.map .compare) = bounds.all (s.meets r ·) := by
  induction bounds with
  | nil => rfl
  | cons c bounds ih => rw [List.map_cons, satisfiesAll, satisfies, ih, List.all_cons]

/-- What more comparisons leave of the matching rows. -/
theorem matching_and (s : Store) (entity : String) (p : Predicate) (bounds : List Comparison)
    (keys : List SortKey) : s.matching entity (.and (p :: bounds.map .compare)) keys =
      (s.matching entity p keys).filter fun r => bounds.all (s.meets r ·) := by
  have hsatisfies (r : Record) : s.satisfies r (.and (p :: bounds.map .compare)) =
      (bounds.all (s.meets r ·) && s.satisfies r p) := by
    rw [Predicate.and, satisfies, satisfiesAll, satisfiesAll_compare, Bool.and_comm]
  rw [matching, matching, filter_sorted, List.filter_filter]
  simp only [hsatisfies]

/-! ## 3. Rows with one value -/

/-- A single value stands at the end of the path, and it belongs to the domain. -/
def reachesOne (s : Store) (p : Path) (r : Record) : Bool :=
  match s.values p.steps r with
  | [v] => p.domain.admits v
  | _ => false

theorem reachesOne_iff {p : Path} {r : Record} : s.reachesOne p r = true ↔
    ∃ v, s.values p.steps r = [v] ∧ p.domain.admits v = true := by
  unfold reachesOne
  split
  · next v hv => simp [hv]
  · next hv => simpa using fun v h => absurd h (hv v)

end Store

/-- A comparison bounds the values at the end of a path. -/
structure Path.Bounds (p : Path) (c : Comparison) : Prop where
  path : c.path = p
  ordering : c.comparator.isOrdering = true
  operand : c.operand.ReadIn p.domain

namespace Store

variable {s : Store} {p : Path} {c : Comparison} {a b : Record}

theorem meets_of_values {v : Value} (hd : p.domain.IsOrderedExactly) (hc : p.Bounds c)
    (hv : s.values p.steps a = [v]) (hadmits : p.domain.admits v = true) :
    s.meets a c = c.comparator.accepts (v.sortCompare c.operand.value) := by
  have hne : c.comparator ≠ .ne := fun h => absurd (h ▸ hc.ordering) nofun
  rw [meets, hc.path, hv, Operand.testAll_of_ne _ hne, List.any_cons, List.any_nil, Bool.or_false,
    Operand.test_of_ordering hd hc.operand hc.ordering hadmits]

/-- Rows that rise have values that do. -/
theorem rising_of_reachesOne (h : Rising (s.sortValue p a) (s.sortValue p b)) {v w : Value}
    (hv : s.values p.steps a = [v]) (hw : s.values p.steps b = [w]) : v.sortCompare w ≠ .gt := by
  rw [sortValue, sortValue, hv, hw] at h
  exact h

section

variable (hd : p.domain.IsOrderedExactly) (hc : p.Bounds c) (ha : s.reachesOne p a = true)
  (hb : s.reachesOne p b = true) (hab : Rising (s.sortValue p a) (s.sortValue p b))
include hd hc ha hb hab

/-- A row that meets an upper bound has only such before it. -/
theorem meets_upper (hupper : c.comparator.isUpper = true) (h : s.meets b c = true) : s.meets a c = true := by
  obtain ⟨v, hv, hva⟩ := reachesOne_iff.mp ha
  obtain ⟨w, hw, hwa⟩ := reachesOne_iff.mp hb
  rw [meets_of_values hd hc hw hwa] at h
  rw [meets_of_values hd hc hv hva]
  exact Comparator.accepts_below hupper (rising_of_reachesOne hab hv hw) h

/-- A row that meets a lower bound has only such behind it. -/
theorem meets_lower (hupper : c.comparator.isUpper = false) (h : s.meets a c = true) : s.meets b c = true := by
  obtain ⟨v, hv, hva⟩ := reachesOne_iff.mp ha
  obtain ⟨w, hw, hwa⟩ := reachesOne_iff.mp hb
  rw [meets_of_values hd hc hv hva] at h
  rw [meets_of_values hd hc hw hwa]
  exact Comparator.accepts_above hc.ordering hupper (rising_of_reachesOne hab hv hw) h

end

end Store

/-! ## 4. Runs of rows -/

/-- What has one property that lasts once it holds, and another that is gone for good once it fails, stands
together. -/
theorem exists_block {α : Type} {p q : α → Bool} {l : List α}
    (hp : l.Pairwise fun a b => p a = true → p b = true)
    (hq : l.Pairwise fun a b => q b = true → q a = true) :
    ∃ before after, l = before ++ l.filter (fun a => p a && q a) ++ after ∧
      ∀ a ∈ before ++ after, (p a && q a) = false := by
  have hfirst : l = l.filter (!p ·) ++ l.filter p := by
    have hsplit := Store.eq_filter_append (p := (!p ·)) (hp.imp fun {a b} h (hb : (!p b) = true) => by
      rw [Bool.not_eq_true'] at hb ⊢
      exact eq_false_of_ne_true fun ha => absurd (h ha) (ne_true_of_eq_false hb))
    simpa only [Bool.not_not] using hsplit
  have hsecond := Store.eq_filter_append (hq.filter p)
  refine ⟨l.filter (!p ·), (l.filter p).filter (!q ·), ?_, fun a ha => ?_⟩
  · have hboth : l.filter (fun a => p a && q a) = (l.filter p).filter q := by
      rw [List.filter_filter]
      exact List.filter_congr fun a _ => Bool.and_comm _ _
    rw [hboth, List.append_assoc, ← hsecond, ← hfirst]
  · rcases List.mem_append.mp ha with ha | ha
    · have hpa := (List.mem_filter.mp ha).2
      rw [Bool.not_eq_true'] at hpa
      rw [hpa, Bool.false_and]
    · have hqa := (List.mem_filter.mp ha).2
      rw [Bool.not_eq_true'] at hqa
      rw [hqa, Bool.and_false]

namespace Store

variable {s : Store} {k : SortKey} {later : List SortKey} {rows : List Record} {bounds : List Comparison}

/-- All bounds are met if the lower ones and the upper ones are. -/
theorem all_meets_eq (s : Store) (bounds : List Comparison) (r : Record) : bounds.all (s.meets r ·) =
    ((bounds.filter (!·.comparator.isUpper)).all (s.meets r ·) &&
      (bounds.filter (·.comparator.isUpper)).all (s.meets r ·)) := by
  rw [Bool.eq_iff_iff, Bool.and_eq_true]
  simp only [List.all_eq_true, List.mem_filter, Bool.not_eq_true']
  refine ⟨fun h => ⟨fun c hc => h c hc.1, fun c hc => h c hc.1⟩, fun h c hc => ?_⟩
  cases hup : c.comparator.isUpper with
  | true => exact h.2 c ⟨hc, hup⟩
  | false => exact h.1 c ⟨hc, hup⟩

/-- **Rows within bounds stand together in the order of the path.** -/
theorem exists_run (hd : k.path.domain.IsOrderedExactly) (hbounds : ∀ c ∈ bounds, k.path.Bounds c)
    (hrows : rows.Pairwise (s.InOrder (k :: later))) (hone : ∀ r ∈ rows, s.reachesOne k.path r = true) :
    ∃ before after, rows = before ++ rows.filter (fun r => bounds.all (s.meets r ·)) ++ after ∧
      ∀ r ∈ before ++ after, bounds.all (s.meets r ·) = false := by
  have hupper {a b : Record} (ha : a ∈ rows) (hb : b ∈ rows) (hab : Rising (s.sortValue k.path a)
      (s.sortValue k.path b)) (h : (bounds.filter (·.comparator.isUpper)).all (s.meets b ·) = true) :
      (bounds.filter (·.comparator.isUpper)).all (s.meets a ·) = true := by
    rw [List.all_eq_true] at h ⊢
    intro c hc
    obtain ⟨hmem, hup⟩ := List.mem_filter.mp hc
    exact meets_upper hd (hbounds c hmem) (hone a ha) (hone b hb) hab hup (h c hc)
  have hlower {a b : Record} (ha : a ∈ rows) (hb : b ∈ rows) (hab : Rising (s.sortValue k.path a)
      (s.sortValue k.path b)) (h : (bounds.filter (!·.comparator.isUpper)).all (s.meets a ·) = true) :
      (bounds.filter (!·.comparator.isUpper)).all (s.meets b ·) = true := by
    rw [List.all_eq_true] at h ⊢
    intro c hc
    obtain ⟨hmem, hup⟩ := List.mem_filter.mp hc
    rw [Bool.not_eq_true'] at hup
    exact meets_lower hd (hbounds c hmem) (hone a ha) (hone b hb) hab hup (h c hc)
  have hadmits : rows.Pairwise fun a b => a ∈ rows ∧ b ∈ rows ∧
      k.direction.Admits (s.sortValue k.path a) (s.sortValue k.path b) :=
    hrows.imp_of_mem fun ha hb h => ⟨ha, hb, h [] k later rfl nofun⟩
  -- rows that descend meet first the lower bounds no more, rows that rise the upper ones
  cases hk : k.direction with
  | ascending =>
    simp only [s.all_meets_eq bounds]
    rw [hk] at hadmits
    exact exists_block (hadmits.imp fun h => hlower h.1 h.2.1 h.2.2) (hadmits.imp fun h => hupper h.1 h.2.1 h.2.2)
  | descending =>
    simp only [s.all_meets_eq bounds, Bool.and_comm ((bounds.filter (!·.comparator.isUpper)).all _)]
    rw [hk] at hadmits
    exact exists_block (hadmits.imp fun h => hupper h.2.1 h.1 h.2.2) (hadmits.imp fun h => hlower h.2.1 h.1 h.2.2)

end Store

/-- **Filters and sorting agree on the order of values.** In a domain of ordered values that are no floating point
numbers, what is sorted before a value meets its upper bounds, and what is sorted behind it its lower bounds. So,
among the rows that reach exactly one value, those within any bounds on a path are one run of the rows in the order
of that path, whatever the direction and the keys behind it: the run is the answer with these bounds, and the rows
before and behind it each miss one. -/
theorem ranges_in_sorted_rows {d : Domain} (hd : d.IsOrderedExactly) :
    (∀ o : Operand, o.ReadIn d → ∀ a b, d.admits a = true → d.admits b = true →
      Value.sortCompare? (some a) (some b) ≠ .gt →
        (o.test .le b = true → o.test .le a = true) ∧ (o.test .lt b = true → o.test .lt a = true) ∧
        (o.test .ge a = true → o.test .ge b = true) ∧ (o.test .gt a = true → o.test .gt b = true)) ∧
    ∀ (s : Store) (entity : String) (p : Predicate) (k : SortKey) (later : List SortKey)
      (bounds : List Comparison), k.path.domain = d → (∀ c ∈ bounds, k.path.Bounds c) →
      ∃ before after,
        (s.matching entity p (k :: later)).filter (s.reachesOne k.path) =
          before ++ (s.matching entity (.and (p :: bounds.map .compare)) (k :: later)).filter
            (s.reachesOne k.path) ++ after ∧
        ∀ r ∈ before ++ after, ∃ c ∈ bounds, s.meets r c = false := by
  constructor
  · intro o ho a b ha hb hab
    have htest (c : Comparator) (hc : c.isOrdering = true) {v : Value} (hv : d.admits v = true) :=
      Operand.test_of_ordering hd ho hc hv
    rw [htest .le rfl ha, htest .le rfl hb, htest .lt rfl ha, htest .lt rfl hb, htest .ge rfl ha,
      htest .ge rfl hb, htest .gt rfl ha, htest .gt rfl hb]
    exact ⟨Comparator.accepts_below rfl hab, Comparator.accepts_below rfl hab,
      Comparator.accepts_above rfl rfl hab, Comparator.accepts_above rfl rfl hab⟩
  · rintro s entity p k later bounds rfl hbounds
    have hrows := (s.pairwise_sorted (k :: later) ((s.rows entity).filter (s.satisfies · p))).filter
      (s.reachesOne k.path)
    obtain ⟨before, after, hsplit, hmiss⟩ := Store.exists_run hd hbounds hrows fun r hr => (List.mem_filter.mp hr).2
    refine ⟨before, after, ?_, fun r hr => ?_⟩
    · rw [s.matching_and, List.filter_comm]
      exact hsplit
    · simpa [Bool.not_eq_true] using List.all_eq_false.mp (hmiss r hr)

/-! ### Persons by their ages -/

/-- The ages of persons. -/
def age : Path := ⟨"Person", [⟨"Person", "age", .value false⟩], .int64, false, false, true⟩

/-- Persons of several ages, two of them of one. -/
def fivePersons : Store :=
  Store.empty.extend "Person" ([40, 12, -5, 3, 12].map fun n => [("age", .scalar (.int64 n))])

/-- From three years to less than forty. -/
def threeToForty : List Comparison :=
  [⟨age, .ge, .exact (.int64 3)⟩, ⟨age, .lt, .exact (.int64 40)⟩]

/-- The oldest come first; those from three to less than forty years stand together behind the oldest one and
before the youngest. -/
theorem ages_in_range :
    Domain.int64.IsOrderedExactly ∧ (∀ c ∈ threeToForty, age.Bounds c) ∧
      (∀ r ∈ fivePersons.rows "Person", fivePersons.reachesOne age r = true) ∧
      ∃ before after,
        (fivePersons.matching "Person" .matchAll [⟨age, .descending⟩]).filter (fivePersons.reachesOne age) =
          before ++ (fivePersons.matching "Person" (.and (.matchAll :: threeToForty.map .compare))
            [⟨age, .descending⟩]).filter (fivePersons.reachesOne age) ++ after ∧
        ∀ r ∈ before ++ after, ∃ c ∈ threeToForty, fivePersons.meets r c = false := by
  have hdomain : Domain.int64.IsOrderedExactly := by simp [Domain.IsOrderedExactly]
  have hthree : (Operand.exact (.int64 3)).ReadIn .int64 := ⟨{}, .atLeast, .empty, "3", by decide +kernel, nofun⟩
  have hforty : (Operand.exact (.int64 40)).ReadIn .int64 := ⟨{}, .less, .empty, " 40", by decide +kernel, nofun⟩
  have hbounds : ∀ c ∈ threeToForty, age.Bounds c :=
    List.forall_mem_cons.mpr ⟨⟨rfl, rfl, hthree⟩, List.forall_mem_singleton.mpr ⟨rfl, rfl, hforty⟩⟩
  obtain ⟨_, hblock⟩ := ranges_in_sorted_rows hdomain
  exact ⟨hdomain, hbounds, by decide,
    hblock fivePersons "Person" .matchAll ⟨age, .descending⟩ [] threeToForty rfl hbounds⟩

end ContextualQuery
