import ContextualQuery.Proofs.Paging
import ContextualQuery.Proofs.SortOrder
/-!
# The rows of an answer

A store answers with a window over one list of rows, which no window changes.

* `Rising`, `Direction.Admits`: which of two values may stand before the other under a key, with values missing;
* `Store.InOrder`: the order by several keys, a later key only where the earlier ones tie; it is what comparing
  records decides, `Store.compareRecords_ne_gt_iff`;
* `Store.filter_ties_sorted`: sorting keeps the order of rows that tie;
* `Store.filter_missing_append`, `Store.filter_present_append`: rows without a value stand together, at the one end
  or at the other;
* `answers_from_sorted_rows` puts these together for every store, predicate and list of keys.
-/

namespace ContextualQuery

/-! ## 1. The order under one key -/

/-- Two values rise: a missing one stands before all others. -/
def Rising : Option Value → Option Value → Prop
  | none, _ => True
  | some _, none => False
  | some x, some y => x.sortCompare y ≠ .gt

/-- The one value may stand before the other. -/
def Direction.Admits : Direction → Option Value → Option Value → Prop
  | .ascending, x, y => Rising x y
  | .descending, x, y => Rising y x

theorem rising_iff {x y : Option Value} : Rising x y ↔ Value.sortCompare? x y ≠ .gt := by
  cases x with
  | none => cases y <;> exact iff_of_true trivial nofun
  | some x =>
    cases y with
    | none => exact iff_of_false id fun h => h rfl
    | some y => exact Iff.rfl

namespace Store

variable {s : Store} {keys : List SortKey} {a b c : Record}

theorem compareBy_ne_gt_iff {k : SortKey} : s.compareBy k a b ≠ .gt ↔
    k.direction.Admits (s.sortValue k.path a) (s.sortValue k.path b) := by
  unfold compareBy
  cases k.direction with
  | ascending => exact rising_iff.symm
  | descending =>
    refine Iff.trans (not_congr ?_) rising_iff.symm
    show (Value.sortCompare? _ _).swap = .gt ↔ _
    rw [← Std.OrientedCmp.eq_swap]

/-! ## 2. The order under several keys -/

/-- One record may stand before another: under every key that comes behind keys under which they tie. -/
def InOrder (s : Store) (keys : List SortKey) (a b : Record) : Prop :=
  ∀ earlier k later, keys = earlier ++ k :: later → s.Ties earlier a b →
    k.direction.Admits (s.sortValue k.path a) (s.sortValue k.path b)

theorem ties_cons {k : SortKey} {rest : List SortKey} : s.Ties (k :: rest) a b ↔
    (s.sortValue k.path a).map Value.rank = (s.sortValue k.path b).map Value.rank ∧ s.Ties rest a b :=
  List.forall_mem_cons

theorem Ties.symm (h : s.Ties keys a b) : s.Ties keys b a := fun k hk => (h k hk).symm

theorem Ties.trans (hab : s.Ties keys a b) (hbc : s.Ties keys b c) : s.Ties keys a c :=
  fun k hk => (hab k hk).trans (hbc k hk)

instance (s : Store) (keys : List SortKey) (a b : Record) : Decidable (s.Ties keys a b) :=
  inferInstanceAs (Decidable (∀ k ∈ keys, _ = _))

/-- The first key counts, and where it ties the keys behind it. -/
theorem inOrder_cons {k : SortKey} {rest : List SortKey} : s.InOrder (k :: rest) a b ↔
    s.compareBy k a b ≠ .gt ∧ (s.compareBy k a b = .eq → s.InOrder rest a b) := by
  rw [compareBy_ne_gt_iff, compareBy_eq_eq_iff]
  constructor
  · intro h
    refine ⟨h [] k rest rfl nofun, fun htie earlier k' later heq hties => ?_⟩
    exact h (k :: earlier) k' later (congrArg (k :: ·) heq) (ties_cons.mpr ⟨htie, hties⟩)
  · rintro ⟨hfirst, hrest⟩ earlier k' later heq hties
    cases earlier with
    | nil =>
      obtain ⟨rfl, _⟩ := List.cons.inj heq
      exact hfirst
    | cons k'' earlier =>
      obtain ⟨rfl, htail⟩ := List.cons.inj heq
      obtain ⟨htie, hties⟩ := ties_cons.mp hties
      exact hrest htie earlier k' later htail hties

theorem then_ne_gt_iff {o p : Ordering} : o.then p ≠ .gt ↔ o ≠ .gt ∧ (o = .eq → p ≠ .gt) := by
  cases o <;> cases p <;> decide

/-- **Comparing records by keys decides their order.** -/
theorem compareRecords_ne_gt_iff : s.compareRecords keys a b ≠ .gt ↔ s.InOrder keys a b := by
  induction keys with
  | nil =>
    refine iff_of_true (by rw [compareRecords]; decide) fun earlier k later h _ => ?_
    exact absurd h.symm (List.append_ne_nil_of_right_ne_nil earlier (List.cons_ne_nil k later))
  | cons k rest ih => rw [inOrder_cons, compareRecords, then_ne_gt_iff, ih]

theorem inOrder_of_ties (h : s.Ties keys a b) : s.InOrder keys a b := by
  rw [← compareRecords_ne_gt_iff, compareRecords_eq_eq_iff.mpr h]
  nofun

/-! ## 3. Sorting -/

variable {rs : List Record}

theorem sorted_perm (s : Store) (keys : List SortKey) (rs : List Record) : (s.sorted keys rs).Perm rs :=
  List.mergeSort_perm _ _

/-- The test by which records are sorted. -/
theorem bne_gt_iff : (s.compareRecords keys a b != .gt) = true ↔ (s.compareRecords keys a b).isLE = true := by
  rw [bne_iff_ne, Ordering.isLE_iff_ne_gt]

theorem bne_gt_trans (a b c : Record) (hab : (s.compareRecords keys a b != .gt) = true)
    (hbc : (s.compareRecords keys b c != .gt) = true) : (s.compareRecords keys a c != .gt) = true :=
  bne_gt_iff.mpr (Std.TransCmp.isLE_trans (bne_gt_iff.mp hab) (bne_gt_iff.mp hbc))

theorem bne_gt_total (a b : Record) :
    ((s.compareRecords keys a b != .gt) || (s.compareRecords keys b a != .gt)) = true := by
  have hswap : s.compareRecords keys b a = (s.compareRecords keys a b).swap := Std.OrientedCmp.eq_swap
  rw [hswap]
  cases s.compareRecords keys a b <;> rfl

theorem pairwise_sorted (s : Store) (keys : List SortKey) (rs : List Record) :
    (s.sorted keys rs).Pairwise (s.InOrder keys) := by
  refine (List.pairwise_mergeSort bne_gt_trans bne_gt_total rs).imp fun h => ?_
  exact compareRecords_ne_gt_iff.mp (bne_iff_ne.mp h)

/-- **Sorting keeps the order of records that tie.** -/
theorem filter_ties_sorted (s : Store) (keys : List SortKey) (rs : List Record) (row : Record) :
    (s.sorted keys rs).filter (s.Ties keys row ·) = rs.filter (s.Ties keys row ·) := by
  -- the records that tie with a row are in order as they stand, so that sorting leaves them so
  have hordered : (rs.filter (s.Ties keys row ·)).Pairwise fun a b =>
      (s.compareRecords keys a b != .gt) = true := by
    refine List.pairwise_filter.mpr (List.pairwise_of_forall fun a b ha hb => ?_)
    have hties : s.Ties keys a b := (of_decide_eq_true ha).symm.trans (of_decide_eq_true hb)
    exact bne_iff_ne.mpr (compareRecords_ne_gt_iff.mpr (inOrder_of_ties hties))
  have hsublist : (rs.filter (s.Ties keys row ·)).Sublist (s.sorted keys rs) :=
    List.sublist_mergeSort bne_gt_trans bne_gt_total hordered List.filter_sublist
  have hfilter := hsublist.filter (s.Ties keys row ·)
  simp only [List.filter_filter, Bool.and_self] at hfilter
  exact (hfilter.eq_of_length ((s.sorted_perm keys rs).filter _).length_eq.symm).symm

/-! ## 4. Missing values -/

/-- The record has no value under a key. -/
def lacks (s : Store) (k : SortKey) (r : Record) : Bool := (s.sortValue k.path r).isNone

/-- A list in which nothing with a property stands behind something without it. -/
theorem eq_filter_append {α : Type} {p : α → Bool} {l : List α}
    (h : l.Pairwise fun a b => p b = true → p a = true) : l = l.filter p ++ l.filter (!p ·) := by
  induction l with
  | nil => rfl
  | cons a l ih =>
    obtain ⟨ha, hl⟩ := List.pairwise_cons.mp h
    by_cases hp : p a = true
    · rw [List.filter_cons_of_pos hp, List.filter_cons_of_neg (by simp [hp]), List.cons_append, ← ih hl]
    · have hnone : ∀ b ∈ l, ¬ p b = true := fun b hb hpb => hp (ha b hb hpb)
      have hall : ∀ b ∈ l, (!p b) = true := fun b hb => by simp [hnone b hb]
      rw [List.filter_cons_of_neg hp, List.filter_cons_of_pos (by simp [hp]),
        List.filter_eq_nil_iff.mpr hnone, List.filter_eq_self.mpr hall, List.nil_append]

/-- Records in order that tie under the earlier keys are in order under the next one. -/
theorem pairwise_admits {earlier later : List SortKey} {k : SortKey} {rows : List Record}
    (hrows : rows.Pairwise (s.InOrder (earlier ++ k :: later))) (row : Record) :
    (rows.filter (s.Ties earlier row ·)).Pairwise fun a b =>
      k.direction.Admits (s.sortValue k.path a) (s.sortValue k.path b) := by
  refine List.pairwise_filter.mpr (hrows.imp fun h ha hb => ?_)
  exact h earlier k later rfl ((of_decide_eq_true ha).symm.trans (of_decide_eq_true hb))

theorem lacks_of_rising {k : SortKey} (h : Rising (s.sortValue k.path a) (s.sortValue k.path b))
    (hb : s.lacks k b = true) : s.lacks k a = true := by
  rw [lacks, Option.isNone_iff_eq_none] at hb ⊢
  rw [hb] at h
  cases ha : s.sortValue k.path a with
  | none => rfl
  | some x =>
    rw [ha] at h
    exact h.elim

section

variable {earlier later : List SortKey} {k : SortKey} {rows : List Record}

/-- Under an ascending key the records without a value come first. -/
theorem filter_missing_append (hk : k.direction = .ascending)
    (hrows : rows.Pairwise (s.InOrder (earlier ++ k :: later))) (row : Record) :
    rows.filter (s.Ties earlier row ·) =
      (rows.filter (s.Ties earlier row ·)).filter (s.lacks k) ++
      (rows.filter (s.Ties earlier row ·)).filter (!s.lacks k ·) := by
  refine eq_filter_append ((pairwise_admits hrows row).imp fun h hb => ?_)
  rw [hk] at h
  exact lacks_of_rising h hb

/-- Under a descending key they come last. -/
theorem filter_present_append (hk : k.direction = .descending)
    (hrows : rows.Pairwise (s.InOrder (earlier ++ k :: later))) (row : Record) :
    rows.filter (s.Ties earlier row ·) =
      (rows.filter (s.Ties earlier row ·)).filter (!s.lacks k ·) ++
      (rows.filter (s.Ties earlier row ·)).filter (s.lacks k) := by
  have hsplit := eq_filter_append (p := (!s.lacks k ·))
    ((pairwise_admits hrows row).imp fun {a b} h (hb : (!s.lacks k b) = true) => by
      rw [hk] at h
      rw [Bool.not_eq_true'] at hb ⊢
      exact Bool.eq_false_iff.mpr fun ha => Bool.eq_false_iff.mp hb (lacks_of_rising h ha))
  simp only [Bool.not_not] at hsplit
  exact hsplit

end

end Store

/-! ## 5. Answers -/

/-- **A store answers with the matching rows in order.** All answers to one request are windows over one list,
which has every row of the entity of which the predicate holds as often as the store has it, as long as the count
tells. The list is in the order of the keys, each in its direction, and rows that tie under all of them stand as
they came into the store; among rows that tie under the keys before it, those without a value come first under an
ascending key and last under a descending one. -/
theorem answers_from_sorted_rows (s : Store) (entity : String) (p : Predicate) (keys : List SortKey) :
    ∃ rows : List Record,
      (∀ w : Window, s.gateway.execute entity p keys w = .ok ((rows.drop w.offset).take w.limit)) ∧
      s.gateway.count entity p = .ok rows.length ∧
      rows.Perm ((s.rows entity).filter (s.satisfies · p)) ∧
      rows.Pairwise (s.InOrder keys) ∧
      (∀ row, rows.filter (s.Ties keys row ·) =
        ((s.rows entity).filter (s.satisfies · p)).filter (s.Ties keys row ·)) ∧
      (∀ other new, (s.extend other new).rows entity =
        if other = entity then s.rows entity ++ new else s.rows entity) ∧
      ∀ earlier k later row, keys = earlier ++ k :: later →
        (k.direction = .ascending → rows.filter (s.Ties earlier row ·) =
          (rows.filter (s.Ties earlier row ·)).filter (s.lacks k) ++
          (rows.filter (s.Ties earlier row ·)).filter (!s.lacks k ·)) ∧
        (k.direction = .descending → rows.filter (s.Ties earlier row ·) =
          (rows.filter (s.Ties earlier row ·)).filter (!s.lacks k ·) ++
          (rows.filter (s.Ties earlier row ·)).filter (s.lacks k)) := by
  have hordered := s.pairwise_sorted keys ((s.rows entity).filter (s.satisfies · p))
  refine ⟨s.matching entity p keys, fun w => rfl, ?_, s.sorted_perm keys _, hordered,
    s.filter_ties_sorted keys _, ?_, ?_⟩
  · exact congrArg Except.ok (s.count_eq_length entity p keys)
  · intro other new
    rw [Store.rows_extend]
    split
    · next h => rw [h]
    · rfl
  · intro earlier k later row hkeys
    subst hkeys
    exact ⟨fun hk => Store.filter_missing_append hk hordered row,
      fun hk => Store.filter_present_append hk hordered row⟩

end ContextualQuery
