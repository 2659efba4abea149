import ContextualQuery.Store.Sorting
/-!
# The order of sorting is an order

Values of different kinds are compared by different rules: numbers by their value whatever their width,
floating point numbers by their patterns, texts by their characters, and what no rule compares by the names of
the kinds. The rules fit together because every value has a rank, and it is the ranks that are compared.

* `Value.typeNames`, `Value.place`, `Value.family`: the names of kinds in their order. Numbers of both widths are
  of one family, and no other name stands between theirs, `compare_typeName_of_family_ne`;
* `Value.number`, `Value.letters`: what values of one family are compared by;
* `Value.rank`, `Value.sortCompare_eq`: values are sorted by their ranks, so that their order is transitive;
* `Store.transCmp_compareBy` and, by induction on the keys, `Store.transCmp_compareRecords`: so is the order of
  records, with values missing and in either direction;
* `Store.Ties`, `Store.compareRecords_eq_eq_iff`: records are equal in it if no key tells them apart;
* `compareRecords_preorder` says what this comes to.
-/

namespace ContextualQuery

/-! ## 1. Families -/

theorem compare_natCast (m n : Nat) : compare (m : Int) n = compare m n := by
  rcases Nat.lt_trichotomy m n with h | rfl | h
  · rw [Nat.compare_eq_lt.mpr h, Int.compare_eq_lt.mpr (Int.ofNat_lt.mpr h)]
  · rw [Nat.compare_eq_eq.mpr rfl, Int.compare_eq_eq.mpr rfl]
  · rw [Nat.compare_eq_gt.mpr h, Int.compare_eq_gt.mpr (Int.ofNat_lt.mpr h)]

namespace Value

/-- The names of the kinds of values, in their order. -/
def typeNames : List String :=
  ["bool", "date", "enum", "float32", "float64", "int32", "int64", "null", "string", "timestamp", "uuid"]

theorem typeNames_increasing : typeNames.Pairwise (· < ·) := by decide

/-- Where the name of the kind stands among them. -/
def place : Value → Nat
  | bool _ => 0
  | date _ => 1
  | member _ => 2
  | float32 _ => 3
  | float64 _ => 4
  | int32 _ => 5
  | int64 _ => 6
  | null => 7
  | text _ => 8
  | timestamp _ => 9
  | uuid _ => 10

/-- Where the name of the family stands: numbers of both widths are of one family. -/
def family (v : Value) : Nat := if v.place = 4 then 3 else if v.place = 6 then 5 else v.place

theorem typeNames_place (v : Value) : typeNames[v.place]? = some v.typeName := by
  cases v <;> rfl

theorem compare_typeName_of_lt {a b : Value} (h : a.place < b.place) :
    compare a.typeName b.typeName = .lt := by
  obtain ⟨ha, hatype⟩ := List.getElem?_eq_some_iff.mp (typeNames_place a)
  obtain ⟨hb, hbtype⟩ := List.getElem?_eq_some_iff.mp (typeNames_place b)
  have hlt : a.typeName < b.typeName := by
    rw [← hatype, ← hbtype]
    exact List.pairwise_iff_getElem.mp typeNames_increasing _ _ ha hb h
  exact if_pos hlt

theorem family_le_of_lt {a b : Value} (h : a.place < b.place) : a.family ≤ b.family := by
  unfold family
  repeat' split
  all_goals omega

/-- The kinds of different families stand in the order of the families. -/
theorem compare_typeName_of_family_ne {a b : Value} (h : a.family ≠ b.family) :
    compare a.typeName b.typeName = compare a.family b.family := by
  rcases Nat.lt_trichotomy a.place b.place with hlt | heq | hgt
  · have hfamily : a.family < b.family := Nat.lt_of_le_of_ne (family_le_of_lt hlt) h
    rw [compare_typeName_of_lt hlt, Nat.compare_eq_lt.mpr hfamily]
  · refine absurd ?_ h
    unfold family
    rw [heq]
  · have hfamily : b.family < a.family := Nat.lt_of_le_of_ne (family_le_of_lt hgt) h.symm
    rw [Std.OrientedCmp.gt_of_lt (compare_typeName_of_lt hgt), Nat.compare_eq_gt.mpr hfamily]

/-! ## 2. Ranks -/

/-- What values are compared by in a family without letters. -/
def number : Value → Int
  | bool b => if b then 1 else 0
  | int32 n => n.toInt
  | int64 n => n.toInt
  | float32 x => x.toDouble.totalRank
  | float64 x => x.totalRank
  | timestamp t => t.toInt
  | date d => d.toInt
  | uuid u => u.rank
  | null | text _ | member _ => 0

/-- What values are compared by in a family with letters. -/
def letters : Value → String
  | text s | member s => s
  | _ => ""

/-- The rank of a value. -/
def rank (v : Value) : Nat × Int × String := (v.family, v.number, v.letters)

/-- The order of ranks: the family first, then what its values are compared by. -/
def rankCompare : Value → Value → Ordering :=
  compareLex (compareOn family) (compareLex (compareOn number) (compareOn letters))

theorem sortCompare_of_family_ne {a b : Value} (h : a.family ≠ b.family) :
    a.sortCompare b = compare a.typeName b.typeName := by
  cases a <;> cases b <;> first | rfl | exact absurd rfl h

theorem sortCompare_of_family_eq {a b : Value} (h : a.family = b.family) :
    a.sortCompare b = (compare a.number b.number).then (compare a.letters b.letters) := by
  -- kinds of different families contradict the hypothesis; without letters the second comparison is of nothing
  cases a <;> cases b <;> first | cases h; done | rfl | exact Ordering.then_eq.symm | skip
  case bool.bool p q => cases p <;> cases q <;> rfl
  case uuid.uuid u w => exact (compare_natCast u.rank w.rank).symm.trans Ordering.then_eq.symm

/-- **Values are sorted by their ranks.** -/
theorem sortCompare_eq : sortCompare = rankCompare := by
  funext a b
  show a.sortCompare b = (compare a.family b.family).then
    ((compare a.number b.number).then (compare a.letters b.letters))
  by_cases h : a.family = b.family
  · rw [sortCompare_of_family_eq h, Nat.compare_eq_eq.mpr h]
    rfl
  · rw [sortCompare_of_family_ne h, compare_typeName_of_family_ne h]
    cases hc : compare a.family b.family with
    | lt => rfl
    | eq => exact absurd (Nat.compare_eq_eq.mp hc) h
    | gt => rfl

/-- Values are equal in the order exactly if they have one rank. -/
theorem sortCompare_eq_eq_iff {a b : Value} : a.sortCompare b = .eq ↔ a.rank = b.rank := by
  rw [sortCompare_eq]
  show (compare a.family b.family).then
    ((compare a.number b.number).then (compare a.letters b.letters)) = .eq ↔ _
  rw [Ordering.then_eq_eq, Ordering.then_eq_eq, Std.compare_eq_iff_eq, Std.compare_eq_iff_eq,
    Std.compare_eq_iff_eq, rank, rank, Prod.mk.injEq, Prod.mk.injEq]

instance : Std.TransCmp sortCompare := by
  rw [sortCompare_eq]
  unfold rankCompare
  infer_instance

theorem sortCompare?_eq_eq_iff {a b : Option Value} :
    sortCompare? a b = .eq ↔ a.map rank = b.map rank := by
  cases a with
  | none =>
    cases b with
    | none => exact iff_of_true rfl rfl
    | some y => exact iff_of_false nofun nofun
  | some x =>
    cases b with
    | none => exact iff_of_false nofun nofun
    | some y =>
      rw [Option.map_some, Option.map_some, Option.some.injEq]
      exact sortCompare_eq_eq_iff

/-- A missing value comes before all others. -/
instance : Std.TransCmp sortCompare? := by
  let _ : Ord Value := ⟨sortCompare⟩
  have horder : Std.TransOrd Value := inferInstanceAs (Std.TransCmp sortCompare)
  have heq : sortCompare? = compare := by
    funext a b
    cases a <;> cases b <;> rfl
  rw [heq]
  infer_instance

end Value

/-! ## 3. The order of records -/

namespace Store

/-- The order of records by one key, in either direction. -/
instance transCmp_compareBy (s : Store) (k : SortKey) : Std.TransCmp (s.compareBy k) := by
  let _ : Ord (Option Value) := ⟨Value.sortCompare?⟩
  have horder : Std.TransOrd (Option Value) := inferInstanceAs (Std.TransCmp Value.sortCompare?)
  have hby : Std.TransCmp (compareOn (s.sortValue k.path)) := inferInstance
  cases hk : k.direction with
  | ascending =>
    have heq : s.compareBy k = compareOn (s.sortValue k.path) := by
      funext a b
      unfold compareBy
      rw [hk]
      rfl
    rw [heq]
    exact hby
  | descending =>
    have heq : s.compareBy k = fun a b => compareOn (s.sortValue k.path) b a := by
      funext a b
      have hswap : compareOn (s.sortValue k.path) b a = (compareOn (s.sortValue k.path) a b).swap :=
        Std.OrientedCmp.eq_swap
      rw [hswap]
      unfold compareBy
      rw [hk]
      rfl
    rw [heq]
    exact Std.TransCmp.opposite

/-- **The order of records by several keys is transitive, and can be turned round.** -/
instance transCmp_compareRecords (s : Store) (keys : List SortKey) :
    Std.TransCmp (s.compareRecords keys) := by
  induction keys with
  | nil => exact { eq_swap := rfl, isLE_trans := fun _ _ => rfl }
  | cons k rest ih =>
    have hlex : s.compareRecords (k :: rest) = compareLex (s.compareBy k) (s.compareRecords rest) := rfl
    rw [hlex]
    infer_instance

/-- The records have values of one rank under each key, or none. -/
def Ties (s : Store) (keys : List SortKey) (a b : Record) : Prop :=
  ∀ k ∈ keys, (s.sortValue k.path a).map Value.rank = (s.sortValue k.path b).map Value.rank

theorem compareBy_eq_eq_iff {s : Store} {k : SortKey} {a b : Record} : s.compareBy k a b = .eq ↔
    (s.sortValue k.path a).map Value.rank = (s.sortValue k.path b).map Value.rank := by
  rw [← Value.sortCompare?_eq_eq_iff]
  unfold compareBy
  cases k.direction with
  | ascending => exact Iff.rfl
  | descending => exact Ordering.swap_eq_eq

/-- **Records are equal in the order exactly if no key tells them apart.** -/
theorem compareRecords_eq_eq_iff {s : Store} {keys : List SortKey} {a b : Record} :
    s.compareRecords keys a b = .eq ↔ s.Ties keys a b := by
  induction keys with
  | nil => exact iff_of_true rfl nofun
  | cons k rest ih =>
    unfold Ties
    rw [compareRecords, Ordering.then_eq_eq, compareBy_eq_eq_iff, ih, List.forall_mem_cons, Ties]

end Store

/-- **Records are totally ordered by sort keys, up to records that no key tells apart.** The order can be turned
round, it is transitive, and strict where a part of it is; this holds whatever the paths lead to, values of
several kinds, floating point numbers that are none, or nothing. -/
theorem compareRecords_preorder (s : Store) (keys : List SortKey) (a b c : Record) :
    s.compareRecords keys a a = .eq ∧
    s.compareRecords keys b a = (s.compareRecords keys a b).swap ∧
    (s.compareRecords keys a b ≠ .gt → s.compareRecords keys b c ≠ .gt →
      s.compareRecords keys a c ≠ .gt ∧
      (s.compareRecords keys a b = .lt ∨ s.compareRecords keys b c = .lt →
        s.compareRecords keys a c = .lt)) ∧
    (s.compareRecords keys a b = .eq ↔ s.Ties keys a b) := by
  refine ⟨Std.ReflCmp.compare_self, Std.OrientedCmp.eq_swap, fun hab hbc => ?_,
    Store.compareRecords_eq_eq_iff⟩
  have hable := Ordering.isLE_iff_ne_gt.mpr hab
  have hbcle := Ordering.isLE_iff_ne_gt.mpr hbc
  refine ⟨Ordering.isLE_iff_ne_gt.mp (Std.TransCmp.isLE_trans hable hbcle), ?_⟩
  rintro (hlt | hlt)
  · exact Std.TransCmp.lt_of_lt_of_isLE hlt hbcle
  · exact Std.TransCmp.lt_of_isLE_of_lt hable hlt

/-! ### Sizes of several kinds -/

/-- Things by their sizes. -/
def bySize (d : Direction) : SortKey :=
  ⟨⟨"Thing", [⟨"Thing", "size", .value false⟩], .float64, true, false, true⟩, d⟩

/-- A thing with a size. -/
def sized (v : Value) : Record := [("size", .scalar v)]

/-- Infinity comes before what is no number at all, of the other width, and this before the integers, so that
infinity comes before these. -/
theorem sizes_in_order :
    Store.empty.compareRecords [bySize .ascending] (sized (.float64 ⟨0x7ff0000000000000⟩))
      (sized (.float32 ⟨0x7fc00000⟩)) ≠ .gt ∧
    Store.empty.compareRecords [bySize .ascending] (sized (.float32 ⟨0x7fc00000⟩))
      (sized (.int64 (-7))) = .lt ∧
    Store.empty.compareRecords [bySize .ascending] (sized (.float64 ⟨0x7ff0000000000000⟩))
      (sized (.int64 (-7))) = .lt := by
  have hnan : Store.empty.compareRecords [bySize .ascending] (sized (.float64 ⟨0x7ff0000000000000⟩))
      (sized (.float32 ⟨0x7fc00000⟩)) ≠ .gt := by decide
  have hint : Store.empty.compareRecords [bySize .ascending] (sized (.float32 ⟨0x7fc00000⟩))
      (sized (.int64 (-7))) = .lt := by decide
  obtain ⟨_, _, htrans, _⟩ := compareRecords_preorder .empty [bySize .ascending]
    (sized (.float64 ⟨0x7ff0000000000000⟩)) (sized (.float32 ⟨0x7fc00000⟩)) (sized (.int64 (-7)))
  exact ⟨hnan, hint, (htrans hnan (by rw [hint]; decide)).2 (.inr hint)⟩

end ContextualQuery
