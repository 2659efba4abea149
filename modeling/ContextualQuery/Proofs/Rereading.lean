import ContextualQuery.Proofs.Identifiers
import ContextualQuery.Proofs.Instants
import ContextualQuery.Proofs.Ordering
import ContextualQuery.Proofs.Rounding
import ContextualQuery.Proofs.Typing
/-!
# Records that are written and read again

Reading a record keeps what its plain writing has no form for: numbers that are not finite, which are
written as null, and instants whose year has not four digits, whose text is not taken (raw numbers
are read as instants without a look at the calendar). All other values are read again, so a record
is read again exactly if none of those is in it.

* `Value.IsKept`: the values that are read again;
* `Domain.reread_float32`, `Domain.reread_timestamp`, `Domain.reread_date`, `Domain.reread_uuid`,
  `Domain.reread_member` and, for all of them, `Domain.reread_plain`;
* `Record.sorted_membersOf`: a record is written in the order in which it was read;
* `Record.reread_datum`, `Record.reread_items`, `Record.reread_members`: by induction on the text that
  was read first, its parts being in order;
* `Record.reread_iff`.
-/

namespace ContextualQuery

/-! ## 1. Values -/

/-- What is kept when a value is written as plain JSON and read again: every number but infinities
and the like, every instant but those whose year has not four digits, and all else. -/
def Value.IsKept : Value → Prop
  | float32 x => x.isFinite = true
  | float64 x => x.isFinite = true
  | timestamp t => ∀ d, CivilDate.ofDays? (t.toInt / Temporal.dayMicros) = some d →
      Temporal.HasFourDigits d.year
  | _ => True

theorem toInt_of_int32? {n : Int} {m : Int32} (h : int32? n = some m) : m.toInt = n := by
  unfold int32? at h
  split at h
  · cases h
    exact Int32.toInt_ofInt_of_le (by omega) (by omega)
  · cases h

theorem int32?_toInt (n : Int32) : int32? n.toInt = some n := by
  have hlow := n.le_toInt
  have hhigh := n.toInt_le
  unfold int32?
  rw [if_pos ⟨hlow, hhigh⟩, Int32.ofInt_toInt]

theorem int64?_toInt (n : Int64) : int64? n.toInt = some n := by
  have hlow := n.le_toInt
  have hhigh := n.toInt_le
  unfold int64?
  rw [if_pos ⟨hlow, hhigh⟩, Int64.ofInt_toInt]

theorem Value.plain_timestamp {t : Int64} {s : String} (h : writeInstant? t.toInt = some s) :
    (timestamp t).plain = .text s := by
  unfold plain
  simp only [h]

theorem Value.plain_date {n : Int32} {s : String} (h : writeDays? n.toInt = some s) :
    (date n).plain = .text s := by
  unfold plain
  simp only [h]

theorem readInt32?_toInt (n : Int32) : Value.readInt32? (.integer n.toInt) = some n := by
  have hlow := n.le_toInt
  have hhigh := n.toInt_lt
  rw [Value.readInt32?, Json.integer?, if_pos ⟨hlow, hhigh⟩, Option.map_some, Int32.ofInt_toInt]

theorem readInt64?_toInt (n : Int64) : Value.readInt64? (.integer n.toInt) = some n := by
  have hlow := n.le_toInt
  have hhigh := n.toInt_lt
  rw [Value.readInt64?, Json.integer?, if_pos ⟨hlow, hhigh⟩, Option.map_some, Int64.ofInt_toInt]

namespace Domain

theorem ofData?_instant (s : String) :
    timestamp.ofData? (.text s) = (readInstant? s.toList >>= int64?).map .timestamp := rfl

theorem ofData?_date (s : String) :
    date.ofData? (.text s) = (readDays? s.toList >>= int32?).map .date := rfl

/-- What is not finite is written as null, which is read as null. -/
theorem ofData?_ofDouble_eq_some_iff {d : Domain} {y : Double} {v : Value} (hv : v ≠ .null)
    (hread : y.isFinite = true → d.ofData? (.double y) = some v) :
    d.ofData? (.ofDouble y) = some v ↔ y.isFinite = true := by
  rw [Json.ofDouble]
  by_cases hy : y.isFinite = true
  · rw [if_pos hy]
    exact iff_of_true (hread hy) hy
  · rw [if_neg hy, ofData?_null]
    exact iff_of_false (fun h => hv (Option.some.inj h).symm) hy

theorem reread_float32 (x : Single) :
    float32.ofData? (Value.float32 x).plain = some (.float32 x) ↔ x.isFinite = true := by
  have hdouble (y : Double) : float32.ofData? (.double y) = some (.float32 y.toSingle) := rfl
  have hplain : (Value.float32 x).plain = .ofDouble x.toDouble := rfl
  rw [hplain, ← x.isFinite_toDouble]
  refine ofData?_ofDouble_eq_some_iff (fun h => by cases h) fun hx => ?_
  rw [hdouble, Single.toSingle_toDouble (x.isFinite_toDouble ▸ hx)]

theorem reread_float64 (x : Double) :
    float64.ofData? (Value.float64 x).plain = some (.float64 x) ↔ x.isFinite = true := by
  have hdouble (y : Double) : float64.ofData? (.double y) = some (.float64 y) := rfl
  have hplain : (Value.float64 x).plain = .ofDouble x := rfl
  rw [hplain]
  exact ofData?_ofDouble_eq_some_iff (fun h => by cases h) fun _ => hdouble x

theorem reread_timestamp (t : Int64) :
    timestamp.ofData? (Value.timestamp t).plain = some (.timestamp t) ↔
      (Value.timestamp t).IsKept := by
  cases hs : writeInstant? t.toInt with
  | none =>
    have hplain : (Value.timestamp t).plain = .integer t.toInt := by
      unfold Value.plain
      simp only [hs]
    have hbeyond : CivilDate.ofDays? (t.toInt / Temporal.dayMicros) = none := by
      rw [Temporal.writeInstant?_eq] at hs
      exact Option.map_eq_none_iff.mp hs
    have hread : timestamp.ofData? (.integer t.toInt) = some (.timestamp t) :=
      congrArg (Option.map Value.timestamp) (readInt64?_toInt t)
    rw [hplain]
    refine iff_of_true hread fun d hd => ?_
    rw [hbeyond] at hd
    cases hd
  | some s =>
    obtain ⟨d, hd, hread⟩ := readInstant?_writeInstant? hs
    rw [Value.plain_timestamp hs, ofData?_instant, hread]
    by_cases hyear : Temporal.HasFourDigits d.year
    · rw [if_pos hyear]
      refine iff_of_true (congrArg (Option.map Value.timestamp) (int64?_toInt t)) fun d' hd' => ?_
      cases hd.symm.trans hd'
      exact hyear
    · rw [if_neg hyear]
      exact iff_of_false (fun h => by cases h) fun h => hyear (h d hd)

/-- A date is read from a text of the calendar. -/
theorem date_of_ofData? {j : Json} {n : Int32} (h : date.ofData? j = some (.date n)) :
    ∃ d : CivilDate, d.isValid = true ∧ d.toDays = n.toInt := by
  cases j with
  | text s =>
    obtain ⟨m, hm, hn⟩ := Option.map_eq_some_iff.mp h
    cases hn
    obtain ⟨days, hdays, hm⟩ := Option.bind_eq_some_iff.mp hm
    obtain ⟨d, hd, rfl⟩ := Option.map_eq_some_iff.mp hdays
    refine ⟨d, ?_, (toInt_of_int32? hm).symm⟩
    obtain ⟨⟨d', rest⟩, _, hd⟩ := Option.bind_eq_some_iff.mp hd
    simp only at hd
    split at hd
    · rename_i hvalid
      cases hd
      exact (Bool.and_eq_true_iff.mp hvalid).2
    · cases hd
  | _ => cases h

theorem reread_date {n : Int32} {d : CivilDate} (hd : d.isValid = true) (hn : d.toDays = n.toInt) :
    date.ofData? (Value.date n).plain = some (.date n) := by
  have hwrite : writeDays? n.toInt = some (String.ofList d.write) := by
    rw [writeDays?, CivilDate.ofDays?_eq_some_iff.mpr ⟨hd, hn⟩]
    rfl
  rw [Value.plain_date hwrite, ofData?_date, readDays?_writeDays? hwrite]
  exact congrArg (Option.map Value.date) (int32?_toInt n)

theorem reread_uuid (u : Uuid) : uuid.ofData? (Value.uuid u).plain = some (.uuid u) := by
  have hplain : (Value.uuid u).plain = .text u.write := rfl
  have htext (s : String) : uuid.ofData? (.text s) = (Uuid.read? s.toList).map .uuid := rfl
  rw [hplain, htext, u.read?_write]
  rfl

theorem reread_member {name : String} {variants : List String} {m : String}
    (h : variants.contains m = true) :
    (enumeration name variants).ofData? (Value.member m).plain = some (.member m) := by
  have hfind : variants.find? (· == m) = some m := by
    have hsome : (variants.find? (· == m)).isSome = true :=
      List.find?_isSome.mpr ⟨m, List.contains_iff_mem.mp h, beq_self_eq_true m⟩
    obtain ⟨m', hm'⟩ := Option.isSome_iff_exists.mp hsome
    have heq := @List.find?_some _ (· == m) _ _ hm'
    rw [hm', beq_iff_eq.mp heq]
  exact congrArg (Option.map Value.member) hfind

/-- **A value that was read is read again from its plain writing exactly if it is one of those that
are kept.** -/
theorem reread_plain {d : Domain} {j : Json} {v : Value} (h : d.ofData? j = some v) :
    d.ofData? v.plain = some v ↔ v.IsKept := by
  rcases admits_ofData h with hnull | hadmits
  · cases v with
    | null => exact iff_of_true (ofData?_null d) trivial
    | _ => cases hnull
  · cases v with
    | null => cases d <;> cases hadmits
    | text s =>
      cases d with
      | text => exact iff_of_true rfl trivial
      | _ => cases hadmits
    | bool b =>
      cases d with
      | bool => exact iff_of_true rfl trivial
      | _ => cases hadmits
    | int32 n =>
      cases d with
      | int32 => exact iff_of_true (congrArg (Option.map Value.int32) (readInt32?_toInt n)) trivial
      | _ => cases hadmits
    | int64 n =>
      cases d with
      | int64 => exact iff_of_true (congrArg (Option.map Value.int64) (readInt64?_toInt n)) trivial
      | _ => cases hadmits
    | float32 x =>
      cases d with
      | float32 => exact reread_float32 x
      | _ => cases hadmits
    | float64 x =>
      cases d with
      | float64 => exact reread_float64 x
      | _ => cases hadmits
    | timestamp t =>
      cases d with
      | timestamp => exact reread_timestamp t
      | _ => cases hadmits
    | date n =>
      cases d with
      | date =>
        obtain ⟨date, hvalid, hn⟩ := date_of_ofData? h
        exact iff_of_true (reread_date hvalid hn) trivial
      | _ => cases hadmits
    | uuid u =>
      cases d with
      | uuid => exact iff_of_true (reread_uuid u) trivial
      | _ => cases hadmits
    | member m =>
      cases d with
      | enumeration name variants => exact iff_of_true (reread_member hadmits) trivial
      | _ => cases hadmits

end Domain

/-! ## 2. Records -/

namespace Datum

mutual

/-- All values in the datum, also those in objects. -/
def leaves : Datum → List Value
  | scalar v => [v]
  | object attributes => leavesOfAttributes attributes
  | list items => leavesOf items

/-- All values in several data. -/
def leavesOf : List Datum → List Value
  | [] => []
  | d :: rest => leaves d ++ leavesOf rest

/-- All values under several names. -/
def leavesOfAttributes : List (String × Datum) → List Value
  | [] => []
  | (_, d) :: rest => leaves d ++ leavesOfAttributes rest

end

end Datum

theorem Json.Leaf.ordered {j : Json} (h : j.Leaf) : j.Ordered := by
  cases h with
  | null => exact .null
  | bool b => exact .bool b
  | integer n => exact .integer n
  | double x => exact .double x
  | text s => exact .text s

theorem Json.leaf_ofDouble (x : Double) : (ofDouble x).Leaf := by
  unfold ofDouble
  split
  · exact .double x
  · exact .null

/-- Values are written without lists and objects. -/
theorem Value.leaf_plain (v : Value) : v.plain.Leaf := by
  unfold plain
  cases v with
  | null => exact .null
  | bool b => exact .bool b
  | int32 n => exact .integer _
  | int64 n => exact .integer _
  | float32 x => exact Json.leaf_ofDouble _
  | float64 x => exact Json.leaf_ofDouble x
  | text s => exact .text s
  | timestamp t =>
    simp only
    split
    · exact .text _
    · exact .integer _
  | date n =>
    simp only
    split
    · exact .text _
    · exact .integer _
  | uuid u => exact .text _
  | member m => exact .text m

namespace Record

/-- All values in a record. -/
def leaves (r : Record) : List Value := Datum.leavesOfAttributes r

variable {s : Schema}

/-- The names of a record are those of the object that it is read from. -/
theorem names_readMembers {e : Entity} {members : List (String × Json)} {r : Record}
    (hs : Dictionary.Sorted members) (h : readMembers s e members = .ok r) :
    Dictionary.names r = Dictionary.names members := by
  induction members generalizing r with
  | nil =>
    rw [readMembers] at h
    cases h
    rfl
  | cons m members ih =>
    obtain ⟨name, j⟩ := m
    obtain ⟨hfirst, hrest⟩ := Dictionary.sorted_cons_iff.mp hs
    obtain ⟨f, d, r', _, _, hr', rfl⟩ := readMembers_cons_eq_ok_iff.mp h
    have hnames := ih hrest hr'
    have hset : Record.set r' name d = (name, d) :: r' :=
      Dictionary.insert_of_lt (hnames ▸ hfirst)
    rw [hset, Dictionary.names, List.map_cons]
    exact congrArg (name :: ·) hnames

/-- An attribute whose name comes first is put in front of those that are read. -/
theorem set_eq_cons {e : Entity} {name : String} {members : List (String × Json)} {r : Record}
    (hfirst : ∀ n ∈ Dictionary.names members, name < n) (hs : Dictionary.Sorted members)
    (h : readMembers s e members = .ok r) (d : Datum) : Record.set r name d = (name, d) :: r :=
  Dictionary.insert_of_lt (names_readMembers hs h ▸ hfirst)

theorem names_membersOf (r : Record) :
    Dictionary.names (Datum.membersOf r) = Dictionary.names r := by
  induction r with
  | nil => rw [Datum.membersOf]; rfl
  | cons a r ih =>
    obtain ⟨name, d⟩ := a
    rw [Datum.membersOf]
    exact congrArg (name :: ·) ih

/-- A record is written under the names of the object that it was read from. -/
theorem names_reread {e : Entity} {members : List (String × Json)} {r : Record}
    (hs : Dictionary.Sorted members) (h : readMembers s e members = .ok r) :
    Dictionary.names (Datum.membersOf r) = Dictionary.names members :=
  (names_membersOf r).trans (names_readMembers hs h)

theorem sorted_membersOf {e : Entity} {members : List (String × Json)} {r : Record}
    (hs : Dictionary.Sorted members) (h : readMembers s e members = .ok r) :
    Dictionary.Sorted (Datum.membersOf r) := by
  rw [Dictionary.Sorted, names_reread hs h]
  exact hs

theorem reread_datum_leaf {context : String} {type : FieldType} {inList : Bool} {j : Json}
    {d : Datum} (hj : j.Leaf) (h : readDatum s context type inList j = .ok d) :
    d.toJson.Ordered ∧
      (readDatum s context type inList d.toJson = .ok d ↔ ∀ v ∈ d.leaves, v.IsKept) := by
  rcases (readDatum_leaf_eq_ok_iff hj).mp h with ⟨rfl, rfl, _⟩ | ⟨hlist, dom, v, hc, hv, rfl⟩
  · have hjson : (Datum.scalar .null).toJson = .null := by rw [Datum.toJson]; rfl
    rw [hjson, Datum.leaves, List.forall_mem_singleton]
    exact ⟨.null, iff_of_true h trivial⟩
  · have hplain : (Datum.scalar v).toJson = v.plain := by rw [Datum.toJson]
    have hkept := Domain.reread_plain hv
    rw [hplain, Datum.leaves, List.forall_mem_singleton, readDatum_leaf_eq_ok_iff v.leaf_plain]
    refine ⟨v.leaf_plain.ordered, ?_⟩
    constructor
    · rintro (⟨_, he, _⟩ | ⟨_, dom', v', hc', hv', he⟩)
      · cases he
        trivial
      · cases hc.symm.trans hc'
        cases he
        exact hkept.mp hv'
    · exact fun h => .inr ⟨hlist, dom, v, hc, hkept.mpr h, rfl⟩

-- The induction is on the JSON that was read first, by the recursion of the reader. What is written has
-- to be shown to be in order along with it, since `ofJson` puts it in order before it is read again.
mutual

theorem reread_datum {context : String} {type : FieldType} {inList : Bool} {j : Json} {d : Datum}
    (hj : j.Ordered) (h : readDatum s context type inList j = .ok d) :
    d.toJson.Ordered ∧
      (readDatum s context type inList d.toJson = .ok d ↔ ∀ v ∈ d.leaves, v.IsKept) := by
  cases j with
  | null => exact reread_datum_leaf .null h
  | bool b => exact reread_datum_leaf (.bool b) h
  | integer n => exact reread_datum_leaf (.integer n) h
  | double x => exact reread_datum_leaf (.double x) h
  | text t => exact reread_datum_leaf (.text t) h
  | array items =>
    cases hj with
    | array parts =>
      obtain ⟨hlist, ds, hi, rfl⟩ := readDatum_array_eq_ok_iff.mp h
      obtain ⟨hordered, hiff⟩ := reread_items parts hi
      rw [Datum.toJson, Datum.leaves, ← hiff, readDatum_array_eq_ok_iff]
      refine ⟨.array hordered, ?_⟩
      constructor
      · rintro ⟨_, ds', hi', he⟩
        cases he
        exact hi'
      · exact fun hi' => ⟨hlist, ds, hi', rfl⟩
  | object members =>
    cases hj with
    | object sorted parts =>
      obtain ⟨hlist, target, e, r, hc, he, hm, rfl⟩ := readDatum_object_eq_ok_iff.mp h
      obtain ⟨hordered, hiff⟩ := reread_members sorted parts hm
      rw [Datum.toJson, Datum.leaves, ← hiff, readDatum_object_eq_ok_iff]
      refine ⟨.object (sorted_membersOf sorted hm) hordered, ?_⟩
      constructor
      · rintro ⟨_, target', e', r', hc', he', hm', hr⟩
        cases hc.symm.trans hc'
        cases he.symm.trans he'
        cases hr
        exact hm'
      · exact fun hm' => ⟨hlist, target, e, r, hc, he, hm', rfl⟩

theorem reread_items {context : String} {type : FieldType} {items : List Json} {ds : List Datum}
    (hitems : ∀ j ∈ items, j.Ordered) (h : readItems s context type items = .ok ds) :
    (∀ j ∈ Datum.itemsOf ds, j.Ordered) ∧
      (readItems s context type (Datum.itemsOf ds) = .ok ds ↔
        ∀ v ∈ Datum.leavesOf ds, v.IsKept) := by
  cases items with
  | nil =>
    rw [readItems] at h
    cases h
    rw [Datum.itemsOf, Datum.leavesOf]
    exact ⟨fun _ h => absurd h List.not_mem_nil,
      iff_of_true (by rw [readItems]) fun _ h => absurd h List.not_mem_nil⟩
  | cons j items =>
    obtain ⟨hj, hrest⟩ := List.forall_mem_cons.mp hitems
    obtain ⟨d, ds', hd, hds, rfl⟩ := readItems_cons_eq_ok_iff.mp h
    obtain ⟨hjson, hiff⟩ := reread_datum hj hd
    obtain ⟨hjsons, hiffs⟩ := reread_items hrest hds
    rw [Datum.itemsOf, Datum.leavesOf, List.forall_mem_append, ← hiff, ← hiffs,
      readItems_cons_eq_ok_iff]
    refine ⟨List.forall_mem_cons.mpr ⟨hjson, hjsons⟩, ?_⟩
    constructor
    · rintro ⟨d', ds'', hd', hds', he⟩
      cases he
      exact ⟨hd', hds'⟩
    · exact fun ⟨hd', hds'⟩ => ⟨d, ds', hd', hds', rfl⟩

theorem reread_members {e : Entity} {members : List (String × Json)} {r : Record}
    (hs : Dictionary.Sorted members) (hmembers : ∀ m ∈ members, m.2.Ordered)
    (h : readMembers s e members = .ok r) :
    (∀ m ∈ Datum.membersOf r, m.2.Ordered) ∧
      (readMembers s e (Datum.membersOf r) = .ok r ↔
        ∀ v ∈ Datum.leavesOfAttributes r, v.IsKept) := by
  cases members with
  | nil =>
    rw [readMembers] at h
    cases h
    rw [empty, Datum.membersOf, Datum.leavesOfAttributes]
    exact ⟨fun _ h => absurd h List.not_mem_nil,
      iff_of_true (by rw [readMembers]; rfl) fun _ h => absurd h List.not_mem_nil⟩
  | cons m members =>
    obtain ⟨name, j⟩ := m
    obtain ⟨hj, hrest⟩ := List.forall_mem_cons.mp hmembers
    obtain ⟨hfirst, hsrest⟩ := Dictionary.sorted_cons_iff.mp hs
    obtain ⟨f, d, r', hf, hd, hr', rfl⟩ := readMembers_cons_eq_ok_iff.mp h
    obtain ⟨hjson, hiff⟩ := reread_datum hj hd
    obtain ⟨hjsons, hiffs⟩ := reread_members hsrest hrest hr'
    have hset := set_eq_cons hfirst hsrest hr' d
    have hagain : ∀ n ∈ Dictionary.names (Datum.membersOf r'), name < n := by
      rw [names_reread hsrest hr']
      exact hfirst
    rw [hset, Datum.membersOf, Datum.leavesOfAttributes, List.forall_mem_append, ← hiff, ← hiffs,
      readMembers_cons_eq_ok_iff]
    refine ⟨List.forall_mem_cons.mpr ⟨hjson, hjsons⟩, ?_⟩
    constructor
    · rintro ⟨f', d', r'', hf', hd', hr'', he⟩
      rw [set_eq_cons hagain (sorted_membersOf hsrest hr') hr''] at he
      cases hf.symm.trans hf'
      cases he
      exact ⟨hd', hr''⟩
    · exact fun ⟨hd', hr''⟩ => ⟨f, d, r', hf, hd', hr'', hset.symm⟩

end

/-- **A record that was read is read again from its plain writing exactly if all values in it are
kept.** -/
theorem reread_iff {entity : String} {j : Json} {r : Record} (h : ofJson s entity j = .ok r) :
    ofJson s entity r.toJson = .ok r ↔ ∀ v ∈ r.leaves, v.IsKept := by
  obtain ⟨e, members, he, hj, hr⟩ := ofOrdered_eq_ok_iff.mp h
  have hordered := hj ▸ j.ordered_ordered
  cases hordered with
  | object sorted parts =>
    obtain ⟨hparts, hiff⟩ := reread_members sorted parts hr
    have hjson : r.toJson.ordered = .object (Datum.membersOf r) :=
      (Json.Ordered.object (sorted_membersOf sorted hr) hparts).eq
    rw [leaves, ← hiff, ofJson, hjson, ofOrdered_eq_ok_iff]
    constructor
    · rintro ⟨e', members', he', hm, h⟩
      cases he.symm.trans he'
      cases hm
      exact h
    · exact fun h => ⟨e, _, he, rfl, h⟩

end Record

/-! ## 3. Events -/

/-- Events have a time and a weight. -/
def events : Schema :=
  (Schema.empty 1 0).withEntity
    { name := "Event", identityField := "at",
      fields := [⟨"at", .scalar .one .timestamp, true⟩, ⟨"weight", .scalar .one .float32, true⟩] }

/-- An event at noon of the first of March 2024 is read again. -/
theorem reread_noon :
    let r : Record := [("at", .scalar (.timestamp 1709294400000000))]
    Record.ofJson events "Event" (.object [("at", .text "2024-03-01T12:00:00Z")]) = .ok r ∧
      (∀ v ∈ r.leaves, v.IsKept) ∧ Record.ofJson events "Event" r.toJson = .ok r := by
  intro r
  have hread : Record.ofJson events "Event" (.object [("at", .text "2024-03-01T12:00:00Z")]) =
      .ok r := by
    rfl
  have hkept : ∀ v ∈ r.leaves, v.IsKept := by
    have hleaves : r.leaves = [.timestamp 1709294400000000] := rfl
    have hday : CivilDate.ofDays? ((1709294400000000 : Int64).toInt / Temporal.dayMicros) =
        some ⟨2024, 3, 1⟩ := by decide
    rw [hleaves, List.forall_mem_singleton]
    intro d hd
    cases hday.symm.trans hd
    decide
  exact ⟨hread, hkept, (Record.reread_iff hread).mpr hkept⟩

/-- An event in the year 10000 is not read again, and one of infinite weight comes back without a
weight. -/
theorem not_reread_events : events.isValid = true ∧
    (∃ r, Record.ofJson events "Event" (.object [("at", .integer 253402300800000000)]) = .ok r ∧
      Record.ofJson events "Event" r.toJson ≠ .ok r) ∧
    ∃ r, Record.ofJson events "Event" (.object [("weight", .double ⟨0x48078287F49C4A1D⟩)]) = .ok r ∧
      Record.ofJson events "Event" r.toJson ≠ .ok r := by
  refine ⟨by decide, ⟨[("at", .scalar (.timestamp 253402300800000000))], rfl, fun h => ?_⟩,
    [("weight", .scalar (.float32 ⟨0x7F800000⟩))], rfl, fun h => ?_⟩
  · have hfault : (Record.ofJson events "Event" (Record.toJson
        [("at", .scalar (.timestamp 253402300800000000))])).isOk = false := by decide +kernel
    rw [h] at hfault
    cases hfault
  · have hnull : ((Record.ofJson events "Event" (Record.toJson
        [("weight", .scalar (.float32 ⟨0x7F800000⟩))])).toOption.bind (·.scalar? "weight")) =
          some .null := by decide +kernel
    rw [h] at hnull
    cases hnull

end ContextualQuery
