import ContextualQuery.Predicate.Notation
import ContextualQuery.Proofs.Rereading
import ContextualQuery.Proofs.WellFormed
/-!
# Predicates that are sent and read again

Predicates, sort keys and selections are sent as JSON. What is read on the other side is what was sent:
a field has the same name on both sides, a tag tells the forms of a structure apart and is not the name of
one of its fields, and a number has a JSON form if it is finite.

* `Json.list?_map`: a list is read again if its items are;
* `Value.ofJson?_toJson`, `Path.ofJson?_toJson`, `Comparison.ofJson?_fields` and what they are made of;
* `Predicate.ofJson?_toJson`, by induction on the predicate;
* `sent_is_read`: the same of predicates, sort keys and selections, and that different ones are sent in
  different forms.
-/

namespace ContextualQuery

/-! ## 1. Lists, numbers and names -/

/-- A list is read again if each of its items is. -/
theorem Json.list?_map {α : Type} {write : α → Json} {read : Json → Option α} {as : List α}
    (h : ∀ a ∈ as, read (write a) = some a) : Json.list? read (.array (as.map write)) = some as := by
  show (as.map write).mapM read = some as
  induction as with
  | nil => rfl
  | cons a as ih =>
    obtain ⟨ha, has⟩ := List.forall_mem_cons.mp h
    rw [List.map_cons, List.mapM_cons, ha, ih has]
    rfl

theorem Json.list?_texts (names : List String) :
    Json.list? Json.text? (.array (names.map .text)) = some names :=
  list?_map fun _ _ => rfl

theorem Json.nullable?_ofText? (o : Option String) :
    Json.nullable? Json.text? (.ofText? o) = some o := by
  cases o <;> rfl

/-- A natural number below the bound is read again. -/
theorem Json.nat?_natCast {n high : Nat} (h : n < high) : (integer n).nat? high = some n := by
  have hlow : (0 : Int) ≤ n := Int.natCast_nonneg n
  have hhigh : (n : Int) < high := Int.ofNat_lt.mpr h
  rw [nat?, integer?, if_pos ⟨hlow, hhigh⟩, Option.map_some, Int.toNat_natCast]

theorem Connective.named?_name (op : Connective) :
    Json.named? Connective.byName (.text op.name) = some op := by
  cases op <;> rfl

theorem Comparator.named?_name (c : Comparator) :
    Json.named? Comparator.byName (.text c.name) = some c := by
  cases c <;> rfl

theorem MatchMode.named?_name (m : MatchMode) :
    Json.named? MatchMode.byName (.text m.name) = some m := by
  cases m <;> rfl

theorem Direction.named?_name (d : Direction) :
    Json.named? Direction.byName (.text d.name) = some d := by
  cases d <;> rfl

/-! ## 2. Values -/

namespace Value

theorem readUuid?_bytes (u : Uuid) :
    readUuid? (.array (u.bytes.map fun b => .integer b.toNat)) = some u := by
  have hbyte (b : UInt8) : ((Json.integer b.toNat).nat? 256).map UInt8.ofNat = some b := by
    rw [Json.nat?_natCast b.toNat_lt, Option.map_some, UInt8.ofNat_toNat]
  have hbytes : Json.list? (fun b => (b.nat? 256).map UInt8.ofNat)
      (.array (u.bytes.map fun b => .integer b.toNat)) = some u.bytes :=
    Json.list?_map fun b _ => hbyte b
  rw [readUuid?, hbytes]
  show Uuid.ofBytes? u.bytes = some u
  rw [Uuid.ofBytes?, dif_pos u.size]

/-- The content of a finite value is read again under the name of its kind. -/
theorem ofContent?_content {v : Value} (hnull : v.isNull = false) (h : v.isFinite = true) :
    ofContent? v.typeName v.content = some v := by
  cases v with
  | null => cases hnull
  | bool b => rfl
  | int32 n =>
    show (readInt32? (.integer n.toInt)).map int32 = some (.int32 n)
    rw [readInt32?_toInt, Option.map_some]
  | int64 n =>
    show (readInt64? (.integer n.toInt)).map int64 = some (.int64 n)
    rw [readInt64?_toInt, Option.map_some]
  | float32 x =>
    have hx : x.isFinite = true := h
    have hwide : x.toDouble.isFinite = true := x.isFinite_toDouble.trans hx
    show (Json.single? (.ofDouble x.toDouble)).map float32 = some (.float32 x)
    rw [Json.ofDouble, if_pos hwide]
    show some (float32 x.toDouble.toSingle) = some (.float32 x)
    rw [Single.toSingle_toDouble hx]
  | float64 x =>
    have hx : x.isFinite = true := h
    show (Json.double? (.ofDouble x)).map float64 = some (.float64 x)
    rw [Json.ofDouble, if_pos hx]
    rfl
  | text s => rfl
  | timestamp t =>
    show (readInt64? (.integer t.toInt)).map timestamp = some (.timestamp t)
    rw [readInt64?_toInt, Option.map_some]
  | date d =>
    show (readInt32? (.integer d.toInt)).map date = some (.date d)
    rw [readInt32?_toInt, Option.map_some]
  | uuid u =>
    show (readUuid? (.array (u.bytes.map fun b => .integer b.toNat))).map uuid = some (.uuid u)
    rw [readUuid?_bytes, Option.map_some]
  | member v => rfl

/-- **A finite value is read again.** -/
theorem ofJson?_toJson {v : Value} (h : v.isFinite = true) : ofJson? v.toJson = some v := by
  by_cases hnull : v = .null
  · subst hnull
    rfl
  · have hkind : v.typeName ≠ "null" := by
      cases v <;> first | exact absurd rfl hnull | exact of_decide_eq_false rfl
    have hcontent : ofContent? v.typeName v.content = some v :=
      ofContent?_content (by cases v <;> first | exact absurd rfl hnull | rfl) h
    have hform : v.toJson = .object [("type", .text v.typeName), ("value", v.content)] := by
      cases v <;> first | exact absurd rfl hnull | rfl
    rw [hform]
    show (if v.typeName = "null" then _ else _) = some v
    rw [if_neg hkind]
    exact hcontent

end Value

theorem Domain.ofJson?_toJson (d : Domain) : ofJson? d.toJson = some d := by
  cases d with
  | enumeration name variants =>
    show (Json.list? Json.text? (.array (variants.map .text))).bind _ =
      some (enumeration name variants)
    rw [Json.list?_texts]
    rfl
  | _ => rfl

/-! ## 3. Paths -/

theorem Join.ofJson?_members (j : Join) : ofJson? (.object j.members) = some j := by
  show (Json.nullable? Json.text? (.ofText? j.edgeEntity)).bind _ = some j
  rw [Json.nullable?_ofText?]
  rfl

theorem StepKind.ofJson?_toJson (k : StepKind) : ofJson? k.toJson = some k := by
  cases k with
  | value isCollection => rfl
  | embedded entity isCollection => rfl
  | join j =>
    show (Join.ofJson? (.object j.members)).bind _ = some (join j)
    rw [Join.ofJson?_members]
    rfl

theorem Step.ofJson?_toJson (s : Step) : ofJson? s.toJson = some s := by
  show (StepKind.ofJson? s.kind.toJson).bind _ = some s
  rw [StepKind.ofJson?_toJson]
  rfl

/-- **A path is read again.** -/
theorem Path.ofJson?_toJson (p : Path) : ofJson? p.toJson = some p := by
  show (Json.list? Step.ofJson? (.array (p.steps.map Step.toJson))).bind _ = some p
  rw [Json.list?_map fun s _ => s.ofJson?_toJson]
  show (Domain.ofJson? p.domain.toJson).bind _ = some p
  rw [Domain.ofJson?_toJson]
  rfl

/-! ## 4. Predicates -/

theorem Operand.ofJson?_toJson {o : Operand} (h : o.value.isFinite = true) :
    ofJson? o.toJson = some o := by
  show (Value.ofJson? o.value.toJson).bind _ = some o
  rw [Value.ofJson?_toJson h]
  show (Json.named? MatchMode.byName (.text o.mode.name)).bind _ = some o
  rw [MatchMode.named?_name]
  rfl

/-- A comparison is read among the fields of the predicate that it makes. -/
theorem Comparison.ofJson?_fields {c : Comparison} (h : c.operand.value.isFinite = true) :
    ofJson? (Predicate.compare c).toJson = some c := by
  rw [Predicate.toJson]
  show (Path.ofJson? c.path.toJson).bind _ = some c
  rw [Path.ofJson?_toJson]
  show (Json.named? Comparator.byName (.text c.comparator.name)).bind _ = some c
  rw [Comparator.named?_name]
  show (Operand.ofJson? c.operand.toJson).bind _ = some c
  rw [Operand.ofJson?_toJson h]
  rfl

namespace Predicate

/-- All numbers that the predicate compares with are finite. -/
def IsFinite (p : Predicate) : Prop := ∀ c ∈ p.comparisons, c.operand.value.isFinite = true

instance (p : Predicate) : Decidable p.IsFinite :=
  inferInstanceAs (Decidable (∀ c ∈ p.comparisons, c.operand.value.isFinite = true))

mutual

/-- **A predicate is read again**, whatever its shape: its node tells the forms apart, and its children are
found under their name. -/
theorem ofJson?_toJson {p : Predicate} (h : p.IsFinite) : ofJson? p.toJson = some p := by
  cases p with
  | matchAll =>
    rw [toJson, ofJson?]
    rfl
  | compare c =>
    have hfinite : c.operand.value.isFinite = true :=
      h c (by rw [comparisons]; exact List.mem_singleton_self c)
    have hread := Comparison.ofJson?_fields hfinite
    rw [toJson] at hread ⊢
    rw [ofJson?]
    show (Comparison.ofJson? _).bind _ = some (compare c)
    rw [hread]
    rfl
  | boolean op children =>
    have hfinite : ∀ c ∈ comparisonsOf children, c.operand.value.isFinite = true := by
      rw [IsFinite, comparisons] at h
      exact h
    rw [toJson, ofJson?, childrenOf?, if_pos rfl, ofItems?_toJsonItems hfinite]
    show (Json.named? Connective.byName (.text op.name)).bind _ = some (boolean op children)
    rw [Connective.named?_name]
    rfl

theorem ofItems?_toJsonItems {ps : List Predicate}
    (h : ∀ c ∈ comparisonsOf ps, c.operand.value.isFinite = true) :
    ofItems? (toJsonItems ps) = some ps := by
  cases ps with
  | nil =>
    rw [toJsonItems, ofItems?]
  | cons p ps =>
    rw [comparisonsOf, List.forall_mem_append] at h
    rw [toJsonItems, ofItems?, ofJson?_toJson h.1]
    show (ofItems? (toJsonItems ps)).map _ = some (p :: ps)
    rw [ofItems?_toJsonItems h.2]
    rfl

end

end Predicate

/-! ## 5. Sort keys and selections -/

theorem SortKey.ofJson?_toJson (k : SortKey) : ofJson? k.toJson = some k := by
  show (Path.ofJson? k.path.toJson).bind _ = some k
  rw [Path.ofJson?_toJson]
  show (Json.named? Direction.byName (.text k.direction.name)).bind _ = some k
  rw [Direction.named?_name]
  rfl

theorem Selection.ofJson?_toJson {s : Selection} (h : s.predicate.IsFinite) :
    ofJson? s.toJson = some s := by
  show (Predicate.ofJson? s.predicate.toJson).bind _ = some s
  rw [Predicate.ofJson?_toJson h]
  show (Json.list? SortKey.ofJson? (.array (s.sort.map SortKey.toJson))).bind _ = some s
  rw [Json.list?_map fun k _ => k.ofJson?_toJson]
  rfl

/-- What is read again is sent in a form of its own. -/
theorem eq_of_sent {α : Type} {write : α → Json} {read : Json → Option α} {a b : α}
    (ha : read (write a) = some a) (hb : read (write b) = some b) (h : write a = write b) : a = b := by
  rw [h, hb] at ha
  exact (Option.some.inj ha).symm

/-- **What is sent is what is read.** Predicates of any shape and depth that compare with finite numbers, sort
keys, and selections with such predicates are read again as what they are; so no two of them are sent in
one form. -/
theorem sent_is_read :
    ((∀ p : Predicate, p.IsFinite → Predicate.ofJson? p.toJson = some p) ∧
      (∀ k : SortKey, SortKey.ofJson? k.toJson = some k) ∧
      ∀ s : Selection, s.predicate.IsFinite → Selection.ofJson? s.toJson = some s) ∧
    ((∀ p q : Predicate, p.IsFinite → q.IsFinite → p ≠ q → p.toJson ≠ q.toJson) ∧
      (∀ k l : SortKey, k ≠ l → k.toJson ≠ l.toJson) ∧
      ∀ s t : Selection, s.predicate.IsFinite → t.predicate.IsFinite → s ≠ t →
        s.toJson ≠ t.toJson) := by
  have hpredicate (p : Predicate) (h : p.IsFinite) : Predicate.ofJson? p.toJson = some p :=
    Predicate.ofJson?_toJson h
  have hkey (k : SortKey) : SortKey.ofJson? k.toJson = some k := k.ofJson?_toJson
  have hselection (s : Selection) (h : s.predicate.IsFinite) : Selection.ofJson? s.toJson = some s :=
    Selection.ofJson?_toJson h
  refine ⟨⟨hpredicate, hkey, hselection⟩, ?_, ?_, ?_⟩
  · exact fun p q hp hq hne h => hne (eq_of_sent (hpredicate p hp) (hpredicate q hq) h)
  · exact fun k l hne h => hne (eq_of_sent (hkey k) (hkey l) h)
  · exact fun s t hs ht hne h => hne (eq_of_sent (hselection s hs) (hselection t ht) h)

/-- Who is not called Bob and has no weight below a half, wherever these stand. -/
def neitherBobNorLight : Predicate :=
  .not (.or [.compare ⟨personName, .eq, .text "Bob" .exact⟩, .and [],
    .compare ⟨⟨"Person", [⟨"Person", "body", .embedded "Body" true⟩,
      ⟨"Body", "parts", .join ⟨"parts", "Body", "Part", "id", "body", some "Link", true⟩⟩,
      ⟨"Part", "weight", .value false⟩], .float32, true, true, false⟩, .lt,
      .exact (.float32 ⟨0x3F000000⟩)⟩])

/-- This predicate is read again, and is not sent in the form of its negation. -/
theorem neitherBobNorLight_is_read :
    neitherBobNorLight.IsFinite ∧ (Predicate.not neitherBobNorLight).IsFinite ∧
      Predicate.ofJson? neitherBobNorLight.toJson = some neitherBobNorLight ∧
      Selection.ofJson? (Selection.mk neitherBobNorLight [⟨personName, .descending⟩]).toJson =
        some ⟨neitherBobNorLight, [⟨personName, .descending⟩]⟩ ∧
      neitherBobNorLight.toJson ≠ (Predicate.not neitherBobNorLight).toJson := by
  have hfinite : neitherBobNorLight.IsFinite := by decide +kernel
  have hnegation : (Predicate.not neitherBobNorLight).IsFinite := by decide +kernel
  have hne : neitherBobNorLight ≠ .not neitherBobNorLight := by
    simp [neitherBobNorLight, Predicate.not, Predicate.or]
  obtain ⟨⟨hpredicate, _, hselection⟩, hdistinct, _⟩ := sent_is_read
  exact ⟨hfinite, hnegation, hpredicate _ hfinite, hselection _ hfinite,
    hdistinct _ _ hfinite hnegation hne⟩

end ContextualQuery
