import ContextualQuery.Catalog.Notation
import ContextualQuery.Proofs.Encoding
import ContextualQuery.Proofs.JsonTexts
import Mathlib.Data.List.Pairwise
import Mathlib.Data.List.Sort
/-!
# Schemas that are written and read again

A schema is made by adding entities and relations one after the other. Its file lists them in the order
of their keys, so the file does not tell in which order they came; and when it is read, they are added
in the order of the list, each behind the others.

* `Register.eq_of_find?`, `Register.insert_comm`, `Register.insertAll_entries`: a register is known by what
  is found in it, entries with different keys may come in either order, and a register is made again from
  its list;
* `FieldType.ofJson?_toJson`, `Field.ofJson?_toJson`, `Entity.ofJson?_toJson`, `Relation.ofJson?_toJson` and
  `Schema.ofJson?_toJson`: each part is read again;
* `Schema.fits_fileOf`: a file nests no deeper than is read, also one that lists entries in another order;
* `schema_read_again`: a schema that has been made is read from its file, and its file tells what is in it
  and nothing else.
-/

namespace ContextualQuery

/-! ## 1. Registers -/

namespace Register

variable {α : Type} {key : α → String} {r s : Register key}

theorem eq_of_entries (h : r.entries = s.entries) : r = s := by
  cases r
  cases s
  cases h
  rfl

/-- Each entry is found under its key. -/
theorem find?_key {a : α} (h : a ∈ r.entries) : r.find? (key a) = some a := by
  have hfind {l : List α} (hl : l.Pairwise (key · < key ·)) (ha : a ∈ l) :
      l.find? (key · == key a) = some a := by
    induction l with
    | nil => cases ha
    | cons b l ih =>
      obtain ⟨hb, hl⟩ := List.pairwise_cons.mp hl
      rcases List.mem_cons.mp ha with rfl | ha
      · exact List.find?_cons_of_pos (beq_self_eq_true _)
      · have hne : key b ≠ key a := Std.ne_of_lt (hb a ha)
        rw [List.find?_cons_of_neg (by rw [beq_eq_false_iff_ne.mpr hne]; decide)]
        exact ih hl ha
  exact hfind r.ordered h

theorem mem_entries_iff {a : α} : a ∈ r.entries ↔ r.find? (key a) = some a :=
  ⟨find?_key, fun h => (mem_of_find? h).1⟩

/-- **A register is known by what is found in it.** -/
theorem eq_of_find? (h : ∀ k, r.find? k = s.find? k) : r = s := by
  have hirrefl : Std.Irrefl fun a b : α => key a < key b := ⟨fun _ => String.lt_irrefl _⟩
  have hantisymm : Std.Antisymm fun a b : α => key a < key b :=
    ⟨fun _ _ hab hba => absurd (String.lt_trans hab hba) (String.lt_irrefl _)⟩
  refine eq_of_entries (List.Subset.antisymm_of_pairwise r.ordered s.ordered ?_ ?_)
  · intro a ha
    rw [mem_entries_iff, ← h]
    exact find?_key ha
  · intro a ha
    rw [mem_entries_iff, h]
    exact find?_key ha

/-- Entries with different keys may come in either order. -/
theorem insert_comm (r : Register key) {a b : α} (h : key a ≠ key b) :
    (r.insert a).insert b = (r.insert b).insert a := by
  refine eq_of_find? fun k => ?_
  rw [find?_insert, find?_insert, find?_insert, find?_insert]
  by_cases ha : key a = k
  · have hb : key b ≠ k := fun hb => h (ha.trans hb.symm)
    rw [if_neg hb, if_pos ha, if_pos ha]
  · rw [if_neg ha, if_neg ha]

/-- An entry whose key comes after all others stands behind them. -/
theorem place_last {a : α} {l : List α} (h : ∀ b ∈ l, key b < key a) : place key a l = l ++ [a] := by
  induction l with
  | nil => rfl
  | cons b l ih =>
    obtain ⟨hb, hl⟩ := List.forall_mem_cons.mp h
    have hlt : ¬ key a < key b := fun hab => String.lt_irrefl _ (String.lt_trans hab hb)
    rw [place, if_neg hlt, if_neg (Std.ne_of_lt hb).symm, ih hl]
    rfl

theorem entries_insertAll {as : List α} (h : (r.entries ++ as).Pairwise (key · < key ·)) :
    (r.insertAll as).entries = r.entries ++ as := by
  induction as generalizing r with
  | nil => exact (List.append_nil _).symm
  | cons a as ih =>
    have hlast : ∀ b ∈ r.entries, key b < key a := fun b hb =>
      (List.pairwise_append.mp h).2.2 b hb a List.mem_cons_self
    have hinsert : (r.insert a).entries = r.entries ++ [a] := place_last hlast
    have hrest : ((r.insert a).entries ++ as).Pairwise (key · < key ·) := by
      rw [hinsert, List.append_assoc]
      exact h
    show ((r.insert a).insertAll as).entries = r.entries ++ a :: as
    rw [ih hrest, hinsert, List.append_assoc]
    rfl

/-- **A register is made again from its list.** -/
theorem insertAll_entries (r : Register key) : empty.insertAll r.entries = r :=
  eq_of_entries (entries_insertAll (r := empty) r.ordered)

end Register

/-! ## 2. Parts of schemas -/

theorem Json.defaulted?_some {α : Type} {default : α} {read : Json → Option α} {j : Json} :
    defaulted? default read (some j) = read j := rfl

theorem FieldType.ofJson?_toJson (t : FieldType) : ofJson? t.toJson = some t := by
  cases t with
  | scalar o s => cases o <;> cases s <;> rfl
  | embedded o entity => cases o <;> rfl
  | enumeration isOptional name variants =>
    have hread : readEnumeration? isOptional
        (.object [("name", .text name), ("variants", .array (variants.map .text))]) =
          some (enumeration isOptional name variants) := by
      show (Json.list? Json.text? (.array (variants.map .text))).bind _ = _
      rw [Json.list?_texts]
      rfl
    cases isOptional <;> exact hread

theorem Field.ofJson?_toJson (f : Field) : ofJson? f.toJson = some f := by
  show (FieldType.ofJson? f.type.toJson).bind _ = some f
  rw [FieldType.ofJson?_toJson]
  rfl

theorem Entity.ofJson?_toJson (e : Entity) : ofJson? e.toJson = some e := by
  show (Json.list? Field.ofJson? (.array (e.fields.map Field.toJson))).bind _ = some e
  rw [Json.list?_map fun f _ => f.ofJson?_toJson]
  rfl

theorem Cardinality.ofJson?_name (c : Cardinality) : ofJson? (.text c.name) = some c := by
  cases c <;> rfl

theorem Relation.ofJson?_toJson (r : Relation) : ofJson? r.toJson = some r := by
  show (Cardinality.ofJson? (.text r.cardinality.name)).bind _ = some r
  rw [Cardinality.ofJson?_name]
  show (Json.nullable? Json.text? (.ofText? r.edgeEntity)).bind _ = some r
  rw [Json.nullable?_ofText?]
  rfl

namespace Schema

theorem readWord?_toNat (n : UInt64) : readWord? (.integer n.toNat) = some n := by
  rw [readWord?, Json.nat?_natCast n.toNat_lt, Option.map_some, UInt64.ofNat_toNat]

theorem foldl_withEntity (s : Schema) (es : List Entity) :
    es.foldl withEntity s = { s with entities := s.entities.insertAll es } := by
  induction es generalizing s with
  | nil => rfl
  | cons e es ih => exact ih (s.withEntity e)

theorem foldl_withRelation (s : Schema) (rs : List Relation) :
    rs.foldl withRelation s = { s with relations := s.relations.insertAll rs } := by
  induction rs generalizing s with
  | nil => rfl
  | cons r rs ih => exact ih (s.withRelation r)

/-- A schema is read from its four fields. -/
theorem ofJson?_fields {j : Json} {version createdAt entities relations : Option Json}
    {v c : UInt64} {es : List Entity} {rs : List Relation}
    (hfields : j.fields? shape.names = some [version, createdAt, entities, relations])
    (hversion : Json.defaulted? 0 readWord? version = some v)
    (hcreatedAt : Json.defaulted? 0 readWord? createdAt = some c)
    (hentities : Json.defaulted? [] (Json.list? Entity.ofJson?) entities = some es)
    (hrelations : Json.defaulted? [] (Json.list? Relation.ofJson?) relations = some rs) :
    ofJson? j = some ⟨v, c, Register.empty.insertAll es, Register.empty.insertAll rs⟩ := by
  unfold ofJson?
  rw [hfields]
  simp only [Option.bind_eq_bind, Option.bind_some, hversion, hcreatedAt, hentities, hrelations,
    foldl_withEntity, foldl_withRelation]
  rfl

/-- The JSON of a schema file that lists entities and relations in any order, also several under one key. -/
def fileOf (version createdAt : UInt64) (es : List Entity) (rs : List Relation) : Json :=
  .object [("version", .integer version.toNat), ("created_at", .integer createdAt.toNat),
    ("entities", .array (es.map Entity.toJson)), ("relations", .array (rs.map Relation.toJson))]

theorem ofJson?_fileOf (version createdAt : UInt64) (es : List Entity) (rs : List Relation) :
    ofJson? (fileOf version createdAt es rs) =
      some ⟨version, createdAt, Register.empty.insertAll es, Register.empty.insertAll rs⟩ := by
  have hfields : (fileOf version createdAt es rs).fields? shape.names =
      some [some (.integer version.toNat), some (.integer createdAt.toNat),
        some (.array (es.map Entity.toJson)), some (.array (rs.map Relation.toJson))] := rfl
  exact ofJson?_fields hfields
    (Json.defaulted?_some.trans (readWord?_toNat version))
    (Json.defaulted?_some.trans (readWord?_toNat createdAt))
    (Json.defaulted?_some.trans (Json.list?_map fun e _ => e.ofJson?_toJson))
    (Json.defaulted?_some.trans (Json.list?_map fun r _ => r.ofJson?_toJson))

theorem toJson_eq_fileOf (s : Schema) :
    s.toJson = fileOf s.version s.createdAt s.entities.entries s.relations.entries := rfl

/-- **A schema is read from its JSON.** -/
theorem ofJson?_toJson (s : Schema) : ofJson? s.toJson = some s := by
  rw [toJson_eq_fileOf, ofJson?_fileOf, Register.insertAll_entries, Register.insertAll_entries]

end Schema

/-! ## 3. Depths of files -/

namespace Json

theorem IsPlain.fits {j : Json} (h : j.IsPlain) (depth : Nat) (shape : Shape) : Fits depth shape j := by
  cases depth <;> cases j <;> first | exact h | cases h

theorem fits_text (name : String) (depth : Nat) (shape : Shape) : Fits depth shape (.text name) :=
  have h : (text name).IsPlain := trivial
  h.fits depth shape

theorem fits_bool (b : Bool) (depth : Nat) (shape : Shape) : Fits depth shape (.bool b) :=
  have h : (bool b).IsPlain := trivial
  h.fits depth shape

theorem plain_ofText? (o : Option String) : (ofText? o).IsPlain := by
  cases o <;> trivial

theorem plain_word (n : UInt64) : (integer n.toNat).IsPlain := ⟨n.toNat, n.toNat_lt, rfl⟩

/-- A list fits if its items do. -/
theorem fits_map {α : Type} {write : α → Json} {as : List α} {depth : Nat} {shape : Shape}
    (h : ∀ i, ∀ a ∈ as, Fits depth (shape.item i) (write a)) :
    Fits (depth + 1) shape (.array (as.map write)) := by
  intro i j hj
  rw [List.getElem?_map] at hj
  obtain ⟨a, ha, rfl⟩ := Option.map_eq_some_iff.mp hj
  exact h i a (List.mem_of_getElem? ha)

theorem fits_texts (names : List String) (depth : Nat) : Fits (depth + 1) .whole (.array (names.map .text)) :=
  fits_map fun _ _ _ => fits_text _ _ _

end Json

theorem FieldType.fits_toJson (t : FieldType) (depth : Nat) :
    Json.Fits (depth + 3) shape t.toJson := by
  refine List.forall_mem_singleton.mpr ?_
  cases t with
  | scalar o s => cases o <;> exact ⟨.whole, rfl, Json.fits_text _ _ _⟩
  | enumeration isOptional name variants =>
    have hcontent : Json.Fits (depth + 2) enumerationShape
        (.object [("name", .text name), ("variants", .array (variants.map .text))]) :=
      List.forall_mem_cons.mpr ⟨⟨.whole, rfl, Json.fits_text _ _ _⟩,
        List.forall_mem_singleton.mpr ⟨.whole, rfl, Json.fits_texts variants depth⟩⟩
    cases isOptional <;> exact ⟨enumerationShape, rfl, hcontent⟩
  | embedded o entity =>
    have hcontent : Json.Fits (depth + 2) embeddedShape (.object [("entity", .text entity)]) :=
      List.forall_mem_singleton.mpr ⟨.whole, rfl, Json.fits_text _ _ _⟩
    cases o <;> exact ⟨embeddedShape, rfl, hcontent⟩

theorem Field.fits_toJson (f : Field) (depth : Nat) : Json.Fits (depth + 4) shape f.toJson := by
  refine List.forall_mem_cons.mpr ⟨⟨.whole, rfl, Json.fits_text _ _ _⟩, ?_⟩
  refine List.forall_mem_cons.mpr ⟨⟨FieldType.shape, rfl, f.type.fits_toJson depth⟩, ?_⟩
  exact List.forall_mem_singleton.mpr ⟨.whole, rfl, Json.fits_bool _ _ _⟩

theorem Entity.fits_toJson (e : Entity) (depth : Nat) : Json.Fits (depth + 6) shape e.toJson := by
  refine List.forall_mem_cons.mpr ⟨⟨.whole, rfl, Json.fits_text _ _ _⟩, ?_⟩
  refine List.forall_mem_cons.mpr ⟨⟨.whole, rfl, Json.fits_text _ _ _⟩, ?_⟩
  exact List.forall_mem_singleton.mpr
    ⟨.list Field.shape, rfl, Json.fits_map fun _ f _ => f.fits_toJson depth⟩

theorem Relation.fits_toJson (r : Relation) (depth : Nat) : Json.Fits (depth + 1) shape r.toJson := by
  have hplain : ∀ m ∈ [("name", Json.text r.name), ("from_entity", .text r.fromEntity),
      ("to_entity", .text r.toEntity), ("cardinality", .text r.cardinality.name),
      ("from_field", .text r.fromField), ("to_field", .text r.toField),
      ("edge_entity", .ofText? r.edgeEntity)],
      shape.member? m.1 = some .whole ∧ m.2.IsPlain := by
    simp only [List.forall_mem_cons]
    exact ⟨⟨rfl, trivial⟩, ⟨rfl, trivial⟩, ⟨rfl, trivial⟩, ⟨rfl, trivial⟩, ⟨rfl, trivial⟩,
      ⟨rfl, trivial⟩, ⟨rfl, Json.plain_ofText? _⟩, nofun⟩
  exact fun m hm => ⟨.whole, (hplain m hm).1, (hplain m hm).2.fits _ _⟩

/-- **A schema file nests eight deep.** -/
theorem Schema.fits_fileOf (version createdAt : UInt64) (es : List Entity) (rs : List Relation) (depth : Nat) :
    Json.Fits (depth + 8) shape (fileOf version createdAt es rs) := by
  refine List.forall_mem_cons.mpr ⟨⟨.whole, rfl, (Json.plain_word _).fits _ _⟩, ?_⟩
  refine List.forall_mem_cons.mpr ⟨⟨.whole, rfl, (Json.plain_word _).fits _ _⟩, ?_⟩
  refine List.forall_mem_cons.mpr ⟨⟨.list Entity.shape, rfl, ?_⟩, ?_⟩
  · exact Json.fits_map fun _ e _ => e.fits_toJson depth
  · exact List.forall_mem_singleton.mpr
      ⟨.list Relation.shape, rfl, Json.fits_map fun _ r _ => r.fits_toJson (depth + 5)⟩

/-! ## 4. Files -/

namespace Schema

theorem readAs?_fileOf (version createdAt : UInt64) (es : List Entity) (rs : List Relation) :
    Json.readAs? shape (fileOf version createdAt es rs).pretty = some (fileOf version createdAt es rs) :=
  Json.readAs?_pretty (fits_fileOf version createdAt es rs 119)

/-- Of entries under one key the last one is read. -/
theorem read?_fileOf (version createdAt : UInt64) (es : List Entity) (rs : List Relation) :
    read? (fileOf version createdAt es rs).pretty =
      some ⟨version, createdAt, Register.empty.insertAll es, Register.empty.insertAll rs⟩ := by
  rw [read?, readAs?_fileOf, Option.bind_some, ofJson?_fileOf]

/-- **A schema is read from its file.** -/
theorem read?_write (s : Schema) : read? s.write = some s := by
  rw [write, toJson_eq_fileOf, read?_fileOf, Register.insertAll_entries, Register.insertAll_entries]

/-- A schema that is read from its file is accepted if it is valid. -/
theorem read_write (s : Schema) : read s.write = s.checked := by
  rw [read, read?_write]
  rfl

/-- The files of schemas in which the same is found are the same. -/
theorem write_eq_of_find? {s t : Schema} (hversion : s.version = t.version)
    (hcreatedAt : s.createdAt = t.createdAt)
    (hentities : ∀ name, s.entities.find? name = t.entities.find? name)
    (hrelations : ∀ key, s.relations.find? key = t.relations.find? key) : s.write = t.write := by
  have he : s = t := by
    cases s
    cases t
    cases hversion
    cases hcreatedAt
    cases Register.eq_of_find? hentities
    cases Register.eq_of_find? hrelations
    rfl
  rw [he]

/-! ## 5. Schemas that are made -/

/-- What can be added to a schema. -/
inductive Addition
  | entity (e : Entity)
  | relation (r : Relation)

/-- Two additions that do not come to the same place. -/
def Addition.Apart : Addition → Addition → Prop
  | entity e, entity f => e.name ≠ f.name
  | relation r, relation s => r.key ≠ s.key
  | _, _ => True

/-- Makes one addition. -/
def add (s : Schema) : Addition → Schema
  | .entity e => s.withEntity e
  | .relation r => s.withRelation r

/-- The schema that is made from nothing by some additions, one after the other. -/
def made (version createdAt : UInt64) (additions : List Addition) : Schema :=
  additions.foldl add (empty version createdAt)

theorem add_comm (s : Schema) {a b : Addition} (h : a.Apart b) : (s.add a).add b = (s.add b).add a := by
  cases a with
  | entity e =>
    cases b with
    | entity f =>
      show { s with entities := (s.entities.insert e).insert f } =
        { s with entities := (s.entities.insert f).insert e }
      rw [Register.insert_comm s.entities h]
    | relation r => rfl
  | relation r =>
    cases b with
    | entity f => rfl
    | relation t =>
      show { s with relations := (s.relations.insert r).insert t } =
        { s with relations := (s.relations.insert t).insert r }
      rw [Register.insert_comm s.relations h]

instance : Std.Symm Addition.Apart where
  symm a b h := by cases a <;> cases b <;> first | exact Ne.symm h | trivial

theorem stamps_made (version createdAt : UInt64) (as : List Addition) :
    (made version createdAt as).version = version ∧ (made version createdAt as).createdAt = createdAt := by
  have hfold : ∀ s : Schema, (as.foldl add s).version = s.version ∧
      (as.foldl add s).createdAt = s.createdAt := by
    induction as with
    | nil => exact fun _ => ⟨rfl, rfl⟩
    | cons a as ih =>
      intro s
      obtain ⟨hversion, hcreatedAt⟩ := ih (s.add a)
      rw [List.foldl_cons, hversion, hcreatedAt]
      cases a <;> exact ⟨rfl, rfl⟩
  exact hfold _

/-- **Additions to different places may come in any order.** -/
theorem made_perm {version createdAt : UInt64} {as bs : List Addition} (h : as.Perm bs)
    (hapart : as.Pairwise Addition.Apart) : made version createdAt as = made version createdAt bs := by
  refine h.foldl_eq' (fun a ha b hb s => ?_) _
  by_cases he : a = b
  · rw [he]
  · exact add_comm s (hapart.forall ha hb he)

/-- **What a schema file tells.** A schema that is made by any additions is read from its file, and accepted
if it is valid. Schemas in which the same is found have the same file, and so have those that are made by
the same additions to different places, in whatever order they come. -/
theorem schema_read_again (version createdAt : UInt64) (additions : List Addition) :
    read? (made version createdAt additions).write = some (made version createdAt additions) ∧
    ((made version createdAt additions).isValid = true →
      read (made version createdAt additions).write = .ok (made version createdAt additions)) ∧
    (∀ t : Schema, t.version = version → t.createdAt = createdAt →
      (∀ name, t.entities.find? name = (made version createdAt additions).entities.find? name) →
      (∀ key, t.relations.find? key = (made version createdAt additions).relations.find? key) →
      t.write = (made version createdAt additions).write) ∧
    ∀ others, additions.Perm others → additions.Pairwise Addition.Apart →
      (made version createdAt others).write = (made version createdAt additions).write := by
  have hstamps : (made version createdAt additions).version = version ∧
      (made version createdAt additions).createdAt = createdAt := stamps_made version createdAt additions
  refine ⟨read?_write _, fun hvalid => ?_, ?_, fun others hperm hapart => ?_⟩
  · rw [read_write, checked, Option.isNone_iff_eq_none.mp hvalid]
  · intro t hversion hcreatedAt hentities hrelations
    exact write_eq_of_find? (hversion.trans hstamps.1.symm) (hcreatedAt.trans hstamps.2.symm)
      hentities hrelations
  · rw [made_perm hperm hapart]

end Schema

/-- Persons with a state and addresses, and whom they know. -/
def acquaintances : List Schema.Addition :=
  [.entity ⟨"Person", "name", [⟨"name", .scalar .one .string, true⟩,
      ⟨"state", .enumeration true "State" ["active", "retired"], false⟩,
      ⟨"addresses", .embedded .many "Address", false⟩]⟩,
    .relation ⟨"friends", "Person", "Person", .manyToMany, "name", "name", some "Friendship"⟩,
    .entity ⟨"Address", "", [⟨"city", .scalar .optional .string, false⟩]⟩]

/-- Their schema is valid and read again, and its file is the same when the additions are made backwards. -/
theorem acquaintances_read_again :
    (Schema.made 3 7 acquaintances).isValid = true ∧
      Schema.read (Schema.made 3 7 acquaintances).write = .ok (Schema.made 3 7 acquaintances) ∧
      acquaintances.Perm acquaintances.reverse ∧ acquaintances.Pairwise Schema.Addition.Apart ∧
      (Schema.made 3 7 acquaintances.reverse).write = (Schema.made 3 7 acquaintances).write := by
  have hvalid : (Schema.made 3 7 acquaintances).isValid = true := by decide +kernel
  have hperm : acquaintances.Perm acquaintances.reverse := (List.reverse_perm _).symm
  have hapart : acquaintances.Pairwise Schema.Addition.Apart := by
    simp [acquaintances, Schema.Addition.Apart]
  obtain ⟨_, hread, _, horder⟩ := Schema.schema_read_again 3 7 acquaintances
  exact ⟨hvalid, hread hvalid, hperm, hapart, horder _ hperm hapart⟩

end ContextualQuery
