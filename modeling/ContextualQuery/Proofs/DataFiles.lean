import ContextualQuery.Proofs.Ordering
import ContextualQuery.Proofs.Planning
import ContextualQuery.Proofs.Reading
import ContextualQuery.Store.Loading
import Mathlib.Algebra.Ring.Nat
/-!
# Loading data files

A data file is read first and added then, so a file with a fault anywhere in it leaves no trace.

* `Json.ordered_eq_object_iff`: an object in order has the members of its dictionary, each in order;
* `Record.Inside`: the objects in a record that are read as records themselves, at any depth, and
  `Record.exists_ofJson_of_inside`: each of them is read if the record is;
* `Batch.ofJson_eq_ok_iff`: what it takes that a data file is read, and what is read then;
* `Store.rows_add`: a batch changes the tables that it names, each by what it has for it;
* `Loading`: loading as a procedure on a store, which would not undo what it did before a failure, and
  `run_ofJson`: what it leaves behind;
* `load_atomic_and_exact` puts these together.
-/

namespace ContextualQuery

/-! ## 1. Members of objects -/

/-- There is a list of partners exactly if each has a partner. -/
theorem exists_forall₂_iff {α β : Type} {R : α → β → Prop} {as : List α} :
    (∃ bs, List.Forall₂ R as bs) ↔ ∀ a ∈ as, ∃ b, R a b := by
  induction as with
  | nil => exact ⟨fun _ => nofun, fun _ => ⟨[], .nil⟩⟩
  | cons a as ih =>
    rw [List.forall_mem_cons, ← ih]
    constructor
    · rintro ⟨_, h⟩
      cases h with
      | cons hb hbs => exact ⟨⟨_, hb⟩, _, hbs⟩
    · rintro ⟨⟨b, hb⟩, bs, hbs⟩
      exact ⟨b :: bs, .cons hb hbs⟩

namespace Dictionary

variable {α β : Type}

theorem insert_map (g : α → β) (name : String) (a : α) (d : Dictionary α) :
    insert name (g a) (d.map fun e => (e.1, g e.2)) = (insert name a d).map fun e => (e.1, g e.2) := by
  induction d with
  | nil => rfl
  | cons e d ih =>
    obtain ⟨other, b⟩ := e
    rw [List.map_cons, insert, insert, ih]
    split
    · rfl
    · split <;> rfl

/-- Changing what stands under the names goes with making a dictionary. -/
theorem ofList_map (g : α → β) (entries : List (String × α)) :
    ofList (entries.map fun e => (e.1, g e.2)) = (ofList entries).map fun e => (e.1, g e.2) := by
  have hfold (d : Dictionary α) :
      (entries.map fun e => (e.1, g e.2)).foldl (fun d e => insert e.1 e.2 d) (d.map fun e => (e.1, g e.2)) =
        (entries.foldl (fun d e => insert e.1 e.2 d) d).map fun e => (e.1, g e.2) := by
    induction entries generalizing d with
    | nil => rfl
    | cons e entries ih =>
      simp only [List.map_cons, List.foldl_cons, insert_map, ih]
  exact hfold []

theorem find?_eq_none {name : String} {d : Dictionary α} (h : name ∉ d.names) : d.find? name = none := by
  induction d with
  | nil => rfl
  | cons e d ih =>
    obtain ⟨other, b⟩ := e
    have hne : other ≠ name := fun he => h (he ▸ List.mem_cons_self)
    rw [find?, if_neg hne]
    exact ih fun hn => h (List.mem_cons_of_mem _ hn)

theorem Sorted.find?_eq_some {name : String} {a : α} {d : Dictionary α} (hs : Sorted d)
    (h : (name, a) ∈ d) : d.find? name = some a := by
  induction d with
  | nil => cases h
  | cons e d ih =>
    obtain ⟨other, b⟩ := e
    obtain ⟨hother, hd⟩ := sorted_cons_iff.mp hs
    rcases List.mem_cons.mp h with he | h
    · cases he
      rw [find?, if_pos rfl]
    · have hlt : other < name := hother name (List.mem_map_of_mem h)
      have hne : other ≠ name := fun he => String.lt_irrefl name (he ▸ hlt)
      rw [find?, if_neg hne]
      exact ih hd h

end Dictionary

namespace Json

theorem orderedItems_eq_map (items : List Json) : orderedItems items = items.map ordered := by
  induction items with
  | nil => rw [orderedItems, List.map_nil]
  | cons j items ih => rw [orderedItems, List.map_cons, ih]

theorem orderedMembers_eq_map (members : List (String × Json)) :
    orderedMembers members = members.map fun m => (m.1, m.2.ordered) := by
  induction members with
  | nil => rw [orderedMembers, List.map_nil]
  | cons m members ih =>
    obtain ⟨name, j⟩ := m
    rw [orderedMembers, List.map_cons, ih]

theorem ordered_eq_array_iff {j : Json} {items : List Json} :
    j.ordered = .array items ↔ ∃ js, j = .array js ∧ items = js.map ordered := by
  cases j with
  | array js =>
    rw [ordered, orderedItems_eq_map]
    constructor
    · intro h
      cases h
      exact ⟨js, rfl, rfl⟩
    · rintro ⟨_, h, rfl⟩
      cases h
      rfl
  | object members =>
    rw [ordered]
    exact ⟨nofun, nofun⟩
  | _ => exact ⟨nofun, nofun⟩

/-- An object in order has the members of its dictionary, each in order itself. -/
theorem ordered_eq_object_iff {j : Json} {members : List (String × Json)} :
    j.ordered = .object members ↔
      ∃ d, j.members? = some d ∧ members = d.map fun m => (m.1, m.2.ordered) := by
  cases j with
  | object ms =>
    rw [ordered, orderedMembers_eq_map, Dictionary.ofList_map]
    constructor
    · intro h
      cases h
      exact ⟨_, rfl, rfl⟩
    · rintro ⟨_, h, rfl⟩
      cases h
      rfl
  | array items =>
    rw [ordered]
    exact ⟨nofun, nofun⟩
  | _ => exact ⟨nofun, nofun⟩

theorem sorted_members {j : Json} {d : Dictionary Json} (h : j.members? = some d) : Dictionary.Sorted d := by
  cases j with
  | object members =>
    cases h
    exact Dictionary.sorted_ofList members
  | _ => cases h

end Json

/-! ## 2. Records inside records -/

namespace Record

variable {s : Schema}

/-- Every member of an object that is read has been read. -/
theorem exists_readDatum_of_mem {e : Entity} {members : List (String × Json)} {r : Record}
    (h : readMembers s e members = .ok r) {name : String} {j : Json} (hm : (name, j) ∈ members) {f : Field}
    (hf : e.field? name = some f) : ∃ d, readDatum s (e.name ++ "." ++ name) f.type false j = .ok d := by
  induction members generalizing r with
  | nil => cases hm
  | cons m members ih =>
    obtain ⟨name', j'⟩ := m
    obtain ⟨f', d, r', hf', hd, hrest, _⟩ := readMembers_cons_eq_ok_iff.mp h
    rcases List.mem_cons.mp hm with he | hm
    · cases he
      cases hf.symm.trans hf'
      exact ⟨d, hd⟩
    · exact ih hrest hm

theorem exists_readDatum_of_mem_items {context : String} {type : FieldType} {items : List Json} {ds : List Datum}
    (h : readItems s context type items = .ok ds) {j : Json} (hj : j ∈ items) :
    ∃ d, readDatum s context type true j = .ok d := by
  induction items generalizing ds with
  | nil => cases hj
  | cons j' items ih =>
    obtain ⟨d, ds', hd, hrest, _⟩ := readItems_cons_eq_ok_iff.mp h
    rcases List.mem_cons.mp hj with rfl | hj
    · exact ⟨d, hd⟩
    · exact ih hrest hj

/-- What is read as an object is read as a record of the entity of the objects. -/
theorem exists_ofOrdered_of_readDatum {context target : String} {type : FieldType} {inList : Bool} {j : Json}
    {d : Datum} (hc : type.content = .objects target) (hlist : (type.isArray && !inList) = false)
    (hnull : j = .null → inList = true) (h : readDatum s context type inList j = .ok d) :
    ∃ r, ofOrdered s target j = .ok r := by
  have hleaf (hj : j.Leaf) : ∃ r, ofOrdered s target j = .ok r := by
    rcases (readDatum_leaf_eq_ok_iff hj).mp h with ⟨hn, _, hvalues⟩ | ⟨_, dom, v, hvalues, _⟩
    · obtain ⟨dom, hvalues⟩ := hvalues (hnull hn)
      cases hc.symm.trans hvalues
    · cases hc.symm.trans hvalues
  cases j with
  | object members =>
    obtain ⟨_, target', e, r, hc', he, hr, _⟩ := readDatum_object_eq_ok_iff.mp h
    cases hc.symm.trans hc'
    exact ⟨r, ofOrdered_eq_ok_iff.mpr ⟨e, members, he, rfl, hr⟩⟩
  | array items =>
    obtain ⟨htrue, _⟩ := readDatum_array_eq_ok_iff.mp h
    cases hlist.symm.trans htrue
  | null => exact hleaf .null
  | bool b => exact hleaf (.bool b)
  | integer n => exact hleaf (.integer n)
  | double x => exact hleaf (.double x)
  | text t => exact hleaf (.text t)

/-- The content of a field stands for an object: it is the object, or the field holds a list with it. -/
inductive StandsFor (type : FieldType) : Json → Json → Prop
  | one {j : Json} (single : type.isArray = false) (hnull : j ≠ .null) : StandsFor type j j
  | item {items : List Json} {j : Json} (many : type.isArray = true) (hj : j ∈ items) :
      StandsFor type (.array items) j

/-- What is read as a record of an entity when a record is: the record itself, and the objects in it, at any
depth. -/
inductive Inside (s : Schema) (entity : String) (j : Json) : String → Json → Prop
  | whole : Inside s entity j entity j
  | part {outer target name : String} {k content inner : Json} {e : Entity} {d : Dictionary Json} {f : Field}
      (h : Inside s entity j outer k) (he : s.entity? outer = some e) (hd : k.members? = some d)
      (hm : (name, content) ∈ d) (hf : e.field? name = some f) (hc : f.type.content = .objects target)
      (hi : StandsFor f.type content inner) : Inside s entity j target inner

/-- **Where a record is read, each object in it is read.** -/
theorem exists_ofJson_of_inside {entity entity' : String} {j j' : Json} (h : Inside s entity j entity' j')
    (hj : ∃ r, ofJson s entity j = .ok r) : ∃ r, ofJson s entity' j' = .ok r := by
  induction h with
  | whole => exact hj
  | @part outer target name k content inner e d f _ he hd hm hf hc hi ih =>
    obtain ⟨r, hr⟩ := ih
    obtain ⟨e', members, he', hk, hr⟩ := ofOrdered_eq_ok_iff.mp hr
    cases he.symm.trans he'
    obtain ⟨d', hd', rfl⟩ := Json.ordered_eq_object_iff.mp hk
    cases hd.symm.trans hd'
    have hmem : (name, content.ordered) ∈ d.map fun m => (m.1, m.2.ordered) := List.mem_map_of_mem hm
    obtain ⟨datum, hdatum⟩ := exists_readDatum_of_mem hr hmem hf
    cases hi with
    | one single hnull =>
      refine exists_ofOrdered_of_readDatum hc (by rw [single]; rfl) (fun hn => ?_) hdatum
      cases content <;> first | exact absurd rfl hnull | (rw [Json.ordered] at hn <;> cases hn)
    | @item items _ many hj =>
      rw [Json.ordered, Json.orderedItems_eq_map] at hdatum
      obtain ⟨_, ds, hitems, _⟩ := readDatum_array_eq_ok_iff.mp hdatum
      obtain ⟨datum', hdatum'⟩ := exists_readDatum_of_mem_items hitems (List.mem_map_of_mem hj)
      exact exists_ofOrdered_of_readDatum hc (by rw [Bool.not_true, Bool.and_false]) (fun _ => rfl) hdatum'

end Record

/-! ## 3. Reading a data file -/

namespace Batch

variable {s : Schema}

/-- The records that the rows of an entity are read as, in their order. -/
def AreRead (s : Schema) (entity : String) (rows : List Json) (rs : List Record) : Prop :=
  List.Forall₂ (fun row r => Record.ofJson s entity row = .ok r) rows rs

/-- The rows of an entity are an array, and are read as its records. -/
structure TableIsRead (s : Schema) (table : String × Json) (records : String × List Record) : Prop where
  name : records.1 = table.1
  rows : ∃ rows, table.2 = .array rows ∧ AreRead s table.1 rows records.2

theorem readRows_ordered_eq_ok_iff {entity : String} {j : Json} {rs : List Record} :
    readRows s entity j.ordered = .ok rs ↔ ∃ rows, j = .array rows ∧ AreRead s entity rows rs := by
  constructor
  · intro h
    cases hj : j.ordered with
    | array items =>
      obtain ⟨rows, rfl, rfl⟩ := Json.ordered_eq_array_iff.mp hj
      rw [hj] at h
      exact ⟨rows, rfl, List.forall₂_map_left_iff.mp (mapM_eq_ok_iff.mp h)⟩
    | _ =>
      rw [hj] at h
      cases h
  · rintro ⟨rows, rfl, h⟩
    rw [Json.ordered, Json.orderedItems_eq_map]
    exact mapM_eq_ok_iff.mpr (List.forall₂_map_left_iff.mpr h)

theorem readTables_cons_eq_ok_iff {entity : String} {j : Json} {tables : List (String × Json)} {b : Batch} :
    readTables s ((entity, j) :: tables) = .ok b ↔
      ∃ rs b', readRows s entity j = .ok rs ∧ readTables s tables = .ok b' ∧ b = (entity, rs) :: b' := by
  rw [readTables]
  cases readRows s entity j with
  | error f => exact ⟨nofun, nofun⟩
  | ok rs =>
    simp only [map_eq_ok_iff]
    constructor
    · rintro ⟨b', hb, rfl⟩
      exact ⟨rs, b', rfl, hb, rfl⟩
    · rintro ⟨_, b', h, hb, rfl⟩
      cases h
      exact ⟨b', hb, rfl⟩

theorem readTables_ordered_eq_ok_iff {tables : List (String × Json)} {b : Batch} :
    readTables s (tables.map fun m => (m.1, m.2.ordered)) = .ok b ↔ List.Forall₂ (TableIsRead s) tables b := by
  induction tables generalizing b with
  | nil =>
    rw [List.map_nil, readTables, List.forall₂_nil_left_iff]
    constructor
    · intro h
      cases h
      rfl
    · rintro rfl
      rfl
  | cons m tables ih =>
    rw [List.map_cons, readTables_cons_eq_ok_iff, List.forall₂_cons_left_iff]
    simp only [readRows_ordered_eq_ok_iff, ih]
    constructor
    · rintro ⟨rs, b', hrows, hb, rfl⟩
      exact ⟨(m.1, rs), b', ⟨rfl, hrows⟩, hb, rfl⟩
    · rintro ⟨⟨_, rs⟩, b', ⟨rfl, hrows⟩, hb, rfl⟩
      exact ⟨rs, b', hrows, hb, rfl⟩

/-- **A data file is read exactly if it is an object with an array for each entity, every row of which is
read as a record.** -/
theorem ofJson_eq_ok_iff {j : Json} {b : Batch} :
    ofJson s j = .ok b ↔ ∃ d, j.members? = some d ∧ List.Forall₂ (TableIsRead s) d b := by
  unfold ofJson
  constructor
  · intro h
    cases hj : j.ordered with
    | object members =>
      obtain ⟨d, hd, rfl⟩ := Json.ordered_eq_object_iff.mp hj
      rw [hj] at h
      exact ⟨d, hd, readTables_ordered_eq_ok_iff.mp h⟩
    | _ =>
      rw [hj] at h
      cases h
  · rintro ⟨d, hd, h⟩
    rw [Json.ordered_eq_object_iff.mpr ⟨d, hd, rfl⟩]
    exact readTables_ordered_eq_ok_iff.mpr h

theorem exists_tableIsRead_iff {entity : String} {content : Json} :
    (∃ e, TableIsRead s (entity, content) e) ↔
      ∃ rows, content = .array rows ∧ ∀ row ∈ rows, ∃ r, Record.ofJson s entity row = .ok r := by
  constructor
  · rintro ⟨e, _, rows, hrows, h⟩
    exact ⟨rows, hrows, exists_forall₂_iff.mp ⟨e.2, h⟩⟩
  · rintro ⟨rows, hrows, h⟩
    obtain ⟨rs, hrs⟩ := exists_forall₂_iff.mpr h
    exact ⟨(entity, rs), rfl, rows, hrows, hrs⟩

/-- What may be wrong with a data file: it is no object, the rows of an entity are no array, or an object in
one of the rows, at any depth, is not read as a record. -/
inductive Faulty (s : Schema) (j : Json) : Prop
  | notTables (h : j.members? = none)
  | notRows {d : Dictionary Json} {entity : String} {content : Json} (hd : j.members? = some d)
      (hm : (entity, content) ∈ d) (h : ∀ rows, content ≠ .array rows)
  | record {d : Dictionary Json} {entity entity' : String} {rows : List Json} {row inner : Json} {f : DataFault}
      (hd : j.members? = some d) (hm : (entity, .array rows) ∈ d) (hrow : row ∈ rows)
      (hi : Record.Inside s entity row entity' inner) (h : Record.ofJson s entity' inner = .error f)

theorem exists_ofJson_iff {j : Json} :
    (∃ b, ofJson s j = .ok b) ↔ ∃ d, j.members? = some d ∧ ∀ m ∈ d,
      ∃ rows, m.2 = .array rows ∧ ∀ row ∈ rows, ∃ r, Record.ofJson s m.1 row = .ok r := by
  simp only [ofJson_eq_ok_iff, ← exists_tableIsRead_iff]
  constructor
  · rintro ⟨b, d, hd, h⟩
    exact ⟨d, hd, exists_forall₂_iff.mp ⟨b, h⟩⟩
  · rintro ⟨d, hd, h⟩
    obtain ⟨b, hb⟩ := exists_forall₂_iff.mpr h
    exact ⟨b, d, hd, hb⟩

/-- A data file in which nothing is wrong is read. -/
theorem exists_ofJson_of_not_faulty {j : Json} (h : ¬ Faulty s j) : ∃ b, ofJson s j = .ok b := by
  cases hd : j.members? with
  | none => exact absurd (.notTables hd) h
  | some d =>
    refine exists_ofJson_iff.mpr ⟨d, hd, fun m hm => ?_⟩
    obtain ⟨rows, hrows⟩ : ∃ rows, m.2 = .array rows := by
      by_contra hno
      exact h (.notRows hd hm fun rows he => hno ⟨rows, he⟩)
    refine ⟨rows, hrows, fun row hrow => ?_⟩
    cases hr : Record.ofJson s m.1 row with
    | ok r => exact ⟨r, rfl⟩
    | error f => exact absurd (.record hd (hrows ▸ hm) hrow .whole hr) h

/-- A data file that is read has nothing wrong in it. -/
theorem not_faulty_of_ofJson {j : Json} {b : Batch} (hb : ofJson s j = .ok b) : ¬ Faulty s j := by
  obtain ⟨d, hd, hall⟩ := exists_ofJson_iff.mp ⟨b, hb⟩
  intro h
  cases h with
  | notTables h => cases hd.symm.trans h
  | notRows hd' hm h =>
    cases hd.symm.trans hd'
    obtain ⟨rows, hrows, _⟩ := hall _ hm
    exact h rows hrows
  | record hd' hm hrow hi h =>
    cases hd.symm.trans hd'
    obtain ⟨rows, hrows, hrecords⟩ := hall _ hm
    cases hrows
    obtain ⟨r, hr⟩ := Record.exists_ofJson_of_inside hi (hrecords _ hrow)
    cases hr.symm.trans h

/-- **A data file is not read exactly if it has a fault somewhere.** -/
theorem exists_fault_iff {j : Json} : (∃ f, ofJson s j = .error f) ↔ Faulty s j := by
  constructor
  · rintro ⟨f, hf⟩
    by_contra h
    obtain ⟨b, hb⟩ := exists_ofJson_of_not_faulty h
    cases hf.symm.trans hb
  · intro h
    cases ho : ofJson s j with
    | error f => exact ⟨f, rfl⟩
    | ok b => exact absurd h (not_faulty_of_ofJson ho)

end Batch

/-! ## 4. Adding a batch -/

namespace Store

/-- **A batch changes the tables that it names, each by what it has for it.** -/
theorem rows_add {b : Batch} (hb : Dictionary.Sorted b) (st : Store) (entity : String) :
    (st.add b).rows entity = st.rows entity ++ (Dictionary.find? entity b).getD [] := by
  induction b generalizing st with
  | nil => exact (List.append_nil _).symm
  | cons e b ih =>
    obtain ⟨name, rs⟩ := e
    obtain ⟨hname, hb⟩ := Dictionary.sorted_cons_iff.mp hb
    have hadd : st.add ((name, rs) :: b) = (st.extend name rs).add b := rfl
    rw [hadd, ih hb, rows_extend, Dictionary.find?]
    by_cases he : name = entity
    · subst he
      have hnone : Dictionary.find? name b = none :=
        Dictionary.find?_eq_none fun hn => String.lt_irrefl name (hname name hn)
      rw [if_pos rfl, if_pos rfl, hnone]
      exact List.append_nil _
    · rw [if_neg he, if_neg he]

/-- What a data file adds to a store: to the table of each entity in it the records that its rows are read as,
in the order of the rows, and to the other tables nothing. -/
structure Grows (s : Schema) (d : Dictionary Json) (st st' : Store) (n : Nat) : Prop where
  mentioned : ∀ entity rows, (entity, .array rows) ∈ d →
    ∃ rs, Batch.AreRead s entity rows rs ∧ st'.rows entity = st.rows entity ++ rs
  arrays : ∀ m ∈ d, ∃ rows, m.2 = .array rows
  others : ∀ entity, entity ∉ d.names → st'.rows entity = st.rows entity
  total : n = (d.map fun m => st'.size m.1 - st.size m.1).sum

end Store

/-! ## 5. Loading as a procedure -/

/-- A procedure on a store. It may fail, and what it did to the store before is not undone then. -/
abbrev Loading (α : Type) := ExceptT DataFault (StateM Store) α

namespace Loading

variable {α β : Type} {s : Schema}

/-- Reads the rows of an entity, one after the other. -/
def rows (s : Schema) (entity : String) : List Json → Loading (List Record)
  | [] => return []
  | row :: rest => do
    let r ← MonadExcept.ofExcept (Record.ofOrdered s entity row)
    let rs ← rows s entity rest
    return r :: rs

/-- Reads the tables of a data file, one after the other. -/
def stage (s : Schema) : List (String × Json) → Loading Batch
  | [] => return []
  | (entity, .array items) :: rest => do
    let rs ← rows s entity items
    let staged ← stage s rest
    return (entity, rs) :: staged
  | (entity, _) :: _ => throw (.notRows entity)

/-- Adds the records of a batch, one table after the other. -/
def commit : Batch → Loading Unit
  | [] => return ()
  | (entity, rs) :: rest => do
    modify (·.extend entity rs)
    commit rest

/-- Reads a data file, and then adds its records. -/
def ofJson (s : Schema) (j : Json) : Loading Nat :=
  match j.ordered with
  | .object members => do
    let staged ← stage s members
    commit staged
    return staged.size
  | _ => throw .notTables

/-- The procedure has this outcome, and never touches the store. -/
def Keeps (x : Loading α) (r : Except DataFault α) : Prop := ∀ st, x.run st = (r, st)

theorem keeps_pure (a : α) : Keeps (pure a) (.ok a) := fun _ => rfl

theorem keeps_throw (f : DataFault) : Keeps (throw f : Loading α) (.error f) := fun _ => rfl

theorem keeps_ofExcept (r : Except DataFault α) : Keeps (MonadExcept.ofExcept r) r := by
  cases r with
  | ok a => exact keeps_pure a
  | error f => exact keeps_throw f

/-- The second procedure starts from the store that the first has left. -/
theorem run_bind (x : Loading α) (f : α → Loading β) (st : Store) :
    (x >>= f).run st = match x.run st with
      | (.ok a, st') => (f a).run st'
      | (.error e, st') => (.error e, st') := by
  have hrun : (x >>= f).run st = ExceptT.bindCont f (x.run st).1 (x.run st).2 := rfl
  rw [hrun]
  obtain ⟨r, st'⟩ := x.run st
  cases r <;> rfl

theorem keeps_bind {x : Loading α} {f : α → Loading β} {r : Except DataFault α}
    {k : α → Except DataFault β} (hx : Keeps x r) (hf : ∀ a, Keeps (f a) (k a)) :
    Keeps (x >>= f) (r >>= k) := by
  intro st
  rw [run_bind, hx st]
  cases r with
  | ok a => exact hf a st
  | error e => rfl

theorem keeps_rows (entity : String) (items : List Json) :
    Keeps (rows s entity items) (items.mapM (Record.ofOrdered s entity)) := by
  induction items with
  | nil => exact keeps_pure []
  | cons row items ih =>
    rw [List.mapM_cons]
    exact keeps_bind (keeps_ofExcept _) fun r => keeps_bind ih fun rs => keeps_pure (r :: rs)

/-- **Reading a data file does not touch the store.** -/
theorem keeps_stage (tables : List (String × Json)) : Keeps (stage s tables) (Batch.readTables s tables) := by
  induction tables with
  | nil => exact keeps_pure []
  | cons table tables ih =>
    obtain ⟨entity, j⟩ := table
    have hreads : Batch.readTables s ((entity, j) :: tables) =
        Batch.readRows s entity j >>= fun rs =>
          Batch.readTables s tables >>= fun b => pure ((entity, rs) :: b) := by
      rw [Batch.readTables]
      cases Batch.readRows s entity j <;> rfl
    rw [hreads]
    cases j with
    | array items =>
      exact keeps_bind (keeps_rows entity items) fun rs => keeps_bind ih fun b => keeps_pure ((entity, rs) :: b)
    | _ => exact keeps_throw _

/-- Adding a batch cannot fail. -/
theorem run_commit (b : Batch) (st : Store) : (commit b).run st = (.ok (), st.add b) := by
  induction b generalizing st with
  | nil => rfl
  | cons e b ih => exact ih (st.extend e.1 e.2)

/-- **The procedure leaves behind what loading gives, or, with a fault, the store that it found.** -/
theorem run_ofJson (s : Schema) (j : Json) (st : Store) :
    (ofJson s j).run st = match st.load s j with
      | .ok (st', n) => (.ok n, st')
      | .error f => (.error f, st) := by
  unfold ofJson Store.load Batch.ofJson
  cases j.ordered with
  | object members =>
    simp only [run_bind, keeps_stage members st]
    cases Batch.readTables s members with
    | error f => rfl
    | ok b =>
      simp only [run_commit]
      rfl
  | _ => rfl

end Loading

namespace Store

variable {s : Schema} {st : Store}

/-- The entities of a batch are those of the data file, in the same order. -/
theorem names_of_tablesAreRead {d : Dictionary Json} {b : Batch} (h : List.Forall₂ (Batch.TableIsRead s) d b) :
    Dictionary.names b = d.names := by
  induction h with
  | nil => rfl
  | @cons m e d b hm _ ih =>
    show e.1 :: Dictionary.names b = m.1 :: Dictionary.names d
    rw [hm.name, ih]

theorem size_eq_sum {d : Dictionary Json} {b : Batch} {grown : String × Json → Nat}
    (h : List.Forall₂ (fun e m => e.2.length = grown m) b d) : b.size = (d.map grown).sum := by
  induction h with
  | nil => rfl
  | @cons e m b d hm _ ih =>
    obtain ⟨entity, rs⟩ := e
    rw [Batch.size, List.map_cons, List.sum_cons, ih, ← hm]

/-- **Adding what is read from a data file adds to each table what the file has for it.** -/
theorem grows_add {j : Json} {d : Dictionary Json} {b : Batch} (hd : j.members? = some d)
    (h : List.Forall₂ (Batch.TableIsRead s) d b) : Grows s d st (st.add b) b.size := by
  have hnames := names_of_tablesAreRead h
  have hsorted : Dictionary.Sorted b := by
    unfold Dictionary.Sorted
    rw [hnames]
    exact Json.sorted_members hd
  have hfind : ∀ e ∈ b, (st.add b).rows e.1 = st.rows e.1 ++ e.2 := by
    intro e he
    rw [rows_add hsorted, hsorted.find?_eq_some he]
    rfl
  have htables : List.Forall₂ (fun e m => (st.add b).rows e.1 = st.rows e.1 ++ e.2 ∧ Batch.TableIsRead s m e) b d :=
    (List.forall₂_and_left _ _).mpr ⟨hfind, List.Forall₂.flip h⟩
  refine ⟨fun entity rows hm => ?_, fun m hm => ?_, fun entity hentity => ?_, ?_⟩
  · obtain ⟨e, hrows, hname, rows', he, hread⟩ := exists_forall₂_iff.mp ⟨b, htables.flip⟩ _ hm
    cases he
    rw [hname] at hrows
    exact ⟨e.2, hread, hrows⟩
  · obtain ⟨e, _, _, rows, he, _⟩ := exists_forall₂_iff.mp ⟨b, htables.flip⟩ m hm
    exact ⟨rows, he⟩
  · rw [rows_add hsorted, Dictionary.find?_eq_none (by rwa [hnames])]
    exact List.append_nil _
  · refine size_eq_sum (htables.imp fun e m hm => ?_)
    obtain ⟨hrows, hread⟩ := hm
    rw [size, size, ← hread.name, hrows, List.length_append, Nat.add_sub_cancel_left]

/-- **Loading a data file is atomic and exact.** As a procedure, which would not undo what it did before a
failure, it leaves what `Store.load` gives; it fails exactly if the file has a fault, in any row of any
entity and at any depth, and then leaves every table as it was; and otherwise each table has grown by what
the file has for it, and the number is that of the records that were added. -/
theorem load_atomic_and_exact (s : Schema) (j : Json) (st : Store) :
    ((Loading.ofJson s j).run st = match st.load s j with
      | .ok (st', n) => (.ok n, st')
      | .error f => (.error f, st)) ∧
    ((∃ f st', (Loading.ofJson s j).run st = (.error f, st')) ↔ Batch.Faulty s j) ∧
    (∀ f st', (Loading.ofJson s j).run st = (.error f, st') → st' = st) ∧
    ∀ n st', (Loading.ofJson s j).run st = (.ok n, st') →
      ∃ d, j.members? = some d ∧ Grows s d st st' n := by
  have hrun := Loading.run_ofJson s j st
  refine ⟨hrun, ?_⟩
  rw [← Batch.exists_fault_iff]
  unfold load at hrun
  cases hb : Batch.ofJson s j with
  | error f =>
    rw [hb] at hrun
    refine ⟨⟨fun _ => ⟨f, rfl⟩, fun _ => ⟨f, st, hrun⟩⟩, fun f' st' h => ?_, fun n st' h => ?_⟩
    · cases hrun.symm.trans h
      rfl
    · cases hrun.symm.trans h
  | ok b =>
    rw [hb] at hrun
    refine ⟨⟨fun h => ?_, nofun⟩, fun f st' h => ?_, fun n st' h => ?_⟩
    · obtain ⟨f, st', h⟩ := h
      cases hrun.symm.trans h
    · cases hrun.symm.trans h
    · cases hrun.symm.trans h
      obtain ⟨d, hd, hread⟩ := Batch.ofJson_eq_ok_iff.mp hb
      exact ⟨d, hd, grows_add hd hread⟩

end Store

/-- A data file with Ann, someone else, and a table without rows. -/
def annAnd (other : Json) : Json :=
  .object [("Person", .array [.object [("name", .text "Ann")], other]), ("Place", .array [])]

/-- With Tom, Ann comes behind Bob and Eve; with someone who has a size, neither of the two comes. -/
theorem load_ann :
    (∃ st' d, (Loading.ofJson persons.schema (annAnd (.object [("name", .text "Tom")]))).run bobAndEve =
        (.ok 2, st') ∧
      (annAnd (.object [("name", .text "Tom")])).members? = some d ∧
      Store.Grows persons.schema d bobAndEve st' 2) ∧
    Batch.Faulty persons.schema (annAnd (.object [("size", .integer 1)])) ∧
    ∃ f, (Loading.ofJson persons.schema (annAnd (.object [("size", .integer 1)]))).run bobAndEve =
      (.error f, bobAndEve) := by
  obtain ⟨_, _, _, hok⟩ :=
    Store.load_atomic_and_exact persons.schema (annAnd (.object [("name", .text "Tom")])) bobAndEve
  obtain ⟨_, hfaulty, _, _⟩ :=
    Store.load_atomic_and_exact persons.schema (annAnd (.object [("size", .integer 1)])) bobAndEve
  obtain ⟨d, hd, hgrows⟩ := hok 2 _ rfl
  exact ⟨⟨_, d, rfl, hd, hgrows⟩, hfaulty.mp ⟨_, _, rfl⟩, _, rfl⟩

end ContextualQuery
