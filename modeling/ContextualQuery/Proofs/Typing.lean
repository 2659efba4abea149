import ContextualQuery.Proofs.Planning
import ContextualQuery.Proofs.Reading
import ContextualQuery.Store.Loading
import ContextualQuery.Store.Matching
/-!
# Values are of the domain of their path

Data are read for the fields of a schema, and paths lead along the same fields, so that the values
at the end of a path are of its domain:

* `Domain.typeName`, `typeName_of_admits`: the values of a domain are of one kind;
* `admits_ofData`, `admits_read`: what data and terms are read as belongs to the domain;
* `Record.Fits`: a record holds what its entity says, and so do the objects in it;
  `fits_readMembers`: this is what reading data comes to;
* `Store.Loaded`, `Loaded.forall_mem`: the stores that are filled from data files hold what is read
  only; `Loaded.fits`: their records fit;
* `admits_values`: from such a record a walk leads to values of its domain;
* `values_of_resolved`: so does a path that is resolved, and a comparison of a plan meets values of
  the kind of its operand.
-/

namespace ContextualQuery

/-! ## 1. Domains and kinds of values -/

/-- The name of the kind of value that a domain consists of. -/
def Domain.typeName : Domain → String
  | .text => "string"
  | .int32 => "int32"
  | .int64 => "int64"
  | .float32 => "float32"
  | .float64 => "float64"
  | .bool => "bool"
  | .timestamp => "timestamp"
  | .date => "date"
  | .uuid => "uuid"
  | .enumeration _ _ => "enum"

namespace Domain

variable {d : Domain} {v : Value}

theorem typeName_of_admits (h : d.admits v = true) : v.typeName = d.typeName := by
  cases d <;> cases v <;> first | rfl | cases h

theorem not_isNull_of_admits (h : d.admits v = true) : v.isNull = false := by
  cases v with
  | null => cases d <;> cases h
  | _ => rfl

theorem admits_of_map {α : Type} {o : Option α} {k : α → Value}
    (hk : ∀ a, d.admits (k a) = true) (h : o.map k = some v) : d.admits v = true := by
  obtain ⟨a, _, rfl⟩ := Option.map_eq_some_iff.mp h
  exact hk a

/-- A member that is found among the variants belongs to the enumeration. -/
theorem admits_of_find {name : String} {variants : List String} {q : String → Bool}
    (h : (variants.find? q).map Value.member = some v) :
    (enumeration name variants).admits v = true := by
  obtain ⟨m, hm, rfl⟩ := Option.map_eq_some_iff.mp h
  exact List.contains_iff_mem.mpr (List.mem_of_find?_eq_some hm)

/-- What plain JSON is read as is null, or belongs to the domain. -/
theorem admits_ofData {j : Json} (h : d.ofData? j = some v) :
    v.isNull = true ∨ d.admits v = true := by
  unfold ofData? at h
  split at h
  · cases h
    exact .inl rfl
  · cases h
    exact .inr rfl
  · exact .inr (admits_of_map (fun _ => rfl) h)
  · exact .inr (admits_of_map (fun _ => rfl) h)
  · exact .inr (admits_of_map (fun _ => rfl) h)
  · exact .inr (admits_of_map (fun _ => rfl) h)
  · cases h
    exact .inr rfl
  · exact .inr (admits_of_map (fun _ => rfl) h)
  · exact .inr (admits_of_map (fun _ => rfl) h)
  · exact .inr (admits_of_map (fun _ => rfl) h)
  · exact .inr (admits_of_map (fun _ => rfl) h)
  · exact .inr (admits_of_find h)
  · cases h

/-- What a term is read as belongs to the domain. -/
theorem admits_read {cs : List Char} (h : d.read? cs = some v) : d.admits v = true := by
  cases d with
  | text =>
    cases h
    rfl
  | enumeration name variants => exact admits_of_find h
  | _ => exact admits_of_map (fun _ => rfl) h

end Domain

/-! ## 2. Records that fit a schema -/

namespace Schema

/-- The field of a name on an entity. -/
def field? (s : Schema) (entity name : String) : Option Field :=
  s.entity? entity >>= (·.field? name)

theorem field?_of_entity {s : Schema} {entity : String} {e : Entity} (h : s.entity? entity = some e)
    (name : String) : s.field? entity name = e.field? name := by
  rw [field?, h]
  rfl

/-- An attribute that is a field is one of the entity. -/
theorem field?_of_attribute {s : Schema} {entity name : String} {f : Field}
    (h : s.attribute? entity name = some (.field f)) : s.field? entity name = some f := by
  obtain ⟨e, he, h⟩ := Option.bind_eq_some_iff.mp h
  rw [field?_of_entity he]
  cases hf : e.field? name with
  | some g =>
    rw [hf] at h
    cases h
    rfl
  | none =>
    rw [hf] at h
    obtain ⟨r, _, hr⟩ := Option.bind_eq_some_iff.mp h
    cases hr

end Schema

/-- Under the names of fields with values a record holds values of their domains, and under the
names of fields with objects it holds objects that fit their entities. -/
inductive Record.Fits (s : Schema) : String → Record → Prop
  | intro {entity : String} {r : Record}
      (values : ∀ name f dom d, s.field? entity name = some f → f.type.content = .values dom →
        r.get? name = some d → ∀ v ∈ d.scalars, dom.admits v = true)
      (objects : ∀ name f target d, s.field? entity name = some f →
        f.type.content = .objects target → r.get? name = some d →
        ∀ o ∈ d.objects, Fits s target o) :
      Fits s entity r

/-- A datum holds values of a domain, or objects that fit an entity. -/
def Datum.Holds (s : Schema) (d : Datum) : FieldContent → Prop
  | .values dom => ∀ v ∈ d.scalars, dom.admits v = true
  | .objects target => ∀ o ∈ d.objects, Record.Fits s target o

namespace Datum

variable {s : Schema} {content : FieldContent}

/-- Null holds nothing. -/
theorem holds_null : (scalar .null).Holds s content := by
  cases content with
  | values dom =>
    intro v hv
    cases hv
  | objects target =>
    intro o ho
    cases ho

theorem scalars_list (ds : List Datum) : (list ds).scalars = ds.flatMap scalars := by
  rw [scalars]
  induction ds with
  | nil => rw [scalarsOf, List.flatMap_nil]
  | cons d ds ih => rw [scalarsOf, ih, List.flatMap_cons]

theorem objects_list (ds : List Datum) : (list ds).objects = ds.flatMap objects := by
  rw [objects]
  induction ds with
  | nil => rw [objectsOf, List.flatMap_nil]
  | cons d ds ih => rw [objectsOf, ih, List.flatMap_cons]

/-- A list holds what its items hold. -/
theorem holds_list {ds : List Datum} (h : ∀ d ∈ ds, d.Holds s content) :
    (list ds).Holds s content := by
  cases content with
  | values dom =>
    intro v hv
    rw [scalars_list, List.mem_flatMap] at hv
    obtain ⟨d, hd, hv⟩ := hv
    exact h d hd v hv
  | objects target =>
    intro o ho
    rw [objects_list, List.mem_flatMap] at ho
    obtain ⟨d, hd, ho⟩ := ho
    exact h d hd o ho

end Datum

namespace Record

variable {s : Schema}

/-- A record fits exactly if under the name of every field it holds what the field may hold. -/
theorem fits_iff {entity : String} {r : Record} :
    Fits s entity r ↔ ∀ name f d, s.field? entity name = some f → r.get? name = some d →
      d.Holds s f.type.content := by
  constructor
  · intro h name f d hf hd
    obtain ⟨values, objects⟩ := h
    cases hc : f.type.content with
    | values dom => exact values name f dom d hf hc hd
    | objects target => exact objects name f target d hf hc hd
  · intro h
    refine .intro (fun name f dom d hf hc hd => ?_) (fun name f target d hf hc hd => ?_)
    · have hholds := h name f d hf hd
      rw [hc] at hholds
      exact hholds
    · have hholds := h name f d hf hd
      rw [hc] at hholds
      exact hholds

theorem fits_empty (entity : String) : Fits s entity empty := by
  rw [fits_iff]
  intro name f d _ hd
  cases hd

/-- Setting an attribute to what its field may hold keeps a record fitting. -/
theorem Fits.set {entity name : String} {r : Record} {f : Field} {d : Datum}
    (h : Fits s entity r) (hf : s.field? entity name = some f) (hd : d.Holds s f.type.content) :
    Fits s entity (r.set name d) := by
  rw [fits_iff] at h ⊢
  intro other g d' hg hd'
  rw [get?_set] at hd'
  split at hd'
  · rename_i hname
    subst hname
    cases hd'
    cases hf.symm.trans hg
    exact hd
  · exact h other g d' hg hd'

/-! ### Reading -/

theorem holds_readDatum_leaf {context : String} {type : FieldType} {inList : Bool} {j : Json}
    {d : Datum} (hj : j.Leaf) (h : readDatum s context type inList j = .ok d) :
    d.Holds s type.content := by
  rcases (readDatum_leaf_eq_ok_iff hj).mp h with ⟨_, rfl, _⟩ | ⟨_, dom, v, hc, hv, rfl⟩
  · exact Datum.holds_null
  · rw [hc]
    intro u hu
    rw [Datum.scalars] at hu
    split at hu
    · cases hu
    · rename_i hnull
      rw [List.mem_singleton] at hu
      rcases Domain.admits_ofData hv with hn | ha
      · exact absurd hn hnull
      · exact hu ▸ ha

mutual

/-- What is read for a field is what the field may hold. -/
theorem holds_readDatum {context : String} {type : FieldType} {inList : Bool} {j : Json}
    {d : Datum} (h : readDatum s context type inList j = .ok d) : d.Holds s type.content := by
  cases j with
  | null => exact holds_readDatum_leaf .null h
  | bool b => exact holds_readDatum_leaf (.bool b) h
  | integer n => exact holds_readDatum_leaf (.integer n) h
  | double x => exact holds_readDatum_leaf (.double x) h
  | text t => exact holds_readDatum_leaf (.text t) h
  | array items =>
    obtain ⟨_, ds, hi, rfl⟩ := readDatum_array_eq_ok_iff.mp h
    exact Datum.holds_list (holds_readItems hi)
  | object members =>
    obtain ⟨_, target, e, r, hc, he, hm, rfl⟩ := readDatum_object_eq_ok_iff.mp h
    rw [hc]
    intro o ho
    rw [Datum.objects, List.mem_singleton] at ho
    exact ho ▸ fits_readMembers he hm

theorem holds_readItems {context : String} {type : FieldType} {items : List Json}
    {ds : List Datum} (h : readItems s context type items = .ok ds) :
    ∀ d ∈ ds, d.Holds s type.content := by
  cases items with
  | nil =>
    rw [readItems] at h
    cases h
    intro d hd
    cases hd
  | cons j items =>
    obtain ⟨d, ds', hj, hi, rfl⟩ := readItems_cons_eq_ok_iff.mp h
    intro d' hd'
    rcases List.mem_cons.mp hd' with rfl | hd'
    · exact holds_readDatum hj
    · exact holds_readItems hi d' hd'

/-- **What is read for an entity fits it.** -/
theorem fits_readMembers {entity : String} {e : Entity} {members : List (String × Json)}
    {r : Record} (he : s.entity? entity = some e) (h : readMembers s e members = .ok r) :
    Fits s entity r := by
  cases members with
  | nil =>
    rw [readMembers] at h
    cases h
    exact fits_empty entity
  | cons m members =>
    obtain ⟨name, j⟩ := m
    obtain ⟨f, d, r', hf, hj, hm, rfl⟩ := readMembers_cons_eq_ok_iff.mp h
    have hfield : s.field? entity name = some f := by rw [Schema.field?_of_entity he, hf]
    have hdatum := holds_readDatum hj
    have hrest := fits_readMembers he hm
    exact hrest.set hfield hdatum

end

theorem fits_ofOrdered {entity : String} {j : Json} {r : Record}
    (h : ofOrdered s entity j = .ok r) : Fits s entity r := by
  obtain ⟨e, members, he, rfl, hm⟩ := ofOrdered_eq_ok_iff.mp h
  exact fits_readMembers he hm

end Record

/-! ## 3. Stores that are filled from data files -/

namespace Batch

variable {s : Schema}

/-- The records of a batch fit the entities that they are for. -/
def Fits (s : Schema) (b : Batch) : Prop := ∀ e ∈ b, ∀ r ∈ e.2, Record.Fits s e.1 r

/-- The records of a batch are read for the entities that they are for. -/
theorem exists_of_mem_readRows {entity : String} {j : Json} {rs : List Record}
    (h : readRows s entity j = .ok rs) : ∀ r ∈ rs, ∃ row, Record.ofOrdered s entity row = .ok r := by
  cases j with
  | array rows =>
    intro r hr
    obtain ⟨row, _, hrow⟩ := exists_of_mem_mapM h r hr
    exact ⟨row, hrow⟩
  | _ => cases h

theorem exists_of_mem_readTables {tables : List (String × Json)} {b : Batch}
    (h : readTables s tables = .ok b) :
    ∀ e ∈ b, ∀ r ∈ e.2, ∃ row, Record.ofOrdered s e.1 row = .ok r := by
  induction tables generalizing b with
  | nil =>
    rw [readTables] at h
    cases h
    intro e he
    cases he
  | cons table tables ih =>
    obtain ⟨entity, j⟩ := table
    rw [readTables] at h
    cases hrows : readRows s entity j with
    | error f =>
      rw [hrows] at h
      cases h
    | ok rs =>
      rw [hrows] at h
      obtain ⟨b', hrest, rfl⟩ := map_eq_ok_iff.mp h
      intro e he
      rcases List.mem_cons.mp he with rfl | he
      · exact exists_of_mem_readRows hrows
      · exact ih hrest e he

theorem exists_of_mem_ofJson {j : Json} {b : Batch} (h : ofJson s j = .ok b) :
    ∀ e ∈ b, ∀ r ∈ e.2, ∃ row, Record.ofOrdered s e.1 row = .ok r := by
  unfold ofJson at h
  split at h
  · exact exists_of_mem_readTables h
  · cases h

theorem fits_ofJson {j : Json} {b : Batch} (h : ofJson s j = .ok b) : b.Fits s := by
  intro e he r hr
  obtain ⟨row, hrow⟩ := exists_of_mem_ofJson h e he r hr
  exact Record.fits_ofOrdered hrow

end Batch

namespace Store

/-- Every record fits the entity whose table it stands in. -/
def Fits (s : Schema) (st : Store) : Prop := ∀ entity, ∀ r ∈ st.rows entity, Record.Fits s entity r

/-- The stores that are filled from data files, one after the other, from an empty store on. -/
inductive Loaded (s : Schema) : Store → Prop
  | empty : Loaded s .empty
  | load {st st' : Store} {n : Nat} {j : Json} (h : Loaded s st) (hl : st.load s j = .ok (st', n)) :
      Loaded s st'

variable {s : Schema} {st : Store}

/-- What holds of the records of a store and of those that are added holds of all. -/
theorem forall_mem_extend {P : String → Record → Prop} {entity : String} {rs : List Record}
    (h : ∀ entity, ∀ r ∈ st.rows entity, P entity r) (hrs : ∀ r ∈ rs, P entity r) (other : String) :
    ∀ r ∈ (st.extend entity rs).rows other, P other r := by
  intro r hr
  rw [rows_extend] at hr
  split at hr
  · rename_i he
    subst he
    rcases List.mem_append.mp hr with hr | hr
    · exact h entity r hr
    · exact hrs r hr
  · exact h other r hr

theorem forall_mem_add {P : String → Record → Prop} {b : Batch}
    (h : ∀ entity, ∀ r ∈ st.rows entity, P entity r) (hb : ∀ e ∈ b, ∀ r ∈ e.2, P e.1 r) :
    ∀ entity, ∀ r ∈ (st.add b).rows entity, P entity r := by
  rw [add]
  induction b generalizing st with
  | nil => exact h
  | cons e b ih =>
    rw [List.foldl_cons]
    refine ih (forall_mem_extend h (hb e List.mem_cons_self)) ?_
    exact fun e' he' => hb e' (List.mem_cons_of_mem _ he')

/-- What holds of every record that is read holds of every record that is loaded. -/
theorem Loaded.forall_mem {P : String → Record → Prop} (h : Loaded s st)
    (hP : ∀ {j b}, Batch.ofJson s j = .ok b → ∀ e ∈ b, ∀ r ∈ e.2, P e.1 r) :
    ∀ entity, ∀ r ∈ st.rows entity, P entity r := by
  induction h with
  | empty =>
    intro entity r hr
    cases hr
  | @load st st' n j _ hl ih =>
    rw [Store.load] at hl
    obtain ⟨b, hb, he⟩ := map_eq_ok_iff.mp hl
    cases he
    exact forall_mem_add ih (hP hb)

/-- **A store that is filled from data files holds fitting records only.** -/
theorem Loaded.fits (h : Loaded s st) : st.Fits s := h.forall_mem Batch.fits_ofJson

end Store

/-! ## 4. Values at the end of paths -/

/-- What a walk begins with: a field with values, which is the last, a field with objects, or a
relation. -/
theorem Schema.walk_cases {s : Schema} {entity name : String} {rest : List String} {w : Walk}
    (h : s.walk entity (name :: rest) = .ok w) :
    (∃ f dom, s.attribute? entity name = some (.field f) ∧ f.type.content = .values dom ∧
      rest = [] ∧ w = ⟨[⟨entity, name, .value f.type.isArray⟩], f, dom, f.type.isNullable⟩) ∨
    (∃ f target w', s.attribute? entity name = some (.field f) ∧
      f.type.content = .objects target ∧ s.walk target rest = .ok w' ∧
      w = w'.after ⟨entity, name, .embedded target f.type.isArray⟩ f.type.isNullable) ∨
    ∃ r w', s.attribute? entity name = some (.relation r) ∧ s.walk r.toEntity rest = .ok w' ∧
      w = w'.after ⟨entity, name, .join r.toJoin⟩ true := by
  rw [walk.eq_def] at h
  simp only at h
  split at h
  · cases h
  · cases ha : s.attribute? entity name with
    | none =>
      rw [ha] at h
      cases h
    | some a =>
      rw [ha] at h
      cases a with
      | field f =>
        simp only at h
        split at h
        · rename_i dom hc
          cases h
          exact .inl ⟨f, dom, rfl, hc, rfl, rfl⟩
        · cases h
        · cases h
        · rename_i target next more hc
          obtain ⟨w', hw', rfl⟩ := map_eq_ok_iff.mp h
          exact .inr (.inl ⟨f, target, w', rfl, hc, hw', rfl⟩)
      | relation r =>
        simp only at h
        split at h
        · cases h
        · obtain ⟨w', hw', rfl⟩ := map_eq_ok_iff.mp h
          exact .inr (.inr ⟨r, w', rfl, hw', rfl⟩)

namespace Store

variable {s : Schema} {st : Store}

/-- The records that a record is joined to stand in the table of the join. -/
theorem mem_rows_of_mem_joined {j : Join} {r r' : Record} (h : r' ∈ st.joined j r) :
    r' ∈ st.rows j.toEntity := by
  rw [joined] at h
  split at h
  · cases h
  · split at h
    · cases h
    · split at h
      · exact (List.mem_filter.mp h).1
      · obtain ⟨key, _, h⟩ := List.mem_flatMap.mp h
        exact (List.mem_filter.mp h).1

/-- The data of an attribute that is there. -/
theorem mem_getD_map {α : Type} {o : Option Datum} {k : Datum → List α} {a : α}
    (h : a ∈ (o.map k).getD []) : ∃ d, o = some d ∧ a ∈ k d := by
  cases o with
  | none => cases h
  | some d => exact ⟨d, rfl, h⟩

/-- **From a record that fits its entity a walk leads to values of its domain.** -/
theorem admits_values (hst : st.Fits s) {names : List String} {entity : String} {w : Walk}
    (hw : s.walk entity names = .ok w) {r : Record} (hr : Record.Fits s entity r) :
    ∀ v ∈ st.values w.steps r, w.domain.admits v = true := by
  induction names generalizing entity w r with
  | nil => cases hw
  | cons name names ih =>
    intro v hv
    obtain ⟨hvalues, hobjects⟩ := hr
    rcases Schema.walk_cases hw with ⟨f, dom, ha, hc, _, rfl⟩ | ⟨f, target, w', ha, hc, hw', rfl⟩ |
      ⟨rel, w', _, hw', rfl⟩
    · obtain ⟨d, hd, hv⟩ := mem_getD_map hv
      have hf := Schema.field?_of_attribute ha
      exact hvalues name f dom d hf hc hd v hv
    · obtain ⟨o, ho, hv⟩ := List.mem_flatMap.mp hv
      obtain ⟨d, hd, ho⟩ := mem_getD_map ho
      have hf := Schema.field?_of_attribute ha
      have hfits := hobjects name f target d hf hc hd o ho
      exact ih hw' hfits v hv
    · obtain ⟨r', hr', hv⟩ := List.mem_flatMap.mp hv
      have hfits := hst _ r' (mem_rows_of_mem_joined hr')
      exact ih hw' hfits v hv

end Store

/-- A path that a name is followed to is a walk from its entity along the names between the dots. -/
theorem Schema.walk_of_resolve {s : Schema} {maxHops : Nat} {entity field : String} {p : Path}
    (h : s.resolve maxHops entity field = .ok p) :
    ∃ w, s.walk entity ((dottedNames field.toList).map String.ofList) = .ok w ∧
      p = w.toPath entity := by
  rw [resolve] at h
  split at h
  · cases h
  · simp only at h
    split at h
    · cases h
    · split at h
      · rename_i w hw
        cases h
        exact ⟨w, hw, rfl⟩
      · cases h

/-! ## 5. Comparisons of plans -/

/-- The operand of a term belongs to the domain. -/
theorem Operand.admits_ofTerm {settings : Settings} {d : Domain} {symbol : RelationSymbol}
    {modifiers : Modifiers} {term : String} {o : Operand}
    (h : ofTerm settings d symbol modifiers term = .ok o) : d.admits o.value = true := by
  rw [ofTerm] at h
  split at h
  · rename_i htext
    have hd : d = .text := by
      cases d <;> first | rfl | cases htext
    subst hd
    rw [ofText] at h
    split at h
    · split at h
      · cases h
      · cases h
        rfl
    · cases h
      rfl
  · rw [ofValue] at h
    split at h
    · cases h
    · split at h
      · cases h
      · split at h
        · rename_i v hv
          cases h
          exact Domain.admits_read hv
        · cases h

namespace Planner

/-- A comparison as the planner makes it: a name is followed to its path, and its operand belongs to
the domain of the path. -/
structure Makes (p : Planner) (entity : String) (c : Comparison) : Prop where
  followed : ∃ field, p.resolver.follow entity field = .ok c.path
  admits : c.path.domain.admits c.operand.value = true

variable {p : Planner} {entity : String}

theorem makes_clause {c : SearchClause} {pr : Predicate} (h : p.clauseResult entity c = .ok pr) :
    ∀ cmp ∈ pr.comparisons, p.Makes entity cmp := by
  rw [clauseResult] at h
  split at h
  · cases h
    intro cmp hcmp
    cases hcmp
  · obtain ⟨path, hpath, h⟩ := bind_eq_ok_iff.mp h
    obtain ⟨o, ho, h⟩ := bind_eq_ok_iff.mp h
    cases h
    intro cmp hcmp
    rw [Predicate.comparisons, List.mem_singleton] at hcmp
    subst hcmp
    exact ⟨⟨_, mapError_eq_ok_iff.mp hpath⟩, Operand.admits_ofTerm (mapError_eq_ok_iff.mp ho)⟩

mutual

/-- The planner makes all comparisons of the predicate of a filter. -/
theorem makes_filter {f : Filter} {pr : Predicate} (h : p.filterResult entity f = .ok pr) :
    ∀ cmp ∈ pr.comparisons, p.Makes entity cmp := by
  cases f with
  | clause c =>
    rw [filterResult] at h
    exact makes_clause h
  | combined op children span =>
    rw [filterResult] at h
    obtain ⟨prs, hprs, rfl⟩ := map_eq_ok_iff.mp h
    rw [Predicate.comparisons]
    exact makes_filters hprs

theorem makes_filters {fs : List Filter} {prs : List Predicate}
    (h : p.filterResults entity fs = .ok prs) :
    ∀ cmp ∈ Predicate.comparisonsOf prs, p.Makes entity cmp := by
  cases fs with
  | nil =>
    rw [filterResults] at h
    cases h
    intro cmp hcmp
    cases hcmp
  | cons f fs =>
    rw [filterResults] at h
    obtain ⟨pr, hpr, h⟩ := bind_eq_ok_iff.mp h
    obtain ⟨prs', hprs, h⟩ := bind_eq_ok_iff.mp h
    cases h
    intro cmp hcmp
    rw [Predicate.comparisonsOf] at hcmp
    rcases List.mem_append.mp hcmp with hcmp | hcmp
    · exact makes_filter hpr cmp hcmp
    · exact makes_filters hprs cmp hcmp

end

/-- The planner makes all comparisons of a plan. -/
theorem makes_plan {text : String} {plan : Plan} {c : PathCache} (hc : p.resolver.Reached c)
    (h : (p.plan entity text c).1 = .ok plan) :
    ∀ cmp ∈ plan.predicate.comparisons, p.Makes entity cmp := by
  rw [(plan_of_reached hc entity text).1] at h
  obtain ⟨q, _, h⟩ := bind_eq_ok_iff.mp h
  obtain ⟨pr, hpr, h⟩ := bind_eq_ok_iff.mp h
  obtain ⟨keys, _, h⟩ := bind_eq_ok_iff.mp h
  cases h
  cases hf : q.filter with
  | none =>
    rw [hf] at hpr
    cases hpr
    intro cmp hcmp
    cases hcmp
  | some f =>
    rw [hf] at hpr
    exact makes_filter hpr

end Planner

/-! ## 6. Types are kept -/

/-- A path that a name is followed to leads to values of its domain. -/
theorem Resolver.admits_follow {r : Resolver} {st : Store} (hst : st.Fits r.schema)
    {entity field : String} {path : Path} (h : r.follow entity field = .ok path) :
    ∀ row ∈ st.rows entity, ∀ v ∈ st.values path.steps row, path.domain.admits v = true := by
  obtain ⟨w, hw, rfl⟩ := Schema.walk_of_resolve h
  intro row hrow v hv
  exact Store.admits_values hst hw (hst entity row hrow) v hv

/-- **In a store that is filled from data files every path that is resolved leads to values of its
domain, none of them null, and every comparison of a plan meets values of the kind of its operand
only.** -/
theorem values_of_resolved {schema : Schema} {st : Store} (hst : st.Loaded schema) :
    (∀ (r : Resolver) (c : PathCache) (entity field : String) (path : Path), r.schema = schema →
      r.Reached c → (r.resolve entity field c).1 = .ok path →
      ∀ row ∈ st.rows entity, ∀ v ∈ st.values path.steps row,
        v.isNull = false ∧ path.domain.admits v = true) ∧
    (∀ (p : Planner) (c : PathCache) (entity text : String) (plan : Plan), p.schema = schema →
      p.resolver.Reached c → (p.plan entity text c).1 = .ok plan →
      ∀ cmp ∈ plan.predicate.comparisons, ∀ row ∈ st.rows entity,
        ∀ v ∈ st.values cmp.path.steps row, v.typeName = cmp.operand.value.typeName) := by
  have hfits := hst.fits
  constructor
  · intro r c entity field path hschema hc h row hrow v hv
    subst hschema
    rw [Resolver.resolve_eq_follow hc.faithful] at h
    have hadmits := Resolver.admits_follow hfits h row hrow v hv
    exact ⟨Domain.not_isNull_of_admits hadmits, hadmits⟩
  · intro p c entity text plan hschema hc h cmp hcmp row hrow v hv
    subst hschema
    obtain ⟨⟨field, hpath⟩, hoperand⟩ := Planner.makes_plan hc h cmp hcmp
    have hadmits := Resolver.admits_follow (r := p.resolver) hfits hpath row hrow v hv
    rw [Domain.typeName_of_admits hadmits, Domain.typeName_of_admits hoperand]

/-- Bob and Eve come from a data file, and have names. -/
theorem values_of_bobAndEve :
    bobAndEve.Loaded persons.schema ∧ ∀ row ∈ bobAndEve.rows "Person",
      ∀ v ∈ bobAndEve.values personName.steps row,
        v.isNull = false ∧ personName.domain.admits v = true := by
  have hloaded : bobAndEve.Loaded persons.schema :=
    .load (n := 2) (j := .object [("Person", .array [.object [("name", .text "Bob")],
      .object [("name", .text "Eve")]])]) .empty rfl
  exact ⟨hloaded, (values_of_resolved hloaded).1 persons.resolver .empty "Person" "name" personName
    rfl .empty rfl⟩

end ContextualQuery
