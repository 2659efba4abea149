import ContextualQuery.Proofs.Results
import ContextualQuery.Record.Reading
/-!
# How data are read

What it takes that reading succeeds, and what is read then, for each form of JSON:

* `Record.readDatum_leaf_eq_ok_iff`, `Record.readDatum_array_eq_ok_iff` and
  `Record.readDatum_object_eq_ok_iff`;
* `Record.readItems_cons_eq_ok_iff` and `Record.readMembers_cons_eq_ok_iff`: a list or an object is
  read by its first part and the rest;
* `Record.ofOrdered_eq_ok_iff`: a record is read from an object.
-/

namespace ContextualQuery

/-- What is neither a list nor an object. -/
inductive Json.Leaf : Json → Prop
  | null : Leaf .null
  | bool (b : Bool) : Leaf (.bool b)
  | integer (n : Int) : Leaf (.integer n)
  | double (x : Double) : Leaf (.double x)
  | text (s : String) : Leaf (.text s)

namespace Domain

theorem ofData?_null (d : Domain) : d.ofData? .null = some .null := by
  cases d <;> rfl

theorem ofData?_array (d : Domain) (items : List Json) : d.ofData? (.array items) = none := by
  cases d <;> rfl

theorem ofData?_object (d : Domain) (members : List (String × Json)) :
    d.ofData? (.object members) = none := by
  cases d <;> rfl

end Domain

namespace Record

variable {s : Schema} {context : String} {type : FieldType} {inList : Bool} {d : Datum}

theorem readLeaf_eq_ok_iff {j : Json} : readLeaf s context type j = .ok d ↔
    ∃ dom v, type.content = .values dom ∧ dom.ofData? j = some v ∧ d = .scalar v := by
  unfold readLeaf
  cases hc : type.content with
  | objects target =>
    constructor
    · intro h
      simp only at h
      split at h <;> cases h
    · rintro ⟨_, _, he, _⟩
      cases he
  | values dom =>
    simp only [FieldContent.values.injEq]
    constructor
    · intro h
      split at h
      · rename_i v hv
        cases h
        exact ⟨dom, v, rfl, hv, rfl⟩
      · cases h
    · rintro ⟨_, v, rfl, hv, rfl⟩
      rw [hv]

theorem readDatum_of_leaf {j : Json} (hj : j.Leaf) (hnull : j ≠ .null) :
    readDatum s context type inList j =
      if type.isArray && !inList then .error (.notArray context) else readLeaf s context type j := by
  cases hj with
  | null => exact absurd rfl hnull
  | bool b => simp only [readDatum]
  | integer n => simp only [readDatum]
  | double x => simp only [readDatum]
  | text t => simp only [readDatum]

/-- Null is read for every field, and for places of a list that is not one of objects. Other leaves
are values, read where no list is asked for. -/
theorem readDatum_leaf_eq_ok_iff {j : Json} (hj : j.Leaf) :
    readDatum s context type inList j = .ok d ↔
      (j = .null ∧ d = .scalar .null ∧ (inList = true → ∃ dom, type.content = .values dom)) ∨
      (type.isArray && !inList) = false ∧
        ∃ dom v, type.content = .values dom ∧ dom.ofData? j = some v ∧ d = .scalar v := by
  rw [← @readLeaf_eq_ok_iff s context type d j]
  by_cases hnull : j = .null
  · subst hnull
    have hleaf : readLeaf s context type .null = .ok d ↔
        d = .scalar .null ∧ ∃ dom, type.content = .values dom := by
      rw [readLeaf_eq_ok_iff]
      constructor
      · rintro ⟨dom, v, hc, hv, rfl⟩
        rw [dom.ofData?_null] at hv
        cases hv
        exact ⟨rfl, dom, hc⟩
      · rintro ⟨rfl, dom, hc⟩
        exact ⟨dom, .null, hc, dom.ofData?_null, rfl⟩
    rw [readDatum, hleaf]
    cases inList with
    | false =>
      constructor
      · intro h
        cases h
        exact .inl ⟨rfl, rfl, fun h => absurd h Bool.false_ne_true⟩
      · rintro (⟨_, rfl, _⟩ | ⟨_, rfl, _⟩) <;> rfl
    | true =>
      rw [if_pos rfl, hleaf]
      simp only [true_imp_iff, true_and]
      exact (or_iff_left_of_imp And.right).symm
  · rw [readDatum_of_leaf hj hnull]
    cases type.isArray && !inList <;> simp [hnull]

theorem readDatum_array_eq_ok_iff {items : List Json} :
    readDatum s context type inList (.array items) = .ok d ↔
      (type.isArray && !inList) = true ∧
        ∃ ds, readItems s context type items = .ok ds ∧ d = .list ds := by
  rw [readDatum]
  split
  · rename_i hlist
    rw [map_eq_ok_iff]
    simp only [hlist, true_and, eq_comm]
  · rename_i hlist
    rw [readLeaf_eq_ok_iff]
    constructor
    · rintro ⟨dom, v, _, hv, _⟩
      rw [dom.ofData?_array] at hv
      cases hv
    · exact fun h => absurd h.1 hlist

theorem readDatum_object_eq_ok_iff {members : List (String × Json)} :
    readDatum s context type inList (.object members) = .ok d ↔
      (type.isArray && !inList) = false ∧ ∃ target e r, type.content = .objects target ∧
        s.entity? target = some e ∧ readMembers s e members = .ok r ∧ d = .object r := by
  rw [readDatum]
  split
  · rename_i hlist
    rw [hlist]
    simp
  · rename_i hlist
    have hlist := eq_false_of_ne_true hlist
    cases hc : type.content with
    | values dom =>
      constructor
      · intro h
        obtain ⟨dom', v, _, hv, _⟩ := readLeaf_eq_ok_iff.mp h
        rw [dom'.ofData?_object] at hv
        cases hv
      · rintro ⟨_, _, _, _, h, _⟩
        cases h
    | objects target =>
      cases he : s.entity? target with
      | none =>
        simp only [he]
        constructor
        · intro h
          cases h
        · rintro ⟨_, _, _, _, h, he', _⟩
          cases h
          rw [he] at he'
          cases he'
      | some e =>
        simp only [he, map_eq_ok_iff]
        constructor
        · rintro ⟨r, h, rfl⟩
          exact ⟨hlist, target, e, r, rfl, he, h, rfl⟩
        · rintro ⟨_, _, e', r, h, he', hr, rfl⟩
          cases h
          cases he.symm.trans he'
          exact ⟨r, hr, rfl⟩

theorem readItems_cons_eq_ok_iff {j : Json} {items : List Json} {ds : List Datum} :
    readItems s context type (j :: items) = .ok ds ↔ ∃ d ds',
      readDatum s context type true j = .ok d ∧ readItems s context type items = .ok ds' ∧
        ds = d :: ds' := by
  rw [readItems]
  cases readDatum s context type true j with
  | error f =>
    constructor
    · intro h
      cases h
    · rintro ⟨_, _, h, _⟩
      cases h
  | ok d =>
    simp only [map_eq_ok_iff]
    constructor
    · rintro ⟨ds', h, rfl⟩
      exact ⟨d, ds', rfl, h, rfl⟩
    · rintro ⟨_, ds', he, h, rfl⟩
      cases he
      exact ⟨ds', h, rfl⟩

theorem readMembers_cons_eq_ok_iff {e : Entity} {name : String} {j : Json}
    {members : List (String × Json)} {r : Record} :
    readMembers s e ((name, j) :: members) = .ok r ↔ ∃ f d r', e.field? name = some f ∧
      readDatum s (e.name ++ "." ++ name) f.type false j = .ok d ∧
        readMembers s e members = .ok r' ∧ r = r'.set name d := by
  rw [readMembers]
  cases e.field? name with
  | none =>
    constructor
    · intro h
      cases h
    · rintro ⟨_, _, _, h, _⟩
      cases h
  | some f =>
    simp only [Option.some.injEq]
    cases hd : readDatum s (e.name ++ "." ++ name) f.type false j with
    | error fault =>
      constructor
      · intro h
        cases h
      · rintro ⟨f', d, r', rfl, h, _⟩
        rw [hd] at h
        cases h
    | ok d =>
      simp only [map_eq_ok_iff]
      constructor
      · rintro ⟨r', h, rfl⟩
        exact ⟨f, d, r', rfl, hd, h, rfl⟩
      · rintro ⟨f', d', r', rfl, hd', h, rfl⟩
        cases hd.symm.trans hd'
        exact ⟨r', h, rfl⟩

theorem ofOrdered_eq_ok_iff {entity : String} {j : Json} {r : Record} :
    ofOrdered s entity j = .ok r ↔ ∃ e members, s.entity? entity = some e ∧ j = .object members ∧
      readMembers s e members = .ok r := by
  unfold ofOrdered
  cases s.entity? entity with
  | none =>
    constructor
    · intro h
      cases h
    · rintro ⟨_, _, h, _⟩
      cases h
  | some e =>
    cases j with
    | object members =>
      constructor
      · exact fun h => ⟨e, members, rfl, rfl, h⟩
      · rintro ⟨_, _, he, hj, h⟩
        cases he
        cases hj
        exact h
    | _ =>
      constructor
      · intro h
        cases h
      · rintro ⟨_, _, _, h, _⟩
        cases h

end Record

end ContextualQuery
