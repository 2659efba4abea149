import ContextualQuery.Proofs.Joins
import ContextualQuery.Proofs.References
/-!
# Records that link others

Where both sides of a relation may have several records of the other, the records of an edge entity link them. A
link holds the key of a source in one column and that of a target in another, and the names of the columns are made
of the entities and their join fields. Two names that are made so may be the same, and then no link holds two keys.

* `Value.same_congr`: equal keys are equal to the same keys;
* `Store.edgeColumn_eq_iff`: when two columns have one name;
* `Join.Holds`, `Join.exists_holds_iff`: a link for two keys, and when there is one;
* `Store.LinksOnly`, `Store.linksOnly_iff`: a record that, as the only link, leads a join from one record to another,
  and nowhere else;
* `Store.exists_linksOnly_iff`: when there is such a record, and `many_to_many_linked_iff` for the relations of valid
  schemas. Persons who cannot be linked to one another are in `no_friendship`.
-/

namespace ContextualQuery

/-! ## 1. Equal keys -/

theorem Double.same_congr {x y : Double} (h : x.same y = true) (z : Double) : x.same z = y.same z := by
  obtain ⟨hx, hy, hrank⟩ := same_iff.mp h
  rw [Bool.eq_iff_iff, same_iff, same_iff, hx, hy, hrank]

namespace Value

/-- **Equal values are equal to the same values.** -/
theorem same_congr {a b : Value} (h : a.same b = true) (c : Value) : a.same c = b.same c := by
  revert h
  fun_cases same a b with
  | case1 a b =>
    intro h
    have hint : a.toInt = b.toInt := beq_iff_eq.mp h
    cases c <;> simp [same, hint, ← Int32.toInt_inj, ← Int64.toInt_inj]
  | case2 a b =>
    intro h
    have hint : a.toInt = b.toInt := beq_iff_eq.mp h
    cases c <;> simp [same, hint, ← Int32.toInt_inj, ← Int64.toInt_inj]
  | case3 a b =>
    intro h
    cases c <;> first | exact Double.same_congr h _ | rfl
  | case4 a b =>
    intro h
    cases c <;> first | exact Double.same_congr h _ | rfl
  | case5 a b =>
    intro h
    cases c <;> first | exact Double.same_congr h _ | rfl
  | case6 a b =>
    intro h
    cases c <;> first | exact Double.same_congr h _ | rfl
  | case7 a b h1 h2 h3 h4 h5 h6 =>
    intro h
    rw [beq_iff_eq.mp h]

theorem same_trans {a b c : Value} (h : a.same b = true) (h' : b.same c = true) : a.same c = true :=
  (same_congr h c).trans h'

/-- What is equal to anything is equal to itself. -/
theorem same_self {a b : Value} (h : a.same b = true) : b.same b = true :=
  (same_congr h b).symm.trans h

end Value

/-! ## 2. Columns -/

/-- **Two columns have one name only if they are made of the same parts, up to the case of ASCII letters in the
entities, or one entity is named by the other's name, an underscore and more, which the other field begins with.** -/
theorem Store.edgeColumn_eq_iff {e f e' f' : String} : edgeColumn e f = edgeColumn e' f' ↔
    (asciiLower e = asciiLower e' ∧ f = f') ∨
      ∃ m, (asciiLower e' = asciiLower e ++ "_" ++ m ∧ f = m ++ "_" ++ f') ∨
        (asciiLower e = asciiLower e' ++ "_" ++ m ∧ f' = m ++ "_" ++ f) :=
  cut_eq_iff (show "_".toList = ['_'] from rfl)

namespace Join

/-- The column of a link that holds the key of a source. -/
def sourceColumn (j : Join) : String := Store.edgeColumn j.fromEntity j.fromField

/-- The column of a link that holds the key of a target. -/
def targetColumn (j : Join) : String := Store.edgeColumn j.toEntity j.toField

variable {j : Join} {k m : Value}

/-- The link holds the two keys, or such as are equal to them. -/
def Holds (j : Join) (link : Record) (k m : Value) : Prop :=
  ∃ u w, link.scalar? j.sourceColumn = some u ∧ link.scalar? j.targetColumn = some w ∧
    u.same k = true ∧ m.same w = true

/-- A link holds one key for targets. -/
theorem Holds.same {link : Record} {v : Value} (h : j.Holds link k v) (h' : j.Holds link k m) :
    v.same m = true := by
  obtain ⟨_, w, _, hw, _, hvw⟩ := h
  obtain ⟨_, w', _, hw', _, hmw⟩ := h'
  obtain rfl := Option.some.inj (hw.symm.trans hw')
  exact Value.same_trans hvw (Value.same_comm m w ▸ hmw)

/-- A link with two keys. -/
def link (j : Join) (k m : Value) : Record :=
  (Record.empty.set j.sourceColumn (.scalar k)).set j.targetColumn (.scalar m)

/-- **There is a link for two different keys exactly if its columns are two**, and no key is a NaN. -/
theorem exists_holds_iff (hdiffer : k.same m = false) :
    (∃ link, j.Holds link k m) ↔
      j.sourceColumn ≠ j.targetColumn ∧ k.same k = true ∧ m.same m = true := by
  constructor
  · rintro ⟨link, u, w, hu, hw, huk, hmw⟩
    have hkm : u = w → k.same m = true := by
      rintro rfl
      rw [← Value.same_congr huk, Value.same_comm]
      exact hmw
    refine ⟨fun hcolumns => ?_, Value.same_self huk, Value.same_self (Value.same_comm m w ▸ hmw)⟩
    rw [hcolumns, hw] at hu
    rw [hkm (Option.some.inj hu).symm] at hdiffer
    cases hdiffer
  · rintro ⟨hcolumns, hk, hm⟩
    refine ⟨j.link k m, k, m, ?_, ?_, hk, hm⟩
    · rw [link, Record.scalar?, Record.get?_set, if_neg hcolumns.symm, Record.get?_set, if_pos rfl]
      rfl
    · rw [link, Record.scalar?, Record.get?_set, if_pos rfl]
      rfl

end Join

/-! ## 3. The only link -/

namespace Store

variable {st : Store} {j : Join} {edge : String} {link a b : Record} {k m : Value}

/-- The store with other rows of an entity. -/
def withRows (st : Store) (entity : String) (rs : List Record) : Store := ⟨st.tables.insert entity rs⟩

theorem rows_withRows (st : Store) (entity other : String) (rs : List Record) :
    (st.withRows entity rs).rows other = if entity = other then rs else st.rows other := by
  rw [withRows, rows, Dictionary.find?_insert]
  split <;> rfl

/-- A record that, as the only link, leads a join to a record, and to none whose key is another than `m`. -/
structure LinksOnly (st : Store) (j : Join) (edge : String) (link a b : Record) (m : Value) : Prop where
  leads : b ∈ (st.withRows edge [link]).joined j a
  nowhereElse : ∀ c ∈ (st.withRows edge [link]).joined j a,
    ∃ v, c.scalar? j.toField = some v ∧ v.same m = true

variable (hedge : j.edgeEntity = some edge) (hk : a.scalar? j.fromField = some k) (hnull : k.isNull = false)

include hedge in
/-- Keys belong together if the only link holds them. -/
theorem meet_withRows_iff : (st.withRows edge [link]).Meet j k m ↔ j.Holds link k m := by
  have hrows : (st.withRows edge [link]).rows edge = [link] := by rw [rows_withRows, if_pos rfl]
  unfold Meet
  rw [hedge]
  constructor
  · rintro ⟨u, w, ⟨l, hl, hu, hw⟩, huk, hmw⟩
    rw [hrows] at hl
    obtain rfl := List.mem_singleton.mp hl
    exact ⟨u, w, hu, hw, huk, hmw⟩
  · rintro ⟨u, w, hu, hw, huk, hmw⟩
    refine ⟨u, w, ⟨link, ?_, hu, hw⟩, huk, hmw⟩
    rw [hrows]
    exact List.mem_singleton.mpr rfl

include hedge hk hnull in
/-- **A record is such a link exactly if it holds the two keys.** -/
theorem linksOnly_iff (hm : b.scalar? j.toField = some m) :
    st.LinksOnly j edge link a b m ↔
      b ∈ (st.withRows edge [link]).rows j.toEntity ∧ j.Holds link k m := by
  have hjoined (c : Record) := mem_joined_of_key (s := st.withRows edge [link]) (b := c) hk hnull
  constructor
  · rintro ⟨hb, _⟩
    obtain ⟨hrows, target, htarget, hmeet⟩ := (hjoined b).mp hb
    cases hm.symm.trans htarget
    exact ⟨hrows, (meet_withRows_iff hedge).mp hmeet⟩
  · rintro ⟨hrows, hholds⟩
    refine ⟨(hjoined b).mpr ⟨hrows, m, hm, (meet_withRows_iff hedge).mpr hholds⟩, fun c hc => ?_⟩
    obtain ⟨_, v, hv, hmeet⟩ := (hjoined c).mp hc
    exact ⟨v, hv, ((meet_withRows_iff hedge).mp hmeet).same hholds⟩

include hedge hk hnull in
/-- **There is such a link exactly if the columns are two**, no key is a NaN, and, where the targets are themselves
the links, the target holds the two keys. -/
theorem exists_linksOnly_iff (hb : b ∈ st.rows j.toEntity) (hm : b.scalar? j.toField = some m)
    (hdiffer : k.same m = false) :
    (∃ link, st.LinksOnly j edge link a b m) ↔
      (j.sourceColumn ≠ j.targetColumn ∧ k.same k = true ∧ m.same m = true) ∧
        (edge = j.toEntity → j.Holds b k m) := by
  constructor
  · rintro ⟨link, hlink⟩
    obtain ⟨hrows, hholds⟩ := (linksOnly_iff hedge hk hnull hm).mp hlink
    refine ⟨(Join.exists_holds_iff hdiffer).mp ⟨link, hholds⟩, fun htarget => ?_⟩
    rw [rows_withRows, if_pos htarget] at hrows
    obtain rfl := List.mem_singleton.mp hrows
    exact hholds
  · rintro ⟨hcolumns, hself⟩
    by_cases htarget : edge = j.toEntity
    · refine ⟨b, (linksOnly_iff hedge hk hnull hm).mpr ⟨?_, hself htarget⟩⟩
      rw [rows_withRows, if_pos htarget]
      exact List.mem_singleton.mpr rfl
    · obtain ⟨link, hholds⟩ := (Join.exists_holds_iff hdiffer).mpr hcolumns
      refine ⟨link, (linksOnly_iff hedge hk hnull hm).mpr ⟨?_, hholds⟩⟩
      rw [rows_withRows, if_neg htarget]
      exact hb

end Store

/-- **Which relations can be linked.** A relation of a valid schema whose two sides may each have several records of
the other names an edge entity. For a record with a key and another with a different one there is a record that, as
the only link, leads from the first to the second, and to none with another key, exactly if the columns of links are
two; no key may be a NaN, which is equal to nothing, and where the targets are themselves the links the second
record has to hold both keys. The columns are one if the entities have the same name, up to the case of ASCII
letters, and the join fields too, as of a relation of an entity with itself that joins on one field; or if one entity
is named by the other's name, an underscore and more, which the other field begins with. -/
theorem many_to_many_linked_iff {s : Schema} (hvalid : s.isValid = true) {r : Relation}
    (hr : r ∈ s.relations.entries) (hmany : r.isManyToMany = true) :
    (∃ edge, r.edgeEntity = some edge ∧ ∀ (st : Store) (a b : Record) (k m : Value),
      a.scalar? r.fromField = some k → k.isNull = false →
      b ∈ st.rows r.toEntity → b.scalar? r.toField = some m → k.same m = false →
      ((∃ link, st.LinksOnly r.toJoin edge link a b m) ↔
        (r.toJoin.sourceColumn ≠ r.toJoin.targetColumn ∧ k.same k = true ∧ m.same m = true) ∧
          (edge = r.toEntity → r.toJoin.Holds b k m))) ∧
    (r.toJoin.sourceColumn = r.toJoin.targetColumn ↔
      (asciiLower r.fromEntity = asciiLower r.toEntity ∧ r.fromField = r.toField) ∨
        ∃ more, (asciiLower r.toEntity = asciiLower r.fromEntity ++ "_" ++ more ∧
            r.fromField = more ++ "_" ++ r.toField) ∨
          (asciiLower r.fromEntity = asciiLower r.toEntity ++ "_" ++ more ∧
            r.toField = more ++ "_" ++ r.fromField)) ∧
    (r.fromEntity = r.toEntity →
      (r.toJoin.sourceColumn = r.toJoin.targetColumn ↔ r.fromField = r.toField)) := by
  obtain ⟨edge, hedge⟩ := ((Schema.isValid_iff.mp hvalid).2.2 r hr).2 hmany
  refine ⟨⟨edge, hedge, fun st a b k m hk hnull hb hm hdiffer => ?_⟩, Store.edgeColumn_eq_iff, fun hself => ?_⟩
  · exact Store.exists_linksOnly_iff (j := r.toJoin) hedge hk hnull hb hm hdiffer
  · show Store.edgeColumn r.fromEntity r.fromField = Store.edgeColumn r.toEntity r.toField ↔ _
    rw [hself, Store.edgeColumn, Store.edgeColumn, String.append_right_inj]

/-! ### Tags, and friends -/

/-- Some tagging links the person to the tag, which have columns of their own. -/
theorem person_tagged :
    (personsAndTags [identified "Tagging"]).schema.isValid = true ∧
    ∃ edge, tagsOfPerson.edgeEntity = some edge ∧ ∃ link : Record,
      (⟨[("Tag", [numbered 2])]⟩ : Store).LinksOnly tagsOfPerson.toJoin edge link (numbered 1) (numbered 2)
        (.int64 2) := by
  have hvalid : (personsAndTags [identified "Tagging"]).schema.isValid = true := by decide +kernel
  have hmem : tagsOfPerson ∈ (personsAndTags [identified "Tagging"]).schema.relations.entries :=
    List.mem_singleton.mpr rfl
  obtain ⟨⟨edge, hedge, hlinked⟩, _⟩ := many_to_many_linked_iff hvalid hmem rfl
  refine ⟨hvalid, edge, hedge, (hlinked _ _ _ (.int64 1) _ rfl rfl ?_ rfl rfl).mpr ⟨⟨?_, rfl, rfl⟩, ?_⟩⟩
  · exact List.mem_singleton.mpr rfl
  · decide +kernel
  · rintro rfl
    exact absurd (Option.some.inj hedge) (by decide)

/-- Persons have friends, which are persons too. -/
def friendsOfPerson : Relation :=
  ⟨"friends", "Person", "Person", .manyToMany, "id", "id", some "Friendship"⟩

/-- Persons, and friendships between them. -/
def friends : Schema := listing [identified "Person", identified "Friendship"] [friendsOfPerson]

/-- **No friendship links two persons**: both numbers would stand in one column. -/
theorem no_friendship :
    friends.isValid = true ∧ friendsOfPerson ∈ friends.relations.entries ∧ friendsOfPerson.isManyToMany = true ∧
    (Value.int64 1).same (.int64 2) = false ∧
    ¬∃ link : Record, (⟨[("Person", [numbered 1, numbered 2])]⟩ : Store).LinksOnly friendsOfPerson.toJoin
      "Friendship" link (numbered 1) (numbered 2) (.int64 2) := by
  refine ⟨by decide +kernel, List.mem_singleton.mpr rfl, rfl, rfl, fun h => ?_⟩
  have hrow : numbered 2 ∈ (⟨[("Person", [numbered 1, numbered 2])]⟩ : Store).rows "Person" :=
    List.mem_cons_of_mem _ List.mem_cons_self
  have hlinked := (Store.exists_linksOnly_iff (j := friendsOfPerson.toJoin) (k := .int64 1) rfl rfl rfl hrow rfl
    rfl).mp h
  exact hlinked.1.1 rfl

end ContextualQuery
