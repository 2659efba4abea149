import ContextualQuery.Proofs.SchemaFiles
import ContextualQuery.Proofs.Typing
/-!
# Keys of relations

A schema stores a relation under the name of its entity and its own with a dot between, and both names may have
dots in them. So a key can be cut in several ways, and what is found under the key of an entity and a name need
not be a relation of that entity.

* `cut_eq_iff`: a text that is cut at a separator in two ways;
* `Relation.keyOf_eq_iff`: two keys are the same only if their parts are, or if the one entity is named by the
  other's name, a dot and more, `Relation.Meets`;
* `Prevails`, `Register.find?_insertAll_iff`: of entries that are entered one after the other the last one with a
  key is found;
* `Schema.attribute?_eq_relation_iff`, `Schema.mem_attributeNames_iff_attribute?`: lookups and listings, of which
  the second tells of what the first finds, less the relations of others;
* `relations_of_file`: what is found of the relations that a file lists. `Schema.KeepsRelations` says that all are
  found where they belong and nowhere else; this is so if no entity is named by another's name, a dot and more;
* `crossing_loses_relation`: a file that is accepted although it is not so.
-/

namespace ContextualQuery

/-! ## 1. Keys -/

/-- A list with a separator in it can be cut there in two ways only if one of the parts has the separator too. -/
theorem append_cons_eq_iff {α : Type} {c : α} {a b a' b' : List α} :
    a ++ c :: b = a' ++ c :: b' ↔ (a = a' ∧ b = b') ∨
      ∃ m, (a' = a ++ c :: m ∧ b = m ++ c :: b') ∨ (a = a' ++ c :: m ∧ b' = m ++ c :: b) := by
  have hcut {a b a' b' x : List α} (ha : a' = a ++ x) (hb : c :: b = x ++ c :: b') :
      (a = a' ∧ b = b') ∨ ∃ m, a' = a ++ c :: m ∧ b = m ++ c :: b' := by
    cases x with
    | nil => exact .inl ⟨(ha.trans (List.append_nil a)).symm, (List.cons.inj hb).2⟩
    | cons d m =>
      obtain ⟨rfl, hrest⟩ := List.cons.inj hb
      exact .inr ⟨m, ha, hrest⟩
  constructor
  · intro h
    rcases List.append_eq_append_iff.mp h with ⟨x, ha, hb⟩ | ⟨x, ha, hb⟩
    · exact (hcut ha hb).imp_right fun ⟨m, hm⟩ => ⟨m, .inl hm⟩
    · rcases hcut ha hb with ⟨rfl, rfl⟩ | ⟨m, hm⟩
      · exact .inl ⟨rfl, rfl⟩
      · exact .inr ⟨m, .inr hm⟩
  · rintro (⟨rfl, rfl⟩ | ⟨m, ⟨rfl, rfl⟩ | ⟨rfl, rfl⟩⟩)
    · rfl
    · simp only [List.append_assoc, List.cons_append]
    · simp only [List.append_assoc, List.cons_append]

/-- **A text that is cut at a separator in two ways** has, in one of the two, a part with the separator in it. -/
theorem cut_eq_iff {separator : String} {c : Char} (hc : separator.toList = [c]) {a b a' b' : String} :
    a ++ separator ++ b = a' ++ separator ++ b' ↔ (a = a' ∧ b = b') ∨
      ∃ m, (a' = a ++ separator ++ m ∧ b = m ++ separator ++ b') ∨
        (a = a' ++ separator ++ m ∧ b' = m ++ separator ++ b) := by
  have htoList (a b : String) : (a ++ separator ++ b).toList = a.toList ++ c :: b.toList := by
    rw [String.toList_append, String.toList_append, hc, List.append_assoc]
    rfl
  rw [← String.toList_inj, htoList, htoList, append_cons_eq_iff, String.toList_inj, String.toList_inj]
  refine or_congr_right ⟨?_, ?_⟩
  · rintro ⟨m, h⟩
    refine ⟨String.ofList m, h.imp ?_ ?_⟩ <;>
      · rintro ⟨ha, hb⟩
        constructor <;> rwa [← String.toList_inj, htoList, String.toList_ofList]
  · rintro ⟨m, h⟩
    refine ⟨m.toList, h.imp ?_ ?_⟩ <;>
      · rintro ⟨rfl, rfl⟩
        exact ⟨htoList _ _, htoList _ _⟩

namespace Relation

variable {e n e' n' : String}

/-- The one entity is named by the other's name, a dot and more, and what it has more the other's relation has
before the name of its own. -/
def Meets (e n e' n' : String) : Prop :=
  ∃ m, (e' = keyOf e m ∧ n = keyOf m n') ∨ (e = keyOf e' m ∧ n' = keyOf m n)

theorem toList_keyOf (e n : String) : (keyOf e n).toList = e.toList ++ '.' :: n.toList := by
  rw [keyOf, String.toList_append, String.toList_append, List.append_assoc]
  rfl

theorem dot_mem_keyOf (e n : String) : '.' ∈ (keyOf e n).toList := by
  rw [toList_keyOf]
  exact List.mem_append_right _ List.mem_cons_self

/-- **Keys are the same only if their parts are, or meet.** -/
theorem keyOf_eq_iff : keyOf e n = keyOf e' n' ↔ (e = e' ∧ n = n') ∨ Meets e n e' n' :=
  cut_eq_iff (show ".".toList = ['.'] from rfl)

/-- The parts of the key of a relation. -/
def parts (r : Relation) : String × String := (r.fromEntity, r.name)

theorem ne_keyOf (e m : String) : e ≠ keyOf e m := by
  intro h
  have hlength := congrArg (·.toList.length) h
  simp only [toList_keyOf, List.length_append, List.length_cons] at hlength
  omega

theorem not_meets_self (e n : String) : ¬ Meets e n e n := by
  rintro ⟨m, ⟨he, _⟩ | ⟨he, _⟩⟩
  · exact ne_keyOf e m he
  · exact ne_keyOf e m he

end Relation

/-! ## 2. Entries that count -/

section

variable {α β : Type} {key : α → β} {as : List α} {a b : α}

/-- An entry of a list counts if none behind it has its key. -/
def Prevails (key : α → β) (as : List α) (a : α) : Prop :=
  ∃ before after, as = before ++ a :: after ∧ ∀ b ∈ after, key b ≠ key a

theorem Prevails.mem (h : Prevails key as a) : a ∈ as := by
  obtain ⟨before, after, rfl, _⟩ := h
  exact List.mem_append_right _ List.mem_cons_self

theorem prevails_cons :
    Prevails key (b :: as) a ↔ (a = b ∧ ∀ x ∈ as, key x ≠ key b) ∨ Prevails key as a := by
  constructor
  · rintro ⟨before, after, heq, hafter⟩
    cases before with
    | nil =>
      obtain ⟨rfl, rfl⟩ := List.cons.inj heq
      exact .inl ⟨rfl, hafter⟩
    | cons c before =>
      obtain ⟨_, rfl⟩ := List.cons.inj heq
      exact .inr ⟨before, after, rfl, hafter⟩
  · rintro (⟨rfl, hafter⟩ | ⟨before, after, rfl, hafter⟩)
    · exact ⟨[], as, rfl, hafter⟩
    · exact ⟨b :: before, after, rfl, hafter⟩

/-- For every entry one with its key counts. -/
theorem exists_prevails (key : α → β) (h : a ∈ as) : ∃ b, Prevails key as b ∧ key b = key a := by
  induction as generalizing a with
  | nil => cases h
  | cons x as ih =>
    by_cases hlater : ∃ b ∈ as, key b = key a
    · obtain ⟨b, hb, hkey⟩ := hlater
      obtain ⟨c, hc, hcb⟩ := ih hb
      exact ⟨c, prevails_cons.mpr (.inr hc), hcb.trans hkey⟩
    · rcases List.mem_cons.mp h with rfl | ha
      · exact ⟨a, prevails_cons.mpr (.inl ⟨rfl, fun b hb hkey => hlater ⟨b, hb, hkey⟩⟩), rfl⟩
      · exact absurd ⟨a, ha, rfl⟩ hlater

end

namespace Register

variable {α : Type} {key : α → String}

theorem find?_insertAll_iff {r : Register key} {as : List α} {k : String} {a : α} :
    (r.insertAll as).find? k = some a ↔
      (Prevails key as a ∧ key a = k) ∨ ((∀ b ∈ as, key b ≠ k) ∧ r.find? k = some a) := by
  induction as generalizing r with
  | nil =>
    have hnone : ¬ Prevails key [] a := fun h => List.not_mem_nil h.mem
    simp only [hnone, false_and, false_or, List.not_mem_nil, false_implies, implies_true, true_and]
    rfl
  | cons b as ih =>
    show ((r.insert b).insertAll as).find? k = some a ↔ _
    rw [ih, find?_insert, prevails_cons, List.forall_mem_cons]
    by_cases hb : key b = k
    · subst hb
      rw [if_pos rfl, Option.some.injEq]
      constructor
      · rintro (⟨hlater, hkey⟩ | ⟨hafter, rfl⟩)
        · exact .inl ⟨.inr hlater, hkey⟩
        · exact .inl ⟨.inl ⟨rfl, hafter⟩, rfl⟩
      · rintro (⟨⟨rfl, hafter⟩ | hlater, hkey⟩ | ⟨⟨hne, _⟩, _⟩)
        · exact .inr ⟨hafter, rfl⟩
        · exact .inl ⟨hlater, hkey⟩
        · exact absurd rfl hne
    · rw [if_neg hb]
      constructor
      · rintro (⟨hlater, hkey⟩ | ⟨hafter, hfind⟩)
        · exact .inl ⟨.inr hlater, hkey⟩
        · exact .inr ⟨⟨hb, hafter⟩, hfind⟩
      · rintro (⟨⟨rfl, _⟩ | hlater, hkey⟩ | ⟨⟨_, hafter⟩, hfind⟩)
        · exact absurd hkey hb
        · exact .inl ⟨hlater, hkey⟩
        · exact .inr ⟨hafter, hfind⟩

/-- **Of entries that are entered one after the other the last one with a key is found.** -/
theorem find?_made_iff {as : List α} {k : String} {a : α} :
    ((empty : Register key).insertAll as).find? k = some a ↔ Prevails key as a ∧ key a = k := by
  rw [find?_insertAll_iff, find?_empty]
  exact or_iff_left fun h => nomatch h.2

end Register

/-! ## 3. Lookups and listings -/

namespace Schema

variable {s : Schema} {e n : String} {r : Relation}

theorem hasEntity_iff : s.hasEntity e = true ↔ ∃ entity, s.entity? e = some entity :=
  Option.isSome_iff_exists

theorem hasEntity_of_field? {f : Field} (h : s.field? e n = some f) : s.hasEntity e = true := by
  obtain ⟨entity, hentity, _⟩ := Option.bind_eq_some_iff.mp h
  exact hasEntity_iff.mpr ⟨entity, hentity⟩

theorem no_dot_of_hasEntity (h : ∀ entity ∈ s.entities.entries, '.' ∉ entity.name.toList)
    (he : s.hasEntity e = true) : '.' ∉ e.toList := by
  obtain ⟨entity, hentity⟩ := hasEntity_iff.mp he
  obtain ⟨hmem, rfl⟩ := Register.mem_of_find? hentity
  exact h entity hmem

theorem attribute?_eq_field_iff {f : Field} :
    s.attribute? e n = some (.field f) ↔ s.field? e n = some f := by
  refine ⟨field?_of_attribute, fun h => ?_⟩
  obtain ⟨entity, hentity, hfield⟩ := Option.bind_eq_some_iff.mp h
  unfold attribute?
  rw [hentity, Option.bind_eq_bind, Option.bind_some, hfield]
  rfl

theorem attribute?_eq_relation_iff : s.attribute? e n = some (.relation r) ↔
    s.hasEntity e = true ∧ s.field? e n = none ∧ s.relation? e n = some r := by
  rw [hasEntity_iff]
  unfold attribute? field?
  cases s.entity? e with
  | none => exact iff_of_false nofun fun h => nomatch h.1
  | some entity =>
    simp only [Option.bind_eq_bind, Option.bind_some]
    cases entity.field? n with
    | some f => exact iff_of_false nofun fun h => nomatch h.2.1
    | none =>
      cases s.relation? e n with
      | none => exact iff_of_false nofun fun h => nomatch h.2.2
      | some q =>
        constructor
        · rintro ⟨⟩
          exact ⟨⟨entity, rfl⟩, rfl, rfl⟩
        · rintro ⟨_, _, ⟨⟩⟩
          rfl

/-- A stored relation is found under its key. -/
theorem relation?_of_mem (h : r ∈ s.relations.entries) : s.relation? r.fromEntity r.name = some r :=
  Register.find?_key h

/-- Under keys that meet one relation is found. -/
theorem relation?_eq_of_meets {e' n' : String} (h : Relation.Meets e n e' n') :
    s.relation? e n = s.relation? e' n' :=
  congrArg s.relations.find? (Relation.keyOf_eq_iff.mpr (.inr h))

theorem mem_of_relation? (h : s.relation? e n = some r) :
    r ∈ s.relations.entries ∧ r.key = Relation.keyOf e n :=
  Register.mem_of_find? h

theorem exists_field?_iff {entity : Entity} (h : s.entity? e = some entity) :
    (∃ f, s.field? e n = some f) ↔ n ∈ entity.fields.map (·.name) := by
  rw [field?_of_entity h, Entity.field?, ← Option.isSome_iff_exists, List.find?_isSome, List.mem_map]
  simp only [beq_iff_eq]

theorem mem_relationsFrom_iff : r ∈ s.relationsFrom e ↔ r ∈ s.relations.entries ∧ r.fromEntity = e := by
  rw [relationsFrom, List.mem_filter, beq_iff_eq]

theorem mem_attributeNames_iff : n ∈ s.attributeNames e ↔ s.hasEntity e = true ∧
    ((∃ f, s.field? e n = some f) ∨ ∃ r ∈ s.relationsFrom e, r.name = n) := by
  rw [hasEntity_iff]
  unfold attributeNames
  cases hentity : s.entity? e with
  | none => exact iff_of_false List.not_mem_nil fun h => nomatch h.1
  | some entity =>
    rw [List.mem_mergeSort, List.mem_append, exists_field?_iff hentity, List.mem_map (l := s.relationsFrom e)]
    exact (and_iff_right ⟨entity, rfl⟩).symm

/-- **What is listed is what is found, less the relations of others.** -/
theorem mem_attributeNames_iff_attribute? : n ∈ s.attributeNames e ↔
    ∃ a, s.attribute? e n = some a ∧ ∀ r, a = .relation r → r.fromEntity = e ∧ r.name = n := by
  rw [mem_attributeNames_iff]
  constructor
  · rintro ⟨hentity, hlisted⟩
    cases hfield : s.field? e n with
    | some f => exact ⟨.field f, attribute?_eq_field_iff.mpr hfield, nofun⟩
    | none =>
      rcases hlisted with ⟨f, hf⟩ | ⟨r, hr, rfl⟩
      · cases hfield.symm.trans hf
      · obtain ⟨hstored, rfl⟩ := mem_relationsFrom_iff.mp hr
        refine ⟨.relation r, attribute?_eq_relation_iff.mpr ⟨hentity, hfield, relation?_of_mem hstored⟩, ?_⟩
        rintro _ ⟨⟩
        exact ⟨rfl, rfl⟩
  · rintro ⟨a, ha, hown⟩
    cases a with
    | field f =>
      have hfield := attribute?_eq_field_iff.mp ha
      exact ⟨hasEntity_of_field? hfield, .inl ⟨f, hfield⟩⟩
    | relation r =>
      obtain ⟨hentity, _, hfind⟩ := attribute?_eq_relation_iff.mp ha
      obtain ⟨hfrom, hname⟩ := hown r rfl
      exact ⟨hentity, .inr ⟨r, mem_relationsFrom_iff.mpr ⟨(mem_of_relation? hfind).1, hfrom⟩, hname⟩⟩

/-! ## 4. Files -/

/-- The relations that a file lists, in its order. -/
def listed? (text : String) : Option (List Relation) := do
  let [_, _, _, relations] ← (← Json.readAs? shape text).fields? shape.names | none
  Json.defaulted? [] (Json.list? Relation.ofJson?) relations

/-- A schema has the relations that its file lists, entered one after the other. -/
theorem listed?_of_read? {text : String} (h : read? text = some s) :
    ∃ listed, listed? text = some listed ∧ s.relations = Register.empty.insertAll listed := by
  obtain ⟨j, hj, hread⟩ := Option.bind_eq_some_iff.mp h
  obtain ⟨fields, hfields, hread⟩ := Option.bind_eq_some_iff.mp hread
  split at hread
  · next version createdAt entities relations =>
    obtain ⟨v, _, hread⟩ := Option.bind_eq_some_iff.mp hread
    obtain ⟨c, _, hread⟩ := Option.bind_eq_some_iff.mp hread
    obtain ⟨es, _, hread⟩ := Option.bind_eq_some_iff.mp hread
    obtain ⟨listed, hlisted, hread⟩ := Option.bind_eq_some_iff.mp hread
    refine ⟨listed, ?_, ?_⟩
    · rw [listed?, hj]
      show (j.fields? shape.names).bind _ = _
      rw [hfields]
      exact hlisted
    · cases hread
      rw [foldl_withEntity, foldl_withRelation]
      rfl
  · cases hread

theorem listed?_fileOf (version createdAt : UInt64) (es : List Entity) (rs : List Relation) :
    listed? (fileOf version createdAt es rs).pretty = some rs := by
  have hlist : Json.defaulted? [] (Json.list? Relation.ofJson?) (some (.array (rs.map Relation.toJson))) =
      some rs := Json.defaulted?_some.trans (Json.list?_map fun r _ => r.ofJson?_toJson)
  rw [listed?, readAs?_fileOf]
  exact hlist

theorem read_fileOf (version createdAt : UInt64) (es : List Entity) (rs : List Relation) :
    read (fileOf version createdAt es rs).pretty =
      checked ⟨version, createdAt, Register.empty.insertAll es, Register.empty.insertAll rs⟩ := by
  rw [read, read?_fileOf]
  rfl

theorem read?_of_read {text : String} (h : read text = .ok s) : read? text = some s ∧ s.fault? = none := by
  unfold read accept at h
  split at h
  · cases h
  · next t ht =>
    unfold checked at h
    split at h
    · next hvalid =>
      cases h
      exact ⟨ht, hvalid⟩
    · cases h

theorem source_of_valid (h : s.relationFault? r = none) :
    s.hasEntity r.fromEntity = true ∧ s.field? r.fromEntity r.name = none := by
  unfold relationFault? at h
  split at h
  · cases h
  · cases h
  · next source target hsource _ =>
    refine ⟨hasEntity_iff.mpr ⟨source, hsource⟩, ?_⟩
    split at h
    · cases h
    · next hfield =>
      rw [field?_of_entity hsource]
      exact Option.not_isSome_iff_eq_none.mp hfield

/-- Every stored relation of a valid schema is found on its entity: no field hides it. -/
theorem attribute?_of_mem (hvalid : s.fault? = none) (hr : r ∈ s.relations.entries) :
    s.attribute? r.fromEntity r.name = some (.relation r) := by
  obtain ⟨_, hrelations⟩ := Option.or_eq_none_iff.mp hvalid
  obtain ⟨hentity, hfield⟩ := source_of_valid (List.findSome?_eq_none_iff.mp hrelations r hr)
  exact attribute?_eq_relation_iff.mpr ⟨hentity, hfield, relation?_of_mem hr⟩

/-! ## 5. Relations that are kept -/

/-- Every relation that a file lists is found where it belongs, and nowhere else. -/
structure KeepsRelations (s : Schema) (listed : List Relation) : Prop where
  /-- A relation that is found on an entity by a name starts there and has the name. -/
  own : ∀ e n r, s.attribute? e n = some (.relation r) → r.fromEntity = e ∧ r.name = n
  /-- What is found is listed. -/
  named : ∀ e n, (∃ a, s.attribute? e n = some a) ↔ n ∈ s.attributeNames e
  /-- A relation is found if no later one of its entity has its name. -/
  kept : ∀ r, Prevails Relation.parts listed r → s.attribute? r.fromEntity r.name = some (.relation r)

variable {listed : List Relation}

section

variable (hlisted : s.relations = Register.empty.insertAll listed)
include hlisted

theorem relation?_iff : s.relation? e n = some r ↔ Prevails Relation.key listed r ∧ r.key = Relation.keyOf e n := by
  rw [relation?, hlisted]
  exact Register.find?_made_iff

theorem attribute?_of_prevails (hvalid : s.fault? = none) (hr : Prevails Relation.key listed r) :
    s.attribute? r.fromEntity r.name = some (.relation r) := by
  have hfind : s.relation? r.fromEntity r.name = some r := (relation?_iff hlisted).mpr ⟨hr, rfl⟩
  exact attribute?_of_mem hvalid (mem_of_relation? hfind).1

/-- **All relations are kept exactly if no two meet.** -/
theorem kept_iff (hvalid : s.fault? = none) :
    (∀ r, Prevails Relation.parts listed r → s.attribute? r.fromEntity r.name = some (.relation r)) ↔
      ∀ r ∈ listed, ∀ q ∈ listed, ¬ Relation.Meets r.fromEntity r.name q.fromEntity q.name := by
  constructor
  · intro hkept r hr q hq hmeets
    -- for each of the two a relation with its parts is found, but there is one under the key they share
    obtain ⟨r', hr', hparts⟩ := exists_prevails Relation.parts hr
    obtain ⟨q', hq', hqparts⟩ := exists_prevails Relation.parts hq
    obtain ⟨hfrom, hname⟩ := Prod.mk.inj hparts
    obtain ⟨hqfrom, hqname⟩ := Prod.mk.inj hqparts
    obtain ⟨_, _, hfind⟩ := attribute?_eq_relation_iff.mp (hkept r' hr')
    obtain ⟨_, _, hqfind⟩ := attribute?_eq_relation_iff.mp (hkept q' hq')
    rw [hfrom, hname, relation?_eq_of_meets hmeets] at hfind
    rw [hqfrom, hqname] at hqfind
    cases hfind.symm.trans hqfind
    rw [← hfrom, ← hname, ← hqfrom, ← hqname] at hmeets
    exact Relation.not_meets_self _ _ hmeets
  · intro hapart r hr
    refine attribute?_of_prevails hlisted hvalid ?_
    have hmem := hr.mem
    obtain ⟨before, after, heq, hafter⟩ := hr
    refine ⟨before, after, heq, fun q hq hkey => ?_⟩
    have hqmem : q ∈ listed := heq ▸ List.mem_append_right _ (List.mem_cons_of_mem _ hq)
    rcases Relation.keyOf_eq_iff.mp hkey with hparts | hmeets
    · exact hafter q hq (Prod.ext hparts.1 hparts.2)
    · exact hapart q hqmem r hmem hmeets

end

/-- No entity is named by the name of another, a dot and more. -/
def Apart (entities : String → Prop) : Prop :=
  ∀ e f, entities e → entities f → ∀ m, f ≠ Relation.keyOf e m

/-- Entities without dots in their names are apart. -/
theorem apart_of_no_dot {entities : String → Prop} (h : ∀ e, entities e → '.' ∉ e.toList) :
    Apart entities := by
  intro e f _ hf m heq
  exact h f hf (heq ▸ Relation.dot_mem_keyOf e m)

theorem Apart.not_meets {entities : String → Prop} (h : Apart entities) {e f : String} (he : entities e)
    (hf : entities f) (n m : String) : ¬ Relation.Meets e n f m := by
  rintro ⟨k, ⟨hkey, _⟩ | ⟨hkey, _⟩⟩
  · exact h e f he hf k hkey
  · exact h f e hf he k hkey

/-- The entities of a schema, and those at which listed relations start. -/
def Named (s : Schema) (listed : List Relation) (e : String) : Prop :=
  s.hasEntity e = true ∨ ∃ r ∈ listed, r.fromEntity = e

/-- **A schema of entities that are apart keeps its relations.** -/
theorem keepsRelations_of_apart (hlisted : s.relations = Register.empty.insertAll listed)
    (hvalid : s.fault? = none) (hapart : Apart (s.Named listed)) : s.KeepsRelations listed := by
  have hown : ∀ e n r, s.attribute? e n = some (.relation r) → r.fromEntity = e ∧ r.name = n := by
    intro e n r h
    obtain ⟨hentity, _, hfind⟩ := attribute?_eq_relation_iff.mp h
    obtain ⟨hr, hkey⟩ := (relation?_iff hlisted).mp hfind
    refine (Relation.keyOf_eq_iff.mp hkey).resolve_right ?_
    exact hapart.not_meets (.inr ⟨r, hr.mem, rfl⟩) (.inl hentity) _ _
  refine ⟨hown, fun e n => ?_, (kept_iff hlisted hvalid).mpr fun r hr q hq => ?_⟩
  · rw [mem_attributeNames_iff_attribute?]
    constructor
    · rintro ⟨a, ha⟩
      exact ⟨a, ha, fun r har => hown e n r (har ▸ ha)⟩
    · rintro ⟨a, ha, _⟩
      exact ⟨a, ha⟩
  · exact hapart.not_meets (.inr ⟨r, hr, rfl⟩) (.inr ⟨q, hq, rfl⟩) _ _

end Schema

/-- **What is found of the relations that a file lists.** On an entity a relation is found by a name that no field
has, namely the last one in the file with their key; it is a relation of the entity with that name, or its key
can be cut in another way. What is found is what is listed, less such relations of others; all that the file
lists are found exactly if no two of them have one key in two ways; and none of this happens, and the schema keeps
its relations, if no entity is named by another's name, a dot and more. -/
theorem relations_of_file {text : String} {s : Schema} (h : Schema.read text = .ok s) :
    ∃ listed, Schema.listed? text = some listed ∧
      (∀ e n r, s.attribute? e n = some (.relation r) ↔
        s.hasEntity e = true ∧ s.field? e n = none ∧
          Prevails Relation.key listed r ∧ r.key = Relation.keyOf e n) ∧
      (∀ e n r, s.attribute? e n = some (.relation r) →
        (r.fromEntity = e ∧ r.name = n) ∨ Relation.Meets r.fromEntity r.name e n) ∧
      (∀ e n, n ∈ s.attributeNames e ↔ ∃ a, s.attribute? e n = some a ∧
        ∀ r, a = .relation r → r.fromEntity = e ∧ r.name = n) ∧
      ((∀ r, Prevails Relation.parts listed r →
          s.attribute? r.fromEntity r.name = some (.relation r)) ↔
        ∀ r ∈ listed, ∀ q ∈ listed, ¬ Relation.Meets r.fromEntity r.name q.fromEntity q.name) ∧
      (Schema.Apart (s.Named listed) → s.KeepsRelations listed) := by
  obtain ⟨hread, hvalid⟩ := Schema.read?_of_read h
  obtain ⟨listed, hlisted, hrelations⟩ := Schema.listed?_of_read? hread
  refine ⟨listed, hlisted, fun e n r => ?_, fun e n r hfind => ?_,
    fun e n => Schema.mem_attributeNames_iff_attribute?, Schema.kept_iff hrelations hvalid,
    Schema.keepsRelations_of_apart hrelations hvalid⟩
  · rw [Schema.attribute?_eq_relation_iff, Schema.relation?_iff hrelations]
  · obtain ⟨_, _, hfind⟩ := Schema.attribute?_eq_relation_iff.mp hfind
    exact Relation.keyOf_eq_iff.mp (Schema.mem_of_relation? hfind).2

/-! ### Persons, addresses and cities -/

/-- An entity with nothing but a number. -/
def identified (name : String) : Entity := ⟨name, "id", [⟨"id", .scalar .one .int64, true⟩]⟩

/-- Something of one entity has its city. -/
def leadsToCity (entity name : String) : Relation := ⟨name, entity, "City", .manyToOne, "id", "id", none⟩

/-- The schema of a file that lists some entities and relations. -/
def listing (es : List Entity) (rs : List Relation) : Schema :=
  ⟨1, 0, Register.empty.insertAll es, Register.empty.insertAll rs⟩

/-- Persons and cities are apart, so that homes are found on persons and nowhere else. -/
theorem homes_kept :
    Schema.read (Schema.fileOf 1 0 [identified "Person", identified "City"] [leadsToCity "Person" "home"]).pretty =
      .ok (listing [identified "Person", identified "City"] [leadsToCity "Person" "home"]) ∧
    (listing [identified "Person", identified "City"] [leadsToCity "Person" "home"]).KeepsRelations
      [leadsToCity "Person" "home"] := by
  have hread : Schema.read
      (Schema.fileOf 1 0 [identified "Person", identified "City"] [leadsToCity "Person" "home"]).pretty =
        .ok (listing [identified "Person", identified "City"] [leadsToCity "Person" "home"]) := by
    rw [Schema.read_fileOf]
    decide +kernel
  refine ⟨hread, ?_⟩
  obtain ⟨listed, hlisted, _, _, _, _, hkeeps⟩ := relations_of_file hread
  rw [Schema.listed?_fileOf] at hlisted
  cases hlisted
  have hdotless : ∀ entity ∈ (listing [identified "Person", identified "City"]
      [leadsToCity "Person" "home"]).entities.entries, '.' ∉ entity.name.toList := by decide +kernel
  refine hkeeps (Schema.apart_of_no_dot fun e he => ?_)
  rcases he with hentity | ⟨r, hr, rfl⟩
  · exact Schema.no_dot_of_hasEntity hdotless hentity
  · cases List.mem_singleton.mp hr
    decide

/-- Persons, their addresses and cities. -/
def places : List Entity := [identified "Person", identified "Person.address", identified "City"]

/-- An address has its city, and a person one by a name that begins with that of the address. -/
def crossing : List Relation := [leadsToCity "Person.address" "city", leadsToCity "Person" "address.city"]

/-- The city of a person is found on addresses, where it is not listed, and that of an address nowhere. -/
theorem crossing_loses_relation :
    ∃ text s, Schema.read text = .ok s ∧ Schema.listed? text = some crossing ∧
      s.attribute? "Person.address" "city" = some (.relation (leadsToCity "Person" "address.city")) ∧
      "city" ∉ s.attributeNames "Person.address" ∧
      ∀ e n, s.attribute? e n ≠ some (.relation (leadsToCity "Person.address" "city")) := by
  have hread : Schema.read (Schema.fileOf 1 0 places crossing).pretty = .ok (listing places crossing) := by
    rw [Schema.read_fileOf]
    decide +kernel
  have hcity : (listing places crossing).attribute? "Person.address" "city" =
      some (.relation (leadsToCity "Person" "address.city")) := by decide +kernel
  refine ⟨_, _, hread, Schema.listed?_fileOf .., hcity, fun hlisted => ?_, fun e n h => ?_⟩
  · obtain ⟨a, ha, hown⟩ := Schema.mem_attributeNames_iff_attribute?.mp hlisted
    cases hcity.symm.trans ha
    exact absurd (hown _ rfl).1 (by decide)
  · obtain ⟨_, _, hfind⟩ := Schema.attribute?_eq_relation_iff.mp h
    exact absurd (Schema.mem_of_relation? hfind).1 (by decide +kernel)

end ContextualQuery
