import ContextualQuery.Proofs.Resolving
/-!
# References of schemas

A schema refers to entities and to their fields. A valid one has all of them, with one exception: nobody asks whether
the entity is there whose records are to link those of two others.

* `Schema.Refers`, `Schema.Defines`: what a schema refers to, edge entities apart, and what is there;
* `Schema.isValid_iff`: a schema is valid exactly if what it refers to is there, and three rules are kept that are not
  about references;
* `Step.Visits`, `Schema.defined_of_takes`: where a step of a path leads, and that it is there;
* `Store.values_congr`: only rows of entities that are visited count for the values of a path;
* `Store.Loaded.rows_eq_nil`: of an entity that is not there no rows are loaded;
* `references_of_valid` puts these together. A valid schema with an edge entity that is not there, and a path that
  visits it, are in `tagging_undefined`.
-/

namespace ContextualQuery

/-! ## 1. What a schema refers to -/

/-- What a schema can refer to: an entity, or a field of one. -/
inductive Referent
  | entity (name : String)
  | field (entity name : String)
  deriving DecidableEq, Repr

namespace Schema

variable {s : Schema}

/-- It is there. -/
def Defines (s : Schema) : Referent → Prop
  | .entity name => s.hasEntity name = true
  | .field entity name => ∃ f, s.field? entity name = some f

/-- What a schema refers to, edge entities apart: the identities of entities that are no parts of others, the
entities of embedded objects, and both ends of every relation with their join fields. -/
inductive Refers (s : Schema) : Referent → Prop
  | identity {e : Entity} (he : e ∈ s.entities.entries) (hroot : e.isEmbedded = false) :
    Refers s (.field e.name e.identityField)
  | embedded {e : Entity} {f : Field} {target : String} (he : e ∈ s.entities.entries) (hf : f ∈ e.fields)
      (hobjects : f.type.content = .objects target) : Refers s (.entity target)
  | source {r : Relation} (hr : r ∈ s.relations.entries) : Refers s (.entity r.fromEntity)
  | target {r : Relation} (hr : r ∈ s.relations.entries) : Refers s (.entity r.toEntity)
  | sourceField {r : Relation} (hr : r ∈ s.relations.entries) : Refers s (.field r.fromEntity r.fromField)
  | targetField {r : Relation} (hr : r ∈ s.relations.entries) : Refers s (.field r.toEntity r.toField)

/-- The schema names the entity as one whose records link those of two others. -/
def NamesEdge (s : Schema) (name : String) : Prop := ∃ r ∈ s.relations.entries, r.edgeEntity = some name

/-! ## 2. Valid schemas -/

theorem entity?_of_mem {e : Entity} (he : e ∈ s.entities.entries) : s.entity? e.name = some e :=
  Register.find?_key he

theorem fieldFault?_eq_none_iff {entity : String} {f : Field} :
    s.fieldFault? entity f = none ↔ (∀ isOptional name, f.type ≠ .enumeration isOptional name []) ∧
      ∀ target, f.type.content = .objects target → s.hasEntity target = true := by
  unfold fieldFault?
  cases hf : f.type with
  | scalar o t => simp [FieldType.content]
  | enumeration isOptional name variants => cases variants <;> simp [FieldType.content]
  | embedded o target => simp [FieldType.content]

theorem entityFault?_eq_none_iff {e : Entity} (he : e ∈ s.entities.entries) :
    s.entityFault? e = none ↔
      (e.isEmbedded = false → s.Defines (.field e.name e.identityField)) ∧
      ∀ f ∈ e.fields, s.fieldFault? e.name f = none := by
  have hidentity : s.Defines (.field e.name e.identityField) ↔ e.identity?.isNone = false := by
    rw [Defines, field?_of_entity (entity?_of_mem he), Entity.identity?, ← Option.isSome_iff_exists]
    cases e.field? e.identityField <;> simp
  rw [hidentity, entityFault?]
  split
  · rename_i h
    rw [Bool.and_eq_true, Bool.not_eq_true'] at h
    refine iff_of_false nofun fun hall => ?_
    rw [hall.1 h.1] at h
    cases h.2
  · rename_i h
    rw [List.findSome?_eq_none_iff]
    refine (and_iff_right fun hroot => ?_).symm
    rw [hroot, Bool.not_false, Bool.true_and, Bool.not_eq_true] at h
    exact h

theorem relationFault?_eq_none_iff {r : Relation} :
    s.relationFault? r = none ↔ s.hasEntity r.fromEntity = true ∧ s.hasEntity r.toEntity = true ∧
      s.Defines (.field r.fromEntity r.fromField) ∧ s.Defines (.field r.toEntity r.toField) ∧
      s.field? r.fromEntity r.name = none ∧
      (r.isManyToMany = true → ∃ edge, r.edgeEntity = some edge) := by
  unfold relationFault?
  cases hsource : s.entity? r.fromEntity with
  | none => simp [hasEntity_iff, hsource]
  | some source =>
    cases htarget : s.entity? r.toEntity with
    | none => simp [hasEntity_iff, htarget]
    | some target =>
      simp only [Defines, hasEntity_iff, hsource, htarget, field?_of_entity hsource, field?_of_entity htarget]
      cases source.field? r.name <;> cases source.field? r.fromField <;> cases target.field? r.toField <;>
        cases r.isManyToMany <;> cases r.edgeEntity <;> simp

/-- **What makes a schema valid.** Whatever it refers to, edge entities apart, is there. Besides, every enumeration
has members, no relation has the name of a field, and where both sides may have several records an edge entity is
named; whether this one is there is not asked. -/
theorem isValid_iff : s.isValid = true ↔
    (∀ x, s.Refers x → s.Defines x) ∧
    (∀ e ∈ s.entities.entries, ∀ f ∈ e.fields, ∀ isOptional name, f.type ≠ .enumeration isOptional name []) ∧
    ∀ r ∈ s.relations.entries, s.field? r.fromEntity r.name = none ∧
      (r.isManyToMany = true → ∃ edge, r.edgeEntity = some edge) := by
  rw [isValid, fault?, Option.isNone_iff_eq_none, Option.or_eq_none_iff, List.findSome?_eq_none_iff,
    List.findSome?_eq_none_iff]
  constructor
  · rintro ⟨hentities, hrelations⟩
    have hentity (e : Entity) (he : e ∈ s.entities.entries) :=
      (entityFault?_eq_none_iff he).mp (hentities e he)
    have hfield (e : Entity) (he : e ∈ s.entities.entries) (f : Field) (hf : f ∈ e.fields) :=
      fieldFault?_eq_none_iff.mp ((hentity e he).2 f hf)
    have hrelation (r : Relation) (hr : r ∈ s.relations.entries) :=
      relationFault?_eq_none_iff.mp (hrelations r hr)
    refine ⟨fun x hx => ?_, fun e he f hf => (hfield e he f hf).1, fun r hr => ?_⟩
    · cases hx with
      | identity he hroot => exact (hentity _ he).1 hroot
      | embedded he hf hobjects => exact (hfield _ he _ hf).2 _ hobjects
      | source hr => exact (hrelation _ hr).1
      | target hr => exact (hrelation _ hr).2.1
      | sourceField hr => exact (hrelation _ hr).2.2.1
      | targetField hr => exact (hrelation _ hr).2.2.2.1
    · exact (hrelation r hr).2.2.2.2
  · rintro ⟨hrefers, hmembers, hrelations⟩
    refine ⟨fun e he => ?_, fun r hr => ?_⟩
    · refine (entityFault?_eq_none_iff he).mpr ⟨fun hroot => hrefers _ (.identity he hroot), fun f hf => ?_⟩
      exact fieldFault?_eq_none_iff.mpr ⟨hmembers e he f hf, fun target h => hrefers _ (.embedded he hf h)⟩
    · exact relationFault?_eq_none_iff.mpr ⟨hrefers _ (.source hr), hrefers _ (.target hr),
        hrefers _ (.sourceField hr), hrefers _ (.targetField hr), hrelations r hr⟩

end Schema

/-! ## 3. Where paths lead -/

/-- An entity that a step leads to, or along whose records it leads. -/
inductive Step.Visits : Step → String → Prop
  | embedded {e name target : String} {isCollection : Bool} :
    Visits ⟨e, name, .embedded target isCollection⟩ target
  | target {e name : String} {j : Join} : Visits ⟨e, name, .join j⟩ j.toEntity
  | edge {e name edge : String} {j : Join} (hedge : j.edgeEntity = some edge) : Visits ⟨e, name, .join j⟩ edge

namespace Schema

variable {s : Schema}

/-- **A step of a path over a valid schema leads to entities that are there**, and along the records of one that a
relation names, there or not. -/
theorem defined_of_takes (hvalid : s.isValid = true) {step : Step} (hstep : s.Takes s.Finds step)
    {name : String} (hvisits : step.Visits name) :
    s.hasEntity name = true ∨
      ∃ r ∈ s.relations.entries, step.kind = .join r.toJoin ∧ r.edgeEntity = some name := by
  have hrefers := (isValid_iff.mp hvalid).1
  cases hstep with
  | value field values => cases hvisits
  | embedded field objects =>
    cases hvisits
    obtain ⟨e, he, hf⟩ := Option.bind_eq_some_iff.mp field
    exact .inl (hrefers _ (.embedded (Register.mem_of_find? he).1 (List.mem_of_find?_eq_some hf) objects))
  | join entity noField relation =>
    have hr := (mem_of_relation? relation).1
    cases hvisits with
    | target => exact .inl (hrefers _ (.target hr))
    | edge hedge => exact .inr ⟨_, hr, rfl, hedge⟩

end Schema

namespace Store

theorem joined_congr {st st' : Store} {j : Join} (htarget : st.rows j.toEntity = st'.rows j.toEntity)
    (hedge : ∀ edge, j.edgeEntity = some edge → st.rows edge = st'.rows edge) (r : Record) :
    st.joined j r = st'.joined j r := by
  have hkey : st.withKey j = st'.withKey j := by
    funext key
    rw [withKey, withKey, htarget]
  unfold joined
  cases r.scalar? j.fromField with
  | none => rfl
  | some key =>
    cases he : j.edgeEntity with
    | none => rw [hkey]
    | some edge =>
      have hlinked : st.linkedKeys j edge key = st'.linkedKeys j edge key := by
        unfold linkedKeys
        rw [hedge edge he]
      simp only [hkey, hlinked]

/-- **Only rows of the entities that its steps visit count for the values of a path.** -/
theorem values_congr {st st' : Store} {steps : List Step}
    (h : ∀ step ∈ steps, ∀ name, step.Visits name → st.rows name = st'.rows name) (r : Record) :
    st.values steps r = st'.values steps r := by
  induction steps generalizing r with
  | nil => rw [values, values]
  | cons step steps ih =>
    obtain ⟨hstep, hsteps⟩ := List.forall_mem_cons.mp h
    have hreached : st.reached step r = st'.reached step r := by
      obtain ⟨e, name, kind⟩ := step
      cases kind with
      | value _ => rfl
      | embedded _ _ => rfl
      | join j => exact joined_congr (hstep _ .target) (fun edge hedge => hstep _ (.edge hedge)) r
    rw [values, values, hreached, funext (ih hsteps)]

/-- Every record that is loaded has been read for its entity. -/
theorem Loaded.exists_of_mem {s : Schema} {st : Store} (h : st.Loaded s) :
    ∀ entity, ∀ r ∈ st.rows entity, ∃ row, Record.ofOrdered s entity row = .ok r :=
  h.forall_mem Batch.exists_of_mem_ofJson

/-- **Of an entity that is not there no records are loaded.** -/
theorem Loaded.rows_eq_nil {s : Schema} {st : Store} (h : st.Loaded s) {entity : String}
    (hentity : s.hasEntity entity = false) : st.rows entity = [] := by
  refine List.eq_nil_iff_forall_not_mem.mpr fun r hr => ?_
  obtain ⟨row, hrow⟩ := h.exists_of_mem entity r hr
  obtain ⟨e, _, he, _⟩ := Record.ofOrdered_eq_ok_iff.mp hrow
  rw [Schema.hasEntity_iff.mpr ⟨e, he⟩] at hentity
  cases hentity

/-- Without link records a join leads nowhere. -/
theorem joined_eq_nil {st : Store} {j : Join} {edge : String} (hedge : j.edgeEntity = some edge)
    (hrows : st.rows edge = []) (r : Record) : st.joined j r = [] := by
  unfold joined
  cases r.scalar? j.fromField with
  | none => rfl
  | some key =>
    have hlinked : st.linkedKeys j edge key = [] := by
      unfold linkedKeys
      rw [hrows]
      rfl
    simp only [hedge, hlinked, List.flatMap_nil, ite_self]

end Store

/-- **The references of a valid schema.** Whatever it refers to is there, edge entities apart. So every path that a
resolver gives, whatever it has been asked before, starts at an entity that is there, and its steps lead to such
entities, along the records of one that a relation names; where all that are named are there, everything is. Only
rows of these entities count for the values of the path. A join along records of an entity that is not there leads
nowhere in a store that is filled from data files. -/
theorem references_of_valid {r : Resolver} (hvalid : r.schema.isValid = true) :
    (∀ x, r.schema.Refers x → r.schema.Defines x) ∧
    (∀ c, r.Reached c → ∀ entity field p, (r.resolve entity field c).1 = .ok p →
      r.schema.hasEntity p.entity = true ∧
      (∀ step ∈ p.steps, ∀ name, step.Visits name → r.schema.hasEntity name = true ∨
        ∃ q ∈ r.schema.relations.entries, step.kind = .join q.toJoin ∧ q.edgeEntity = some name) ∧
      ((∀ name, r.schema.NamesEdge name → r.schema.hasEntity name = true) →
        ∀ step ∈ p.steps, ∀ name, step.Visits name → r.schema.hasEntity name = true) ∧
      ∀ st st' : Store,
        (∀ step ∈ p.steps, ∀ name, step.Visits name → st.rows name = st'.rows name) →
        ∀ a, st.values p.steps a = st'.values p.steps a) ∧
    ∀ st : Store, st.Loaded r.schema → ∀ j edge, j.edgeEntity = some edge → r.schema.hasEntity edge = false →
      ∀ a, st.joined j a = [] := by
  refine ⟨(Schema.isValid_iff.mp hvalid).1, fun c hc entity field p hp => ?_, ?_⟩
  · rw [Resolver.resolve_eq_follow hc.faithful] at hp
    obtain ⟨hentity, names, w, _, _, hw, rfl⟩ := Schema.resolve_eq_ok_iff.mp hp
    have htaken := (Schema.traced_walk hw).taken
    have hvisits (step : Step) (hstep : step ∈ w.steps) (name : String) (hname : step.Visits name) :=
      Schema.defined_of_takes hvalid (htaken step hstep) hname
    refine ⟨hentity, hvisits, fun hedges step hstep name hname => ?_, fun st st' h a => Store.values_congr h a⟩
    rcases hvisits step hstep name hname with hdefined | ⟨q, hq, _, hedge⟩
    · exact hdefined
    · exact hedges name ⟨q, hq, hedge⟩
  · intro st hst j edge hedge hentity a
    exact Store.joined_eq_nil hedge (hst.rows_eq_nil hentity) a

/-! ### Persons with tags -/

/-- Persons have tags, which the records of another entity link to them. -/
def tagsOfPerson : Relation := ⟨"tags", "Person", "Tag", .manyToMany, "id", "id", some "Tagging"⟩

/-- A resolver of persons and tags, with or without an entity for the links. -/
def personsAndTags (links : List Entity) : Resolver where
  schema := listing (identified "Person" :: identified "Tag" :: links) [tagsOfPerson]

/-- The way from a person to the tags. -/
def tagsOfPersonById : Path :=
  ⟨"Person", [⟨"Person", "tags", .join tagsOfPerson.toJoin⟩, ⟨"Tag", "id", .value false⟩], .int64, true, true, false⟩

/-- With an entity for the links, the way leads to nothing else. -/
theorem tagging_defined :
    (personsAndTags [identified "Tagging"]).schema.isValid = true ∧
    (personsAndTags [identified "Tagging"]).schema.hasEntity "Tagging" = true ∧
    ∀ step ∈ tagsOfPersonById.steps, ∀ name, step.Visits name →
      (personsAndTags [identified "Tagging"]).schema.hasEntity name = true := by
  have hvalid : (personsAndTags [identified "Tagging"]).schema.isValid = true := by decide +kernel
  have hedge : (personsAndTags [identified "Tagging"]).schema.hasEntity "Tagging" = true := by decide +kernel
  have hresolve : ((personsAndTags [identified "Tagging"]).resolve "Person" "tags.id" .empty).1 =
      .ok tagsOfPersonById := by
    decide +kernel
  obtain ⟨_, hpaths, _⟩ := references_of_valid hvalid
  refine ⟨hvalid, hedge, (hpaths .empty .empty _ _ _ hresolve).2.2.1 ?_⟩
  rintro name ⟨q, hq, hname⟩
  obtain rfl : q = tagsOfPerson := List.mem_singleton.mp hq
  obtain rfl := Option.some.inj hname
  exact hedge

/-- Without one the schema is valid all the same, and the way leads along records of an entity that is not there. -/
theorem tagging_undefined :
    (personsAndTags []).schema.isValid = true ∧ (personsAndTags []).schema.NamesEdge "Tagging" ∧
    (personsAndTags []).schema.hasEntity "Tagging" = false ∧
    ((personsAndTags []).resolve "Person" "tags.id" .empty).1 = .ok tagsOfPersonById ∧
    ∃ step ∈ tagsOfPersonById.steps, step.Visits "Tagging" := by
  refine ⟨by decide +kernel, ⟨tagsOfPerson, List.mem_singleton.mpr rfl, rfl⟩, by decide +kernel,
    by decide +kernel, _, List.mem_cons_self, .edge rfl⟩

end ContextualQuery
