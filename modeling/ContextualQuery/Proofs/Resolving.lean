import ContextualQuery.Proofs.Mirroring
import ContextualQuery.Proofs.RelationKeys
/-!
# Names that have paths

A dotted name has a path exactly if it can be walked: from the entity along its parts, through embedded objects and
along relations, to a field with values.

* `SplitsAtDots`, `splitsAtDots_iff`: the parts of a name;
* `Schema.Leads`, `Schema.Walkable`: walks as a relation, whatever counts as a relation of an entity;
* `Schema.exists_walk`, `Schema.leads_of_walk`: all walks are found, and what is found is a walk, so that
  `Schema.exists_resolve_iff` tells which names have paths;
* `Schema.Declares`, `Schema.Crosses`, `Schema.finds_iff`: the relations of an entity, and those of others that are
  found on it under names without dots;
* `Schema.Takes`, `Schema.MayMiss`: what a step is, and whether it may lead to nothing;
* `Walk.Traced`: what a walk tells of its steps, `Walk.Traced.after` for one more step and `Schema.traced_walk` for
  all, and from it `Path.Describes` of paths;
* `resolves_walkable` puts these together. A name with a path that leads along a relation of another entity is in
  `crossing_resolved`.
-/

namespace ContextualQuery

/-! ## 1. Parts of names -/

theorem dottedNames_eq_splitOn (cs : List Char) : dottedNames cs = cs.splitOn '.' := by
  induction cs with
  | nil => rfl
  | cons c cs ih =>
    unfold dottedNames
    rw [List.splitOn, List.splitOnP_cons_eq_if_modifyHead, ← List.splitOn, ← ih]
    by_cases hc : c = '.'
    · rw [if_pos hc, if_pos (beq_iff_eq.mpr hc)]
    · rw [if_neg hc, if_neg (by rwa [beq_iff_eq])]
      cases hd : dottedNames cs with
      | nil => exact absurd hd (dottedNames_ne_nil cs)
      | cons name names => rfl

theorem no_dot_of_mem_dottedNames {cs name : List Char} (h : name ∈ dottedNames cs) : '.' ∉ name := by
  induction cs generalizing name with
  | nil =>
    cases List.mem_singleton.mp h
    exact List.not_mem_nil
  | cons c cs ih =>
    unfold dottedNames at h
    split at h
    · rcases List.mem_cons.mp h with rfl | h
      · exact List.not_mem_nil
      · exact ih h
    · next hc =>
      split at h
      · next hd => exact absurd hd (dottedNames_ne_nil cs)
      · next first names hd =>
        rw [hd] at ih
        rcases List.mem_cons.mp h with rfl | h
        · rw [List.mem_cons, not_or]
          exact ⟨fun he => hc he.symm, ih List.mem_cons_self⟩
        · exact ih (List.mem_cons_of_mem _ h)

/-- The names are what a text has between its dots. -/
def SplitsAtDots (field : String) (names : List String) : Prop :=
  names ≠ [] ∧ (∀ name ∈ names, '.' ∉ name.toList) ∧ String.intercalate "." names = field

/-- **Every text splits at its dots in one way.** -/
theorem splitsAtDots_iff {field : String} {names : List String} :
    SplitsAtDots field names ↔ names = (dottedNames field.toList).map String.ofList := by
  constructor
  · rintro ⟨hne, hdots, rfl⟩
    have hsplit : (['.'].intercalate (names.map String.toList)).splitOn '.' = names.map String.toList := by
      refine List.splitOn_intercalate '.' ?_ (by simpa using hne)
      exact List.forall_mem_map.mpr hdots
    have hround : (names.map String.toList).map String.ofList = names := by
      rw [List.map_map]
      have hid : (String.ofList ∘ String.toList) = id := funext fun _ => String.ofList_toList
      rw [hid, List.map_id]
    rw [dottedNames_eq_splitOn, String.toList_intercalate]
    exact ((congrArg (List.map String.ofList) hsplit).trans hround).symm
  · rintro rfl
    refine ⟨fun h => dottedNames_ne_nil _ (List.map_eq_nil_iff.mp h), ?_, intercalate_names field⟩
    refine List.forall_mem_map.mpr fun name hname => ?_
    rw [String.toList_ofList]
    exact no_dot_of_mem_dottedNames hname

/-! ## 2. Walks -/

namespace Schema

variable {s : Schema} {entity : String}

/-- Names lead from an entity to one, each as that of an embedded field, or of a relation where no field has it. What
counts as a relation of an entity is left open. -/
inductive Leads (s : Schema) (has : String → String → Relation → Prop) : String → List String → String → Prop
  | here {e : String} : Leads s has e [] e
  | embedded {e name target reached : String} {f : Field} {names : List String}
      (field : s.field? e name = some f) (objects : f.type.content = .objects target)
      (rest : Leads s has target names reached) : Leads s has e (name :: names) reached
  | related {e name reached : String} {r : Relation} {names : List String}
      (entity : s.hasEntity e = true) (noField : s.field? e name = none) (relation : has e name r)
      (rest : Leads s has r.toEntity names reached) : Leads s has e (name :: names) reached

/-- A dotted name can be walked from an entity: it has at most one part more than there may be hops, none is empty,
all but the last lead to an entity, and the last names a field with values there. -/
def Walkable (s : Schema) (has : String → String → Relation → Prop) (maxHops : Nat) (entity field : String) :
    Prop :=
  s.hasEntity entity = true ∧ ∃ inner last reached f d, SplitsAtDots field (inner ++ [last]) ∧
    (inner ++ [last]).length ≤ maxHops + 1 ∧ (∀ name ∈ inner ++ [last], name ≠ "") ∧
    s.Leads has entity inner reached ∧ s.field? reached last = some f ∧ f.type.content = .values d

theorem Leads.mono {has has' : String → String → Relation → Prop} {e reached : String} {names : List String}
    (h : s.Leads has e names reached)
    (hmono : ∀ e, s.hasEntity e = true → ∀ name ∈ names, ∀ r, has e name r → has' e name r) :
    s.Leads has' e names reached := by
  induction h with
  | here => exact .here
  | embedded field objects _ ih =>
    exact .embedded field objects (ih fun e he n hn => hmono e he n (List.mem_cons_of_mem _ hn))
  | related entity noField relation _ ih =>
    exact .related entity noField (hmono _ entity _ List.mem_cons_self _ relation)
      (ih fun e he n hn => hmono e he n (List.mem_cons_of_mem _ hn))

/-- What is walked depends on relations under names without dots only. -/
theorem Walkable.mono {has has' : String → String → Relation → Prop} {maxHops : Nat} {field : String}
    (h : s.Walkable has maxHops entity field)
    (hmono : ∀ e, s.hasEntity e = true → ∀ name, '.' ∉ name.toList → ∀ r, has e name r → has' e name r) :
    s.Walkable has' maxHops entity field := by
  obtain ⟨hentity, inner, last, reached, f, d, hsplit, hlength, hempty, hleads, hlast⟩ := h
  refine ⟨hentity, inner, last, reached, f, d, hsplit, hlength, hempty, hleads.mono ?_, hlast⟩
  intro e he name hname
  exact hmono e he name (hsplit.2.1 name (List.mem_append_left _ hname))

/-- What is found under the key of an entity and a name. -/
abbrev Finds (s : Schema) (e n : String) (r : Relation) : Prop := s.relation? e n = some r

section

variable {name : String} {rest : List String} {w : Walk}

theorem walk_values {f : Field} {d : Domain} (hname : name ≠ "") (hf : s.field? entity name = some f)
    (hd : f.type.content = .values d) :
    s.walk entity [name] = .ok ⟨[⟨entity, name, .value f.type.isArray⟩], f, d, f.type.isNullable⟩ := by
  have hempty : name.isEmpty = false := by simpa using hname
  unfold walk
  rw [hempty, attribute?_eq_field_iff.mpr hf]
  simp only [Bool.false_eq_true, if_false, hd]

theorem walk_embedded {f : Field} {target : String} (hname : name ≠ "") (hf : s.field? entity name = some f)
    (hobjects : f.type.content = .objects target) (hw : s.walk target rest = .ok w) :
    s.walk entity (name :: rest) =
      .ok (w.after ⟨entity, name, .embedded target f.type.isArray⟩ f.type.isNullable) := by
  have hempty : name.isEmpty = false := by simpa using hname
  cases rest with
  | nil => cases hw
  | cons next more =>
    rw [walk, hempty, attribute?_eq_field_iff.mpr hf]
    simp only [Bool.false_eq_true, if_false, hobjects, hw]
    rfl

theorem walk_related {r : Relation} (hname : name ≠ "") (hentity : s.hasEntity entity = true)
    (hf : s.field? entity name = none) (hr : s.relation? entity name = some r)
    (hw : s.walk r.toEntity rest = .ok w) :
    s.walk entity (name :: rest) = .ok (w.after ⟨entity, name, .join r.toJoin⟩ true) := by
  have hempty : name.isEmpty = false := by simpa using hname
  cases rest with
  | nil => cases hw
  | cons next more =>
    rw [walk, hempty, attribute?_eq_relation_iff.mpr ⟨hentity, hf, hr⟩]
    simp only [Bool.false_eq_true, if_false, hw]
    rfl

theorem ne_empty_of_walk (h : s.walk entity (name :: rest) = .ok w) : name ≠ "" := by
  rintro rfl
  have hempty : ("" : String).isEmpty = true := rfl
  rw [walk, hempty, if_pos rfl] at h
  cases h

end

/-- **Every walk to a field with values is found.** -/
theorem exists_walk {names : List String} {reached last : String} {f : Field} {d : Domain}
    (hleads : s.Leads s.Finds entity names reached) (hempty : ∀ name ∈ names ++ [last], name ≠ "")
    (hf : s.field? reached last = some f) (hd : f.type.content = .values d) :
    ∃ w, s.walk entity (names ++ [last]) = .ok w := by
  induction hleads with
  | here => exact ⟨_, walk_values (hempty last List.mem_cons_self) hf hd⟩
  | embedded field objects _ ih =>
    obtain ⟨hname, hrest⟩ := List.forall_mem_cons.mp hempty
    obtain ⟨w, hw⟩ := ih hrest hf
    exact ⟨_, walk_embedded hname field objects hw⟩
  | related entity noField relation _ ih =>
    obtain ⟨hname, hrest⟩ := List.forall_mem_cons.mp hempty
    obtain ⟨w, hw⟩ := ih hrest hf
    exact ⟨_, walk_related hname entity noField relation hw⟩

/-- **A walk that is found leads to a field with values.** -/
theorem leads_of_walk {names : List String} {w : Walk} (h : s.walk entity names = .ok w) :
    (∀ name ∈ names, name ≠ "") ∧ ∃ inner last reached f d, names = inner ++ [last] ∧
      s.Leads s.Finds entity inner reached ∧ s.field? reached last = some f ∧ f.type.content = .values d := by
  induction names generalizing entity w with
  | nil => cases h
  | cons name rest ih =>
    have hname := ne_empty_of_walk h
    rcases walk_cases h with ⟨f, d, ha, hd, rfl, _⟩ | ⟨f, target, w', ha, hobjects, hw, _⟩ |
      ⟨r, w', ha, hw, _⟩
    · refine ⟨List.forall_mem_singleton.mpr hname, [], name, entity, f, d, rfl, .here, ?_, hd⟩
      exact attribute?_eq_field_iff.mp ha
    · obtain ⟨hrest, inner, last, reached, g, d, rfl, hleads, hlast⟩ := ih hw
      refine ⟨List.forall_mem_cons.mpr ⟨hname, hrest⟩, name :: inner, last, reached, g, d, rfl, ?_, hlast⟩
      exact .embedded (attribute?_eq_field_iff.mp ha) hobjects hleads
    · obtain ⟨hrest, inner, last, reached, g, d, rfl, hleads, hlast⟩ := ih hw
      obtain ⟨hentity, hfield, hfind⟩ := attribute?_eq_relation_iff.mp ha
      refine ⟨List.forall_mem_cons.mpr ⟨hname, hrest⟩, name :: inner, last, reached, g, d, rfl, ?_, hlast⟩
      exact .related hentity hfield hfind hleads

/-! ## 3. Names that are followed -/

theorem resolve_eq_ok_iff {maxHops : Nat} {field : String} {p : Path} :
    s.resolve maxHops entity field = .ok p ↔ s.hasEntity entity = true ∧
      ∃ names w, SplitsAtDots field names ∧ names.length ≤ maxHops + 1 ∧ s.walk entity names = .ok w ∧
        p = w.toPath entity := by
  constructor
  · intro h
    rw [resolve] at h
    split at h
    · cases h
    · next hentity =>
      simp only at h
      split at h
      · cases h
      · next hlength =>
        split at h
        · next w hw =>
          cases h
          refine ⟨by simpa using hentity, _, w, splitsAtDots_iff.mpr rfl, ?_, hw, rfl⟩
          omega
        · cases h
  · rintro ⟨hentity, names, w, hsplit, hlength, hw, rfl⟩
    obtain rfl := splitsAtDots_iff.mp hsplit
    rw [resolve, hentity]
    simp only [Bool.not_true, Bool.false_eq_true, if_false]
    rw [if_neg (by omega), hw]

/-- **A name has a path exactly if it can be walked.** -/
theorem exists_resolve_iff {maxHops : Nat} {field : String} :
    (∃ p, s.resolve maxHops entity field = .ok p) ↔ s.Walkable s.Finds maxHops entity field := by
  constructor
  · rintro ⟨p, hp⟩
    obtain ⟨hentity, names, w, hsplit, hlength, hw, _⟩ := resolve_eq_ok_iff.mp hp
    obtain ⟨hempty, inner, last, reached, f, d, rfl, hleads, hlast⟩ := leads_of_walk hw
    exact ⟨hentity, inner, last, reached, f, d, hsplit, hlength, hempty, hleads, hlast⟩
  · rintro ⟨hentity, inner, last, reached, f, d, hsplit, hlength, hempty, hleads, hf, hd⟩
    obtain ⟨w, hw⟩ := exists_walk hleads hempty hf hd
    exact ⟨_, resolve_eq_ok_iff.mpr ⟨hentity, _, w, hsplit, hlength, hw, rfl⟩⟩

/-! ## 4. Relations of an entity -/

/-- A relation of an entity under a name. -/
def Declares (s : Schema) (e n : String) (r : Relation) : Prop :=
  r ∈ s.relations.entries ∧ r.fromEntity = e ∧ r.name = n

/-- A relation that crosses into an entity: the entity is named by that of the relation, a dot and more, and the
relation by the same and, behind a dot, the name. -/
def Crosses (s : Schema) (e n : String) (r : Relation) : Prop :=
  r ∈ s.relations.entries ∧ ∃ m, e = Relation.keyOf r.fromEntity m ∧ r.name = Relation.keyOf m n

/-- **Under a name without dots the relations of an entity are found, and those that cross into it.** -/
theorem finds_iff {e n : String} {r : Relation} (hn : '.' ∉ n.toList) :
    s.Finds e n r ↔ s.Declares e n r ∨ s.Crosses e n r := by
  constructor
  · intro h
    obtain ⟨hr, hkey⟩ := mem_of_relation? h
    rcases Relation.keyOf_eq_iff.mp hkey with ⟨hfrom, hname⟩ | ⟨m, hm | ⟨_, rfl⟩⟩
    · exact .inl ⟨hr, hfrom, hname⟩
    · exact .inr ⟨hr, m, hm⟩
    · exact absurd (Relation.dot_mem_keyOf m r.name) hn
  · rintro (⟨hr, rfl, rfl⟩ | ⟨hr, m, rfl, hname⟩)
    · exact relation?_of_mem hr
    · have hkey : r.key = Relation.keyOf (Relation.keyOf r.fromEntity m) n :=
        Relation.keyOf_eq_iff.mpr (.inr ⟨m, .inl ⟨rfl, hname⟩⟩)
      rw [Finds, relation?, ← hkey]
      exact Register.find?_key hr

end Schema

/-! ## 5. Steps -/

/-- The entity that a step leads to. -/
def Step.target? (step : Step) : Option String :=
  match step.kind with
  | .value _ => none
  | .embedded entity _ => some entity
  | .join j => some j.toEntity

namespace Schema

variable {s : Schema} {entity : String}

/-- A step takes its attribute as what it is: a field with values, one with objects, or a relation. -/
inductive Takes (s : Schema) (has : String → String → Relation → Prop) : Step → Prop
  | value {e name : String} {f : Field} {d : Domain} (field : s.field? e name = some f)
      (values : f.type.content = .values d) : Takes s has ⟨e, name, .value f.type.isArray⟩
  | embedded {e name target : String} {f : Field} (field : s.field? e name = some f)
      (objects : f.type.content = .objects target) : Takes s has ⟨e, name, .embedded target f.type.isArray⟩
  | join {e name : String} {r : Relation} (entity : s.hasEntity e = true) (noField : s.field? e name = none)
      (relation : has e name r) : Takes s has ⟨e, name, .join r.toJoin⟩

theorem Takes.imp {has has' : String → String → Relation → Prop} {step : Step} (h : s.Takes has step)
    (himp : ∀ e r, has e step.name r → has' e step.name r) : s.Takes has' step := by
  cases h with
  | value field values => exact .value field values
  | embedded field objects => exact .embedded field objects
  | join entity noField relation => exact .join entity noField (himp _ _ relation)

/-- A step that may lead to nothing: a join, or an optional field. -/
def MayMiss (s : Schema) (step : Step) : Prop :=
  step.join? ≠ none ∨ ∃ f, s.field? step.entity step.name = some f ∧ f.type.occurrence = .optional

theorem mayMiss_iff_of_field {step : Step} {f : Field} (hjoin : step.join? = none)
    (hf : s.field? step.entity step.name = some f) : f.type.isNullable = true ↔ s.MayMiss step := by
  rw [FieldType.isNullable, beq_iff_eq]
  constructor
  · exact fun h => .inr ⟨f, hf, h⟩
  · rintro (h | ⟨g, hg, h⟩)
    · exact absurd hjoin h
    · cases hf.symm.trans hg
      exact h

end Schema

/-- What a walk from an entity tells of its steps. -/
structure Walk.Traced (s : Schema) (entity : String) (w : Walk) : Prop where
  starts : ∃ first rest, w.steps = first :: rest ∧ first.entity = entity
  chained : w.steps.IsChain fun a b => a.target? = some b.entity
  taken : ∀ step ∈ w.steps, s.Takes s.Finds step
  ends : ∃ step, w.steps.getLast? = some step ∧ s.field? step.entity step.name = some w.last ∧
    w.last.type.content = .values w.domain
  nullable : w.isNullable = true ↔ ∃ step ∈ w.steps, s.MayMiss step

namespace Walk.Traced

variable {s : Schema}

theorem single {entity name : String} {f : Field} {d : Domain} (hf : s.field? entity name = some f)
    (hd : f.type.content = .values d) :
    Traced s entity ⟨[⟨entity, name, .value f.type.isArray⟩], f, d, f.type.isNullable⟩ where
  starts := ⟨_, [], rfl, rfl⟩
  chained := .singleton _
  taken := List.forall_mem_singleton.mpr (.value hf hd)
  ends := ⟨_, rfl, hf, hd⟩
  nullable := by
    have hmiss : f.type.isNullable = true ↔ s.MayMiss ⟨entity, name, .value f.type.isArray⟩ :=
      Schema.mayMiss_iff_of_field rfl hf
    rw [hmiss]
    simp only [List.mem_singleton, exists_eq_left]

/-- **One more step at the beginning.** -/
theorem after {w : Walk} {step : Step} {target : String} {isNullable : Bool} (h : w.Traced s target)
    (hstep : s.Takes s.Finds step) (htarget : step.target? = some target)
    (hnullable : isNullable = true ↔ s.MayMiss step) : (w.after step isNullable).Traced s step.entity := by
  obtain ⟨⟨first, rest, hsteps, hfirst⟩, hchained, htaken, ⟨last, hlast, hends⟩, hmiss⟩ := h
  refine ⟨⟨step, w.steps, rfl, rfl⟩, ?_, List.forall_mem_cons.mpr ⟨hstep, htaken⟩, ⟨last, ?_, hends⟩, ?_⟩
  · show (step :: w.steps).IsChain _
    rw [hsteps] at hchained ⊢
    exact .cons_cons (hfirst ▸ htarget) hchained
  · show (step :: w.steps).getLast? = some last
    rw [hsteps] at hlast ⊢
    rw [List.getLast?_cons_cons, hlast]
  · show (isNullable || w.isNullable) = true ↔ ∃ x ∈ step :: w.steps, s.MayMiss x
    rw [Bool.or_eq_true, hnullable, hmiss, List.exists_mem_cons_iff]

end Walk.Traced

namespace Schema

variable {s : Schema}

/-- **Every walk tells of its steps.** -/
theorem traced_walk {names : List String} {entity : String} {w : Walk} (h : s.walk entity names = .ok w) :
    w.Traced s entity := by
  induction names generalizing entity w with
  | nil => cases h
  | cons name rest ih =>
    rcases walk_cases h with ⟨f, d, ha, hd, rfl, rfl⟩ | ⟨f, target, w', ha, hobjects, hw, rfl⟩ |
      ⟨r, w', ha, hw, rfl⟩
    · exact .single (attribute?_eq_field_iff.mp ha) hd
    · have hf := attribute?_eq_field_iff.mp ha
      exact (ih hw).after (.embedded hf hobjects) rfl (mayMiss_iff_of_field rfl hf)
    · obtain ⟨hentity, hfield, hfind⟩ := attribute?_eq_relation_iff.mp ha
      exact (ih hw).after (.join hentity hfield hfind) rfl (iff_of_true rfl (.inl nofun))

end Schema

/-! ## 6. Paths of names -/

/-- What the path of a name is. Its steps have the parts of the name, each stands on the entity that the one before
it leads to, and takes its attribute as what it is; and the flags are those of the steps and of the last field. -/
structure Path.Describes (s : Schema) (maxHops : Nat) (entity field : String) (p : Path) : Prop where
  begins : p.entity = entity
  dotted : p.dotted = field
  parts : SplitsAtDots field (p.steps.map (·.name))
  length : p.steps.length ≤ maxHops + 1
  starts : ∃ first rest, p.steps = first :: rest ∧ first.entity = entity
  chained : p.steps.IsChain fun a b => a.target? = some b.entity
  taken : ∀ step ∈ p.steps, s.Takes (fun e n r => s.Declares e n r ∨ s.Crosses e n r) step
  ends : ∃ step f, p.steps.getLast? = some step ∧ s.field? step.entity step.name = some f ∧
    f.type.content = .values p.domain ∧ (p.isSortable = true ↔ f.isSortable = true ∧ p.isCollection = false)
  collection : p.isCollection = true ↔ ∃ step ∈ p.steps, step.isCollection = true
  nullable : p.isNullable = true ↔ ∃ step ∈ p.steps, s.MayMiss step

namespace Schema

variable {s : Schema} {maxHops : Nat} {entity field : String}

theorem describes_of_resolve {p : Path} (h : s.resolve maxHops entity field = .ok p) :
    p.Describes s maxHops entity field := by
  obtain ⟨_, names, w, hsplit, hlength, hw, rfl⟩ := resolve_eq_ok_iff.mp h
  have htraced := traced_walk hw
  have hnames : w.steps.map (·.name) = names := names_walk hw
  have hsteps : w.steps.length = names.length := by rw [← hnames, List.length_map]
  have htaken : ∀ step ∈ w.steps, s.Takes (fun e n r => s.Declares e n r ∨ s.Crosses e n r) step := by
    intro step hstep
    have hdot : '.' ∉ step.name.toList := hsplit.2.1 _ (hnames ▸ List.mem_map_of_mem hstep)
    exact (htraced.taken step hstep).imp fun e r => (finds_iff hdot).mp
  have hsortable : (w.toPath entity).isSortable = true ↔
      w.last.isSortable = true ∧ (w.toPath entity).isCollection = false := by
    show (w.last.isSortable && !w.isCollection) = true ↔ w.last.isSortable = true ∧ w.isCollection = false
    rw [Bool.and_eq_true, Bool.not_eq_true']
  obtain ⟨last, hlast, hfield, hdomain⟩ := htraced.ends
  exact {
    begins := rfl
    dotted := (congrArg (String.intercalate ".") hnames).trans hsplit.2.2
    parts := hnames ▸ hsplit
    length := hsteps ▸ hlength
    starts := htraced.starts
    chained := htraced.chained
    taken := htaken
    ends := ⟨last, w.last, hlast, hfield, hdomain, hsortable⟩
    collection := List.any_eq_true
    nullable := htraced.nullable }

/-- A name can be walked with what is found exactly if it can with relations of the entities and those that cross
into them. -/
theorem walkable_finds_iff : s.Walkable s.Finds maxHops entity field ↔
    s.Walkable (fun e n r => s.Declares e n r ∨ s.Crosses e n r) maxHops entity field :=
  ⟨fun h => h.mono fun _ _ _ hn _ => (finds_iff hn).mp, fun h => h.mono fun _ _ _ hn _ => (finds_iff hn).mpr⟩

end Schema

/-- **The names that have paths.** A resolver, whatever it has been asked before, gives a dotted name a path exactly
if it can be walked from the entity along embedded fields and relations of the entity reached, or such as cross into
it; with those of the entities alone every walk is found, and only these where no entity is named by that of a
relation, a dot and more. The path is the walk: of no more steps than it may have, however often entities come
again. -/
theorem resolves_walkable {r : Resolver} {c : PathCache} (hc : r.Reached c) (entity field : String) :
    ((∃ p, (r.resolve entity field c).1 = .ok p) ↔
      r.schema.Walkable (fun e n q => r.schema.Declares e n q ∨ r.schema.Crosses e n q) r.maxHops entity field) ∧
    (r.schema.Walkable r.schema.Declares r.maxHops entity field →
      ∃ p, (r.resolve entity field c).1 = .ok p) ∧
    ((∀ q ∈ r.schema.relations.entries, ∀ m, r.schema.hasEntity (Relation.keyOf q.fromEntity m) = false) →
      ((∃ p, (r.resolve entity field c).1 = .ok p) ↔
        r.schema.Walkable r.schema.Declares r.maxHops entity field)) ∧
    ∀ p, (r.resolve entity field c).1 = .ok p → p.Describes r.schema r.maxHops entity field := by
  have hiff : (∃ p, r.follow entity field = .ok p) ↔
      r.schema.Walkable (fun e n q => r.schema.Declares e n q ∨ r.schema.Crosses e n q) r.maxHops entity field :=
    Schema.exists_resolve_iff.trans Schema.walkable_finds_iff
  rw [Resolver.resolve_eq_follow hc.faithful]
  refine ⟨hiff, fun h => hiff.mpr (h.mono fun _ _ _ _ _ => .inl), fun hapart => ?_,
    fun p hp => Schema.describes_of_resolve hp⟩
  rw [hiff]
  refine ⟨fun h => h.mono fun e he n _ q hq => hq.resolve_right ?_, fun h => h.mono fun _ _ _ _ _ => .inl⟩
  rintro ⟨hmem, m, rfl, _⟩
  exact absurd he (Bool.eq_false_iff.mp (hapart q hmem m))

/-! ### Pets and their owners -/

/-- A pet has an owner. -/
def ownerOfPet : Relation := ⟨"owner", "Pet", "Person", .manyToOne, "id", "id", none⟩

/-- An owner has pets. -/
def petsOfOwner : Relation := ⟨"pets", "Person", "Pet", .oneToMany, "id", "id", none⟩

/-- A resolver of pets and persons that goes three steps before the last. -/
def petsAndOwners : Resolver where
  schema := listing [identified "Pet", identified "Person"] [ownerOfPet, petsOfOwner]
  maxHops := 3

/-- From a pet to the owner, to all pets of the owner, and to the owner of these. -/
def ownersAgain : Path :=
  ⟨"Pet", [⟨"Pet", "owner", .join ownerOfPet.toJoin⟩, ⟨"Person", "pets", .join petsOfOwner.toJoin⟩,
    ⟨"Pet", "owner", .join ownerOfPet.toJoin⟩, ⟨"Person", "id", .value false⟩], .int64, true, true, false⟩

/-- The way goes round, and it is walked on relations of the entities alone. -/
theorem ownersAgain_resolved :
    petsAndOwners.Reached .empty ∧
    (petsAndOwners.resolve "Pet" "owner.pets.owner.id" .empty).1 = .ok ownersAgain ∧
    ownersAgain.Describes petsAndOwners.schema 3 "Pet" "owner.pets.owner.id" ∧
    petsAndOwners.schema.Walkable petsAndOwners.schema.Declares 3 "Pet" "owner.pets.owner.id" := by
  have hempty : petsAndOwners.Reached .empty := .empty
  have hdotless : ∀ entity ∈ petsAndOwners.schema.entities.entries, '.' ∉ entity.name.toList := by
    decide +kernel
  have hresolve : (petsAndOwners.resolve "Pet" "owner.pets.owner.id" .empty).1 = .ok ownersAgain := by
    decide +kernel
  obtain ⟨_, _, hexact, hdescribes⟩ := resolves_walkable hempty "Pet" "owner.pets.owner.id"
  refine ⟨hempty, hresolve, hdescribes _ hresolve, (hexact fun q _ m => ?_).mp ⟨_, hresolve⟩⟩
  refine Bool.eq_false_iff.mpr fun hentity => ?_
  exact Schema.no_dot_of_hasEntity hdotless hentity (Relation.dot_mem_keyOf _ m)

/-- On addresses the city of a person is followed, of which they know nothing. -/
theorem crossing_resolved :
    ∃ p, ((⟨listing places crossing, true, 8⟩ : Resolver).resolve "Person.address" "city.id" .empty).1 = .ok p ∧
      ¬ (listing places crossing).Walkable (listing places crossing).Declares 8 "Person.address" "city.id" := by
  refine ⟨⟨"Person.address", [⟨"Person.address", "city", .join (leadsToCity "Person" "address.city").toJoin⟩,
    ⟨"City", "id", .value false⟩], .int64, true, false, true⟩, by decide +kernel, ?_⟩
  have hparts : (dottedNames "city.id".toList).map String.ofList = ["city", "id"] := by decide +kernel
  have hnoField : (listing places crossing).field? "Person.address" "city" = none := by decide +kernel
  have hnone : ∀ q ∈ (listing places crossing).relations.entries, q.fromEntity ≠ "Person.address" := by
    decide +kernel
  rintro ⟨_, inner, last, reached, f, d, hsplit, _, _, hleads, _⟩
  have hnames := (splitsAtDots_iff.mp hsplit).trans hparts
  cases hleads with
  | here => cases (List.cons.inj hnames).2
  | embedded field _ _ =>
    obtain ⟨rfl, _⟩ := List.cons.inj hnames
    cases hnoField.symm.trans field
  | related _ _ relation _ =>
    obtain ⟨hmem, hfrom, _⟩ := relation
    exact hnone _ hmem hfrom

end ContextualQuery
