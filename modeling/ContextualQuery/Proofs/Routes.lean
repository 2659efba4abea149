import ContextualQuery.Proofs.Remembering
import ContextualQuery.Proofs.Resolving
import Mathlib.Algebra.BigOperators.Group.Finset.Basic
import Mathlib.Algebra.BigOperators.Ring.Finset
import Mathlib.Algebra.Order.BigOperators.Group.Finset
import Mathlib.Order.Lattice.Nat
/-!
# How much a resolver remembers

There are infinitely many texts, but a memory holds only names that can be walked, and between the dots of such
a name stand few parts, each found on an entity of the schema.

* `Schema.found`, `Schema.mem_found_iff`: the names under which attributes are found on an entity, and
  `Schema.breadth`, the greatest number of them on one;
* `Schema.routes`: the lists of names that lead on from an entity, `mem_routes_of_walk` for what is walked, and
  `card_routes_le`: how many there are, although relations may lead round in circles;
* `Resolver.memory`: what is remembered after any calls; `PathCache.Holds.keys_subset` puts its keys among the
  routes;
* `memory_bounded` puts these together.
-/

namespace ContextualQuery

/-! ## 1. Names that are found -/

/-- The entity that an attribute leads to. -/
def Attribute.target? : Attribute → Option String
  | field f => f.type.embedded?
  | relation r => some r.toEntity

namespace Schema

variable {s : Schema} {e n : String}

/-- The names under which attributes are found on an entity: the names of its fields, and what stands behind the
entity and a dot in the keys of relations. -/
def found (s : Schema) (e : String) : Finset String :=
  match s.entity? e with
  | none => ∅
  | some entity =>
    (entity.fields.map (·.name)).toFinset ∪ (s.relations.entries.filterMap fun r =>
      (r.key.toList.dropPrefix? (Relation.keyOf e "").toList).map String.ofList).toFinset

/-- What stands in a key behind an entity and a dot. -/
theorem dropPrefix?_key_iff {r : Relation} :
    (r.key.toList.dropPrefix? (Relation.keyOf e "").toList).map String.ofList = some n ↔
      r.key = Relation.keyOf e n := by
  have hkey (m : String) : (Relation.keyOf e m).toList = (Relation.keyOf e "").toList ++ m.toList := by
    rw [Relation.toList_keyOf, Relation.toList_keyOf, List.append_assoc]
    rfl
  rw [Option.map_eq_some_iff]
  constructor
  · rintro ⟨cs, hcs, rfl⟩
    obtain ⟨start, hsplit, hstart⟩ := List.dropPrefix?_eq_some_iff.mp hcs
    rw [← String.toList_inj, hkey, hsplit, eq_of_beq hstart, String.toList_ofList]
  · intro h
    refine ⟨n.toList, List.dropPrefix?_eq_some_iff.mpr ⟨_, ?_, beq_self_eq_true _⟩, String.ofList_toList⟩
    rw [h, hkey]

theorem exists_relation?_iff : (∃ r, s.relation? e n = some r) ↔
    ∃ r ∈ s.relations.entries, r.key = Relation.keyOf e n := by
  rw [relation?, ← Option.isSome_iff_exists, Register.find?, List.find?_isSome]
  simp only [beq_iff_eq]

/-- **These are the names that attributes have.** -/
theorem mem_found_iff : n ∈ s.found e ↔ ∃ a, s.attribute? e n = some a := by
  unfold found
  split
  · next hentity =>
    refine iff_of_false (Finset.notMem_empty n) ?_
    rintro ⟨a, ha⟩
    obtain ⟨entity, hsome, _⟩ := Option.bind_eq_some_iff.mp ha
    cases hentity.symm.trans hsome
  · next entity hentity =>
    rw [Finset.mem_union, List.mem_toFinset, List.mem_toFinset, List.mem_filterMap]
    simp only [dropPrefix?_key_iff]
    rw [← exists_field?_iff hentity, ← exists_relation?_iff]
    constructor
    · rintro (⟨f, hf⟩ | ⟨r, hr⟩)
      · exact ⟨.field f, attribute?_eq_field_iff.mpr hf⟩
      · cases hfield : s.field? e n with
        | some f => exact ⟨.field f, attribute?_eq_field_iff.mpr hfield⟩
        | none =>
          have hthere : s.hasEntity e = true := hasEntity_iff.mpr ⟨entity, hentity⟩
          exact ⟨.relation r, attribute?_eq_relation_iff.mpr ⟨hthere, hfield, hr⟩⟩
    · rintro ⟨a, ha⟩
      cases a with
      | field f => exact .inl ⟨f, attribute?_eq_field_iff.mp ha⟩
      | relation r => exact .inr ⟨r, (attribute?_eq_relation_iff.mp ha).2.2⟩

/-- The names of the entities. -/
def entityNames (s : Schema) : Finset String := (s.entities.entries.map (·.name)).toFinset

/-- The greatest number of names that are found on one entity. -/
def breadth (s : Schema) : Nat := s.entityNames.sup fun e => (s.found e).card

theorem mem_entityNames_of_hasEntity (h : s.hasEntity e = true) : e ∈ s.entityNames := by
  obtain ⟨entity, hentity⟩ := hasEntity_iff.mp h
  obtain ⟨hmem, rfl⟩ := Register.mem_of_find? hentity
  exact List.mem_toFinset.mpr (List.mem_map_of_mem hmem)

theorem card_found_le (s : Schema) (e : String) : (s.found e).card ≤ s.breadth := by
  cases hentity : s.entity? e with
  | none =>
    rw [found, hentity]
    exact Nat.zero_le _
  | some entity =>
    have hthere : s.hasEntity e = true := hasEntity_iff.mpr ⟨entity, hentity⟩
    exact Finset.le_sup (f := fun e => (s.found e).card) (mem_entityNames_of_hasEntity hthere)

theorem card_entityNames_le (s : Schema) : s.entityNames.card ≤ s.entities.entries.length := by
  have hcard := List.toFinset_card_le (s.entities.entries.map (·.name))
  rwa [List.length_map] at hcard

/-! ## 2. Routes -/

/-- The lists of at least one and at most `n` names that lead on from an entity. -/
def routes (s : Schema) : Nat → String → Finset (List String)
  | 0, _ => ∅
  | n + 1, e => (s.found e).biUnion fun name =>
      insert [name] (match (s.attribute? e name).bind Attribute.target? with
        | none => ∅
        | some target => (routes s n target).image (name :: ·))

/-- **What is walked is a route.** -/
theorem mem_routes_of_walk {names : List String} {w : Walk} (h : s.walk e names = .ok w) {n : Nat}
    (hn : names.length ≤ n) : names ∈ s.routes n e := by
  induction names generalizing e w n with
  | nil => cases h
  | cons name rest ih =>
    obtain ⟨n, rfl⟩ := Nat.exists_eq_add_of_le' (Nat.le_trans (Nat.le_add_left 1 _) hn)
    have hrest : rest.length ≤ n := Nat.le_of_succ_le_succ hn
    -- the rest of the names is a route from where the first one leads
    have hstep {a : Attribute} {target : String} {w' : Walk} (ha : s.attribute? e name = some a)
        (htarget : a.target? = some target) (hw : s.walk target rest = .ok w') :
        name :: rest ∈ s.routes (n + 1) e := by
      rw [routes, Finset.mem_biUnion]
      refine ⟨name, mem_found_iff.mpr ⟨a, ha⟩, ?_⟩
      rw [ha, Option.bind_some, htarget]
      exact Finset.mem_insert_of_mem (Finset.mem_image_of_mem _ (ih hw hrest))
    rcases walk_cases h with ⟨f, d, ha, _, rfl, _⟩ | ⟨f, target, w', ha, hobjects, hw, _⟩ |
      ⟨r, w', ha, hw, _⟩
    · rw [routes, Finset.mem_biUnion]
      exact ⟨name, mem_found_iff.mpr ⟨_, ha⟩, Finset.mem_insert_self _ _⟩
    · refine hstep ha ?_ hw
      rw [Attribute.target?, FieldType.embedded?, hobjects]
    · exact hstep ha rfl hw

/-- **There are no more routes than lists of names, one factor for each name.** -/
theorem card_routes_le (s : Schema) (n : Nat) (e : String) :
    (s.routes n e).card ≤ ∑ i ∈ Finset.range n, s.breadth ^ (i + 1) := by
  induction n generalizing e with
  | zero => exact Nat.le_refl 0
  | succ n ih =>
    have hname : ∀ name ∈ s.found e, (insert [name]
        (match (s.attribute? e name).bind Attribute.target? with
          | none => ∅
          | some target => (s.routes n target).image (name :: ·))).card ≤
        (∑ i ∈ Finset.range n, s.breadth ^ (i + 1)) + 1 := by
      intro name _
      refine (Finset.card_insert_le _ _).trans (Nat.succ_le_succ ?_)
      split
      · exact Nat.zero_le _
      · exact Finset.card_image_le.trans (ih _)
    calc (s.routes (n + 1) e).card
        ≤ (s.found e).card * ((∑ i ∈ Finset.range n, s.breadth ^ (i + 1)) + 1) :=
          Finset.card_biUnion_le_card_mul _ _ _ hname
      _ ≤ s.breadth * ((∑ i ∈ Finset.range n, s.breadth ^ (i + 1)) + 1) :=
          Nat.mul_le_mul_right _ (s.card_found_le e)
      _ = ∑ i ∈ Finset.range (n + 1), s.breadth ^ (i + 1) := by
          rw [Finset.sum_range_succ', Nat.mul_add, Finset.mul_sum, Nat.zero_add, pow_one, Nat.mul_one]
          simp only [pow_succ']

/-- The names on a route are found somewhere. -/
theorem exists_mem_found_of_walk {names : List String} {w : Walk} (h : s.walk e names = .ok w) :
    ∀ name ∈ names, ∃ e, name ∈ s.found e := by
  induction names generalizing e w with
  | nil => exact nofun
  | cons name rest ih =>
    rcases walk_cases h with ⟨f, d, ha, _, rfl, _⟩ | ⟨f, target, w', ha, _, hw, _⟩ | ⟨r, w', ha, hw, _⟩
    · exact List.forall_mem_singleton.mpr ⟨e, mem_found_iff.mpr ⟨_, ha⟩⟩
    · exact List.forall_mem_cons.mpr ⟨⟨e, mem_found_iff.mpr ⟨_, ha⟩⟩, ih hw⟩
    · exact List.forall_mem_cons.mpr ⟨⟨e, mem_found_iff.mpr ⟨_, ha⟩⟩, ih hw⟩

end Schema

/-! ## 3. Memories -/

/-- What a resolver remembers after calls with entities and names, one after the other. -/
def Resolver.memory (r : Resolver) (calls : List (String × String)) : PathCache :=
  calls.foldl (fun c k => (r.resolve k.1 k.2 c).2) .empty

namespace PathCache.Holds

variable {c : PathCache} {r : Resolver} {looked : List (String × String)}

theorem memory (r : Resolver) (calls : List (String × String)) : (r.memory calls).Holds r calls := by
  induction calls using List.reverseRecOn with
  | nil => exact .empty r
  | append_singleton calls k ih =>
    rw [Resolver.memory, List.foldl_append]
    exact ih.resolve k.1 k.2

/-- The keys of a memory are names that are walked. -/
theorem walked (h : c.Holds r looked) {k : String × String} (hk : k ∈ c.keys) :
    r.schema.hasEntity k.1 = true ∧ ∃ names w, SplitsAtDots k.2 names ∧
      names.length ≤ r.maxHops + 1 ∧ r.schema.walk k.1 names = .ok w := by
  obtain ⟨_, _, path, hpath⟩ := (h.keys k).mp hk
  obtain ⟨hentity, names, w, hsplit, hlength, hw, _⟩ := Schema.resolve_eq_ok_iff.mp hpath
  exact ⟨hentity, names, w, hsplit, hlength, hw⟩

/-- Each is an entity with a route from it, written with dots. -/
theorem keys_subset (h : c.Holds r looked) :
    c.keys.toFinset ⊆ r.schema.entityNames.biUnion fun e =>
      (r.schema.routes (r.maxHops + 1) e).image fun names => (e, String.intercalate "." names) := by
  intro k hk
  obtain ⟨hentity, names, w, hsplit, hlength, hw⟩ := h.walked (List.mem_toFinset.mp hk)
  refine Finset.mem_biUnion.mpr ⟨k.1, Schema.mem_entityNames_of_hasEntity hentity, ?_⟩
  refine Finset.mem_image.mpr ⟨names, Schema.mem_routes_of_walk hw hlength, ?_⟩
  exact Prod.ext rfl hsplit.2.2

/-- **A memory has no more paths than there are routes.** -/
theorem size_le (h : c.Holds r looked) :
    c.size ≤ r.schema.entities.entries.length *
      ∑ i ∈ Finset.range (r.maxHops + 1), r.schema.breadth ^ (i + 1) := by
  have hsize : c.size = c.keys.toFinset.card := by
    rw [List.toFinset_card_of_nodup h.once, PathCache.keys, List.length_map]
    rfl
  rw [hsize]
  refine (Finset.card_le_card h.keys_subset).trans ?_
  refine (Finset.card_biUnion_le_card_mul _ _ _ fun e _ =>
    Finset.card_image_le.trans (r.schema.card_routes_le _ e)).trans ?_
  exact Nat.mul_le_mul_right _ r.schema.card_entityNames_le

end PathCache.Holds

/-- **The memory of a resolver is bounded by its schema and the number of hops**, whatever it is asked, and however
often relations lead round in circles: for each entity it has at most as many paths as there are lists of one name
up to one more than there may be hops, out of as many names as attributes of one entity have at most. Every name
that is remembered has at most that many parts, and each part is the name of an attribute. -/
theorem memory_bounded (r : Resolver) (calls : List (String × String)) :
    (r.memory calls).size ≤ r.schema.entities.entries.length *
        ∑ i ∈ Finset.range (r.maxHops + 1), r.schema.breadth ^ (i + 1) ∧
    (∀ k ∈ (r.memory calls).keys, ∃ names, SplitsAtDots k.2 names ∧ names.length ≤ r.maxHops + 1 ∧
      ∀ name ∈ names, ∃ e, name ∈ r.schema.found e) ∧
    ∀ e name, name ∈ r.schema.found e ↔ ∃ a, r.schema.attribute? e name = some a := by
  have hholds := PathCache.Holds.memory r calls
  refine ⟨hholds.size_le, fun k hk => ?_, fun e name => Schema.mem_found_iff⟩
  obtain ⟨_, names, w, hsplit, hlength, hw⟩ := hholds.walked hk
  exact ⟨names, hsplit, hlength, Schema.exists_mem_found_of_walk hw⟩

end ContextualQuery
