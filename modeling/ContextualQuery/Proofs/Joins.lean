import ContextualQuery.Proofs.Typing
/-!
# Joins in both directions

A join and its reverse lead from one record to another by the same keys, and equality of keys does not
depend on the side it is seen from. What is not the same on both sides is null: a join does not start from
one, but along an edge entity it may end at one.

* `Double.same_comm`, `Value.same_comm`, `Value.isNull_eq_of_same`: equality of keys;
* `Store.Meet`: what makes two keys belong together, and `Store.meet_comm`;
* `Store.mem_joined_iff`: a join leads to a record exactly if the join fields hold keys that belong together;
* `Store.EndsAtNull`, `Store.endsAtNull_iff`: when a join ends at a null;
* `Store.joined_both_ways_iff`.
-/

namespace ContextualQuery

/-! ## 1. Equality of keys -/

theorem Double.same_iff {x y : Double} :
    x.same y = true ↔ x.isNaN = false ∧ y.isNaN = false ∧ x.rank = y.rank := by
  unfold same partialCompare
  by_cases h : (x.isNaN || y.isNaN) = true
  · rw [if_pos h]
    refine iff_of_false (by decide) fun ⟨hx, hy, _⟩ => ?_
    rw [hx, hy] at h
    cases h
  · rw [if_neg h, beq_iff_eq, Option.some.injEq, Std.compare_eq_iff_eq]
    simp only [Bool.or_eq_true, not_or, Bool.not_eq_true] at h
    exact ⟨fun hrank => ⟨h.1, h.2, hrank⟩, fun hall => hall.2.2⟩

theorem Double.same_comm (x y : Double) : x.same y = y.same x := by
  rw [Bool.eq_iff_iff, same_iff, same_iff]
  exact ⟨fun ⟨hx, hy, hrank⟩ => ⟨hy, hx, hrank.symm⟩, fun ⟨hy, hx, hrank⟩ => ⟨hx, hy, hrank.symm⟩⟩

namespace Value

/-- Equality of values does not depend on their order. -/
theorem same_comm (a b : Value) : a.same b = b.same a := by
  fun_cases same a b with
  | case1 a b => exact BEq.comm
  | case2 a b => exact BEq.comm
  | case3 a b => exact Double.same_comm _ _
  | case4 a b => exact Double.same_comm _ _
  | case5 a b => exact Double.same_comm _ _
  | case6 a b => exact Double.same_comm _ _
  | case7 a b h1 h2 h3 h4 h5 h6 =>
    rw [same]
    · exact BEq.comm
    · exact fun x y hb ha => h2 y x ha hb
    · exact fun x y hb ha => h1 y x ha hb
    · exact fun x y hb ha => h3 y x ha hb
    · exact fun x y hb ha => h4 y x ha hb
    · exact fun x y hb ha => h6 y x ha hb
    · exact fun x y hb ha => h5 y x ha hb

theorem null_same (a : Value) : null.same a = a.isNull := by
  cases a <;> rfl

theorem isNull_iff {a : Value} : a.isNull = true ↔ a = null := by
  cases a with
  | null => exact iff_of_true rfl rfl
  | _ => exact iff_of_false (fun h => by cases h) (fun h => by cases h)

theorem isNull_of_same {a b : Value} (h : a.same b = true) (ha : a.isNull = true) :
    b.isNull = true := by
  rw [← null_same, ← isNull_iff.mp ha]
  exact h

/-- Null is equal to null only. -/
theorem isNull_eq_of_same {a b : Value} (h : a.same b = true) : a.isNull = b.isNull :=
  Bool.eq_iff_iff.mpr ⟨isNull_of_same h, isNull_of_same (same_comm a b ▸ h)⟩

end Value

/-! ## 2. Where a join leads -/

/-- A join that goes back: from the target's join field to the source's, through the same edge entity. -/
structure Join.Reverses (k j : Join) : Prop where
  fromEntity : k.fromEntity = j.toEntity
  fromField : k.fromField = j.toField
  toEntity : k.toEntity = j.fromEntity
  toField : k.toField = j.fromField
  edgeEntity : k.edgeEntity = j.edgeEntity

theorem Join.Reverses.symm {j k : Join} (h : k.Reverses j) : j.Reverses k :=
  ⟨h.toEntity.symm, h.toField.symm, h.fromEntity.symm, h.fromField.symm, h.edgeEntity.symm⟩

namespace Store

variable {s : Store} {j k : Join} {a b : Record} {key target : Value}

/-- A link of an edge entity holds `u` for the source of a join and `w` for its target. -/
def Links (s : Store) (j : Join) (edge : String) (u w : Value) : Prop :=
  ∃ link ∈ s.rows edge, link.scalar? (edgeColumn j.fromEntity j.fromField) = some u ∧
    link.scalar? (edgeColumn j.toEntity j.toField) = some w

/-- The keys of a source and of a target belong together: they are equal or, with an edge entity, each is
equal to a key of one link. -/
def Meet (s : Store) (j : Join) (key target : Value) : Prop :=
  match j.edgeEntity with
  | none => target.same key = true
  | some edge => ∃ u w, s.Links j edge u w ∧ u.same key = true ∧ target.same w = true

theorem holdsKey_iff {r : Record} {field : String} :
    holdsKey r field key = true ↔ ∃ v, r.scalar? field = some v ∧ v.same key = true := by
  unfold holdsKey
  cases r.scalar? field with
  | none => exact iff_of_false Bool.false_ne_true (fun ⟨_, h, _⟩ => by cases h)
  | some v =>
    refine ⟨fun h => ⟨v, rfl, h⟩, fun ⟨w, hw, h⟩ => ?_⟩
    cases hw
    exact h

theorem mem_withKey_iff :
    b ∈ s.withKey j key ↔ b ∈ s.rows j.toEntity ∧
      ∃ v, b.scalar? j.toField = some v ∧ v.same key = true := by
  rw [withKey, List.mem_filter, holdsKey_iff]

theorem mem_linkedKeys_iff {edge : String} {w : Value} :
    w ∈ s.linkedKeys j edge key ↔ ∃ u, s.Links j edge u w ∧ u.same key = true := by
  rw [linkedKeys, List.mem_filterMap]
  constructor
  · rintro ⟨link, hlink, hw⟩
    obtain ⟨hlink, hkey⟩ := List.mem_filter.mp hlink
    obtain ⟨u, hu, hsame⟩ := holdsKey_iff.mp hkey
    exact ⟨u, ⟨link, hlink, hu, hw⟩, hsame⟩
  · rintro ⟨u, ⟨link, hlink, hu, hw⟩, hsame⟩
    exact ⟨link, List.mem_filter.mpr ⟨hlink, holdsKey_iff.mpr ⟨u, hu, hsame⟩⟩, hw⟩

/-- A join starts from a key that is not null. -/
theorem exists_key_of_mem_joined (h : b ∈ s.joined j a) :
    ∃ key, a.scalar? j.fromField = some key ∧ key.isNull = false := by
  unfold joined at h
  split at h
  · cases h
  · rename_i key hkey
    split at h
    · cases h
    · rename_i hnull
      exact ⟨key, hkey, Bool.not_eq_true _ ▸ hnull⟩

/-- From such a key it leads to the records of its target whose join field holds a key that belongs to it. -/
theorem mem_joined_of_key (hkey : a.scalar? j.fromField = some key) (hnull : key.isNull = false) :
    b ∈ s.joined j a ↔ b ∈ s.rows j.toEntity ∧
      ∃ target, b.scalar? j.toField = some target ∧ s.Meet j key target := by
  unfold joined Meet
  rw [hkey]
  show b ∈ (if key.isNull then [] else _) ↔ _
  rw [hnull, if_neg Bool.false_ne_true]
  cases j.edgeEntity with
  | none => exact mem_withKey_iff
  | some edge =>
    constructor
    · intro hb
      obtain ⟨w, hw, hb⟩ := List.mem_flatMap.mp hb
      obtain ⟨u, hlinks, hu⟩ := mem_linkedKeys_iff.mp hw
      obtain ⟨hrows, target, htarget, hsame⟩ := mem_withKey_iff.mp hb
      exact ⟨hrows, target, htarget, u, w, hlinks, hu, hsame⟩
    · rintro ⟨hrows, target, htarget, u, w, hlinks, hu, hsame⟩
      exact List.mem_flatMap.mpr ⟨w, mem_linkedKeys_iff.mpr ⟨u, hlinks, hu⟩,
        mem_withKey_iff.mpr ⟨hrows, target, htarget, hsame⟩⟩

/-- **A join leads to a record exactly if both join fields hold keys that belong together**, the first not
being null. -/
theorem mem_joined_iff :
    b ∈ s.joined j a ↔ b ∈ s.rows j.toEntity ∧ ∃ key target, a.scalar? j.fromField = some key ∧
      key.isNull = false ∧ b.scalar? j.toField = some target ∧ s.Meet j key target := by
  constructor
  · intro h
    obtain ⟨key, hkey, hnull⟩ := exists_key_of_mem_joined h
    obtain ⟨hrows, target, htarget, hmeet⟩ := (mem_joined_of_key hkey hnull).mp h
    exact ⟨hrows, key, target, hkey, hnull, htarget, hmeet⟩
  · rintro ⟨hrows, key, target, hkey, hnull, htarget, hmeet⟩
    exact (mem_joined_of_key hkey hnull).mpr ⟨hrows, target, htarget, hmeet⟩

/-! ## 3. The way back -/

theorem links_comm (h : k.Reverses j) {edge : String} {u w : Value} :
    s.Links k edge w u ↔ s.Links j edge u w := by
  unfold Links
  rw [h.fromEntity, h.fromField, h.toEntity, h.toField]
  simp only [and_comm]

/-- Keys that belong together do so on the way back. -/
theorem meet_comm (h : k.Reverses j) : s.Meet k target key ↔ s.Meet j key target := by
  unfold Meet
  rw [h.edgeEntity]
  cases j.edgeEntity with
  | none => rw [Value.same_comm]
  | some edge =>
    constructor
    · rintro ⟨w, u, hlinks, hw, hu⟩
      exact ⟨u, w, (links_comm h).mp hlinks, Value.same_comm key u ▸ hu, Value.same_comm w target ▸ hw⟩
    · rintro ⟨u, w, hlinks, hu, hw⟩
      exact ⟨w, u, (links_comm h).mpr hlinks, Value.same_comm target w ▸ hw, Value.same_comm u key ▸ hu⟩

/-- The join leads to a record whose join field is null. -/
def EndsAtNull (s : Store) (j : Join) (a b : Record) : Prop :=
  b ∈ s.joined j a ∧ b.scalar? j.toField = some .null

theorem EndsAtNull.of_isNull (hb : b ∈ s.joined j a) (htarget : b.scalar? j.toField = some target)
    (hnull : target.isNull = true) : s.EndsAtNull j a b :=
  ⟨hb, htarget.trans (congrArg some (Value.isNull_iff.mp hnull))⟩

/-- A join that does not end at a null leads back. -/
theorem joined_back (h : k.Reverses j) (ha : a ∈ s.rows j.fromEntity) (hb : b ∈ s.joined j a)
    (hnull : ¬s.EndsAtNull j a b) : a ∈ s.joined k b := by
  obtain ⟨_, key, target, hkey, _, htarget, hmeet⟩ := mem_joined_iff.mp hb
  have hfrom : b.scalar? k.fromField = some target := h.fromField ▸ htarget
  have hto : a.scalar? k.toField = some key := h.toField ▸ hkey
  have hrows : a ∈ s.rows k.toEntity := h.toEntity ▸ ha
  have htargetNull : target.isNull = false :=
    Bool.eq_false_iff.mpr fun ht => hnull (.of_isNull hb htarget ht)
  exact mem_joined_iff.mpr ⟨hrows, target, key, hfrom, htargetNull, hto, (meet_comm h).mpr hmeet⟩

/-- From a null no join leads back. -/
theorem not_joined_back (h : k.Reverses j) (hnull : s.EndsAtNull j a b) : a ∉ s.joined k b := by
  intro hback
  obtain ⟨key, hkey, hkeyNull⟩ := exists_key_of_mem_joined hback
  rw [h.fromField, hnull.2] at hkey
  cases hkey
  cases hkeyNull

/-- **A join ends at a null exactly along a link whose key for the target is null.** Without an edge entity it
does not. -/
theorem endsAtNull_iff :
    s.EndsAtNull j a b ↔ b ∈ s.rows j.toEntity ∧ b.scalar? j.toField = some .null ∧
      ∃ edge key u, j.edgeEntity = some edge ∧ a.scalar? j.fromField = some key ∧
        key.isNull = false ∧ u.same key = true ∧ s.Links j edge u .null := by
  constructor
  · rintro ⟨hb, hnull⟩
    obtain ⟨hrows, key, target, hkey, hkeyNull, htarget, hmeet⟩ := mem_joined_iff.mp hb
    cases hnull.symm.trans htarget
    refine ⟨hrows, hnull, ?_⟩
    unfold Meet at hmeet
    split at hmeet
    · rw [Value.null_same, hkeyNull] at hmeet
      cases hmeet
    · rename_i edge hedge
      obtain ⟨u, w, hlinks, hu, hw⟩ := hmeet
      rw [Value.null_same, Value.isNull_iff] at hw
      exact ⟨edge, key, u, hedge, hkey, hkeyNull, hu, hw ▸ hlinks⟩
  · rintro ⟨hrows, hnull, edge, key, u, hedge, hkey, hkeyNull, hu, hlinks⟩
    have hmeet : s.Meet j key .null := by
      unfold Meet
      rw [hedge]
      exact ⟨u, .null, hlinks, hu, rfl⟩
    exact ⟨mem_joined_iff.mpr ⟨hrows, key, .null, hkey, hkeyNull, hnull, hmeet⟩, hnull⟩

/-- A join that does not end at a null passes none: neither join field is null, nor a key of the link. -/
theorem keys_of_joined (hb : b ∈ s.joined j a) (hnull : ¬s.EndsAtNull j a b) :
    ∃ key target, a.scalar? j.fromField = some key ∧ b.scalar? j.toField = some target ∧
      key.isNull = false ∧ target.isNull = false ∧ ∀ edge, j.edgeEntity = some edge →
        ∃ u w, s.Links j edge u w ∧ u.isNull = false ∧ w.isNull = false ∧
          u.same key = true ∧ target.same w = true := by
  obtain ⟨_, key, target, hkey, hkeyNull, htarget, hmeet⟩ := mem_joined_iff.mp hb
  have htargetNull : target.isNull = false :=
    Bool.eq_false_iff.mpr fun ht => hnull (.of_isNull hb htarget ht)
  refine ⟨key, target, hkey, htarget, hkeyNull, htargetNull, fun edge hedge => ?_⟩
  unfold Meet at hmeet
  rw [hedge] at hmeet
  obtain ⟨u, w, hlinks, hu, hw⟩ := hmeet
  have huNull : u.isNull = false := by rw [Value.isNull_eq_of_same hu, hkeyNull]
  have hwNull : w.isNull = false := by rw [← Value.isNull_eq_of_same hw, htargetNull]
  exact ⟨u, w, hlinks, huNull, hwNull, hu, hw⟩

/-- **A join and its reverse lead from one record to the other and back, unless one of them ends at a null.**
A join that does not end at a null passes none, and one that does follows a link whose key for the target is
null. -/
theorem joined_both_ways_iff {s : Store} {j k : Join} {a b : Record} (h : k.Reverses j)
    (ha : a ∈ s.rows j.fromEntity) (hb : b ∈ s.rows j.toEntity) :
    ((b ∈ s.joined j a ↔ a ∈ s.joined k b) ↔ ¬s.EndsAtNull j a b ∧ ¬s.EndsAtNull k b a) ∧
    (b ∈ s.joined j a → ¬s.EndsAtNull j a b →
      ∃ key target, a.scalar? j.fromField = some key ∧ b.scalar? j.toField = some target ∧
        key.isNull = false ∧ target.isNull = false ∧ ∀ edge, j.edgeEntity = some edge →
          ∃ u w, s.Links j edge u w ∧ u.isNull = false ∧ w.isNull = false ∧
            u.same key = true ∧ target.same w = true) ∧
    (s.EndsAtNull j a b ↔ b.scalar? j.toField = some .null ∧
      ∃ edge key u, j.edgeEntity = some edge ∧ a.scalar? j.fromField = some key ∧
        key.isNull = false ∧ u.same key = true ∧ s.Links j edge u .null) := by
  have hb' : b ∈ s.rows k.fromEntity := h.fromEntity ▸ hb
  refine ⟨⟨fun hiff => ⟨fun hnull => ?_, fun hnull => ?_⟩, fun ⟨hj, hk⟩ => ⟨?_, ?_⟩⟩, keys_of_joined,
    endsAtNull_iff.trans (and_iff_right hb)⟩
  · exact not_joined_back h hnull (hiff.mp hnull.1)
  · exact not_joined_back h.symm hnull (hiff.mpr hnull.1)
  · exact fun hm => joined_back h ha hm hj
  · exact fun hm => joined_back h.symm hb' hm hk

end Store

/-! ### Persons and their tags -/

/-- From a person to the tags that taggings give it. -/
def personTags : Join := ⟨"tags", "Person", "Tag", "id", "id", some "Tagging", true⟩

/-- From a tag to the persons that taggings give it to. -/
def taggedPersons : Join := ⟨"persons", "Tag", "Person", "id", "id", some "Tagging", true⟩

/-- A record with a number. -/
def numbered (n : Int64) : Record := [("id", .scalar (.int64 n))]

/-- A tag whose number is not known. -/
def unknownTag : Record := [("id", .scalar .null)]

/-- A person with a tag, and with a tagging that names none. -/
def taggings : Store :=
  ⟨[("Person", [numbered 1]), ("Tag", [numbered 7, unknownTag]),
    ("Tagging", [[("person_id", .scalar (.int64 1)), ("tag_id", .scalar (.int64 7))],
      [("person_id", .scalar (.int64 1)), ("tag_id", .scalar .null)]])]⟩

theorem taggedPersons_reverses : taggedPersons.Reverses personTags := ⟨rfl, rfl, rfl, rfl, rfl⟩

/-- The tag that the person has, and the way back from it. -/
theorem tag_joined_both_ways :
    taggedPersons.Reverses personTags ∧ numbered 1 ∈ taggings.rows "Person" ∧
    numbered 7 ∈ taggings.rows "Tag" ∧
    (numbered 7 ∈ taggings.joined personTags (numbered 1) ↔
      numbered 1 ∈ taggings.joined taggedPersons (numbered 7)) ∧
    ∃ key target, (numbered 1).scalar? "id" = some key ∧ (numbered 7).scalar? "id" = some target ∧
      key.isNull = false ∧ target.isNull = false := by
  have hperson : numbered 1 ∈ taggings.rows "Person" := List.mem_cons_self
  have htag : numbered 7 ∈ taggings.rows "Tag" := List.mem_cons_self
  have hjoined : numbered 7 ∈ taggings.joined personTags (numbered 1) := List.mem_cons_self
  obtain ⟨hiff, hkeys, _⟩ := Store.joined_both_ways_iff taggedPersons_reverses hperson htag
  have hthere : ¬taggings.EndsAtNull personTags (numbered 1) (numbered 7) := fun h => by cases h.2
  have hback : ¬taggings.EndsAtNull taggedPersons (numbered 7) (numbered 1) := fun h => by cases h.2
  obtain ⟨key, target, hkey, htarget, hkeyNull, htargetNull, _⟩ := hkeys hjoined hthere
  exact ⟨taggedPersons_reverses, hperson, htag, hiff.mpr ⟨hthere, hback⟩, key, target, hkey, htarget,
    hkeyNull, htargetNull⟩

/-- The tag without a number, which the person reaches through a null and which does not lead back. -/
theorem unknownTag_not_joined_back :
    taggedPersons.Reverses personTags ∧ numbered 1 ∈ taggings.rows "Person" ∧
    unknownTag ∈ taggings.rows "Tag" ∧ unknownTag ∈ taggings.joined personTags (numbered 1) ∧
    unknownTag.scalar? "id" = some .null ∧
    numbered 1 ∉ taggings.joined taggedPersons unknownTag := by
  have hjoined : taggings.joined personTags (numbered 1) = [numbered 7, unknownTag] := rfl
  have hback : taggings.joined taggedPersons unknownTag = [] := rfl
  refine ⟨taggedPersons_reverses, List.mem_cons_self, List.mem_cons_of_mem _ List.mem_cons_self, ?_,
    rfl, ?_⟩
  · rw [hjoined]
    exact List.mem_cons_of_mem _ List.mem_cons_self
  · rw [hback]
    exact List.not_mem_nil

end ContextualQuery
