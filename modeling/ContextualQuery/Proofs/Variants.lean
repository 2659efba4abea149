import ContextualQuery.Proofs.Mirroring
import ContextualQuery.Proofs.Quoting
import ContextualQuery.Proofs.Rereading
import Mathlib.Data.List.DropRight
/-!
# Variants that can be queried

A term names a variant of an enumeration without regard to the case of ASCII letters and to the blanks around the
term, and of several variants that it names the first one counts. A record may hold any variant, since data files
name it letter by letter.

* `isBlank_toLower`, `trim_map_toLower`, `trim_trim`: blanks are the same in lower case, and there are none
  around a trimmed text;
* `IsReached`: a variant without blanks around it that is the first one with its letters;
* `Operand.exists_term_iff`: exactly these variants are the operand of some term, and then of their own name;
* `Planner.clauseResult_of_member`, `Store.test_member`: a clause with such a term, and what it selects;
* `reached_variants_queried`, and `not_reached_switch` for variants that no term reaches.
-/

namespace ContextualQuery

open Temporal (isBlank_of_between)

/-! ## 1. Letter case and blanks -/

theorem isBlank_toLower (c : Char) : isBlank c.toLower = isBlank c := by
  by_cases hupper : c.val ≥ 'A'.val ∧ c.val ≤ 'Z'.val
  · have hbounds : 65 ≤ c.toNat ∧ c.toNat ≤ 90 := by
      simpa [UInt32.le_iff_toNat_le] using hupper
    have hval : c.toLower.val = c.val + ('a'.val - 'A'.val) := congrArg Char.val (dif_pos hupper)
    have hlower : c.toLower.toNat = c.toNat + 32 := by
      show c.toLower.val.toNat = _
      rw [hval, UInt32.toNat_add]
      show (c.toNat + 32) % _ = _
      omega
    rw [isBlank_of_between (c := c) (by omega) (by omega)]
    exact isBlank_of_between (by omega) (by omega)
  · exact congrArg isBlank (dif_neg hupper)

theorem trimLeft_map_toLower (cs : List Char) :
    trimLeft (cs.map Char.toLower) = (trimLeft cs).map Char.toLower := by
  have hblank : isBlank ∘ Char.toLower = isBlank := funext isBlank_toLower
  rw [trimLeft, List.dropWhile_map, hblank]
  rfl

theorem trim_map_toLower (cs : List Char) :
    trim (cs.map Char.toLower) = (trim cs).map Char.toLower := by
  rw [trim, trimLeft_map_toLower, ← List.map_reverse, trimLeft_map_toLower, ← List.map_reverse]
  rfl

/-- Around a trimmed text there are no blanks. -/
theorem trim_trim (cs : List Char) : trim (trim cs) = trim cs := by
  have htrim : trim cs = (trimLeft cs).rdropWhile isBlank := rfl
  have hleft : trimLeft (trim cs) = trim cs := by
    obtain ⟨rest, hrest⟩ := List.rdropWhile_prefix isBlank (trimLeft cs)
    rw [← htrim] at hrest
    cases hcs : trim cs with
    | nil => rfl
    | cons c more =>
      rw [hcs] at hrest
      have hdrop : cs.dropWhile isBlank = c :: (more ++ rest) := hrest.symm
      exact List.dropWhile_cons_of_neg (by rw [start_dropWhile hdrop]; decide)
  have hright : trim (trim cs) = (trim cs).rdropWhile isBlank :=
    congrArg (List.rdropWhile isBlank) hleft
  rw [hright, htrim, List.rdropWhile_idempotent]

theorem trim_eq_iff_length {cs : List Char} : trim cs = cs ↔ (trim cs).length = cs.length := by
  constructor
  · exact congrArg List.length
  · intro h
    have hprefix := List.rdropWhile_prefix isBlank (trimLeft cs)
    have hsuffix : trimLeft cs <:+ cs := List.dropWhile_suffix isBlank
    have hsub : (trim cs).Sublist cs := hprefix.sublist.trans hsuffix.sublist
    exact hsub.eq_of_length h

/-- A text with the letters of a trimmed one is trimmed. -/
theorem trim_eq_of_same {a b : String} (h : sameIgnoringCase a b = true)
    (hb : trim b.toList = b.toList) : trim a.toList = a.toList := by
  have hmap : a.toList.map Char.toLower = b.toList.map Char.toLower := beq_iff_eq.mp h
  -- lower case keeps the length of a text, and what is trimmed of it
  have htrim := congrArg (List.length ∘ trim) hmap
  have hlength := congrArg List.length hmap
  simp only [Function.comp_apply, trim_map_toLower, List.length_map, hb] at htrim hlength
  exact trim_eq_iff_length.mpr (htrim.trans hlength.symm)

/-! ## 2. Variants that are reached -/

theorem sameIgnoringCase_self (s : String) : sameIgnoringCase s s = true := beq_self_eq_true _

/-- What has the letters of one of two texts with the same letters has those of the other. -/
theorem sameIgnoringCase_congr {a b : String} (h : sameIgnoringCase a b = true) (s : String) :
    sameIgnoringCase s a = sameIgnoringCase s b := by
  have hmap : a.toList.map Char.toLower = b.toList.map Char.toLower := beq_iff_eq.mp h
  rw [sameIgnoringCase, sameIgnoringCase, hmap]

/-- A variant with no blanks around it, before which no variant has the same letters. -/
structure IsReached (variants : List String) (v : String) : Prop where
  trimmed : trim v.toList = v.toList
  first : ∃ before after, variants = before ++ v :: after ∧
    ∀ w ∈ before, sameIgnoringCase w v = false

variable {variants : List String} {name v : String}

/-- The first variant with the letters of a text. -/
theorem find?_eq_some_iff_first {s : String} :
    variants.find? (sameIgnoringCase · s) = some v ↔ sameIgnoringCase v s = true ∧
      ∃ before after, variants = before ++ v :: after ∧ ∀ w ∈ before, sameIgnoringCase w v = false := by
  rw [List.find?_eq_some_iff_append]
  refine and_congr_right fun hv => ?_
  have hcongr (w : String) : (!sameIgnoringCase w s) = true ↔ sameIgnoringCase w v = false := by
    rw [← sameIgnoringCase_congr hv, Bool.not_eq_true']
  simp only [hcongr]

namespace Operand

/-- What terms name a variant. -/
theorem ofTerm_member_iff (settings : Settings) (modifiers : Modifiers) (literal : String) :
    ofTerm settings (.enumeration name variants) .exact modifiers literal = .ok (exact (.member v)) ↔
      isMask modifiers literal = false ∧
        variants.find? (sameIgnoringCase · (String.ofList (trim literal.toList))) = some v := by
  have htext : (Domain.enumeration name variants).isText = false := rfl
  have hordering : RelationSymbol.exact.isOrdering = false := rfl
  rw [ofTerm, htext, if_neg Bool.false_ne_true, ofValue, hordering, Bool.false_and,
    if_neg Bool.false_ne_true, Domain.read?]
  cases isMask modifiers literal with
  | true => exact iff_of_false (fun h => by cases h) (fun h => by cases h.1)
  | false =>
    rw [if_neg Bool.false_ne_true]
    cases variants.find? (sameIgnoringCase · (String.ofList (trim literal.toList))) with
    | none => exact iff_of_false (fun h => by cases h) (fun h => by cases h.2)
    | some w => simp [exact]

/-- A variant that is reached is named by itself, if its wild characters are taken literally. -/
theorem ofTerm_reached (h : IsReached variants v) (settings : Settings) :
    ofTerm settings (.enumeration name variants) .exact (.ofList [.unmasked]) v =
      .ok (exact (.member v)) := by
  refine (ofTerm_member_iff settings _ v).mpr ⟨rfl, ?_⟩
  rw [h.trimmed, String.ofList_toList]
  exact find?_eq_some_iff_first.mpr ⟨sameIgnoringCase_self v, h.first⟩

/-- **A variant is the operand of some term exactly if it is reached.** -/
theorem exists_term_iff (settings : Settings) : (∃ literal modifiers,
    ofTerm settings (.enumeration name variants) .exact modifiers literal = .ok (exact (.member v))) ↔
      IsReached variants v := by
  constructor
  · rintro ⟨literal, modifiers, h⟩
    obtain ⟨-, hfind⟩ := (ofTerm_member_iff settings modifiers literal).mp h
    obtain ⟨hsame, hfirst⟩ := find?_eq_some_iff_first.mp hfind
    refine ⟨trim_eq_of_same hsame ?_, hfirst⟩
    rw [String.toList_ofList, trim_trim]
  · exact fun h => ⟨v, _, ofTerm_reached h settings⟩

end Operand

/-! ## 3. What is selected -/

/-- Equality with a variant is taken by this variant only. -/
theorem Store.test_member (v : String) (a : Value) :
    (Operand.exact (.member v)).test .eq a = decide (a = .member v) := by
  have hbeq (b : Value) : (b == .member v) = decide (b = .member v) := rfl
  cases a <;> exact hbeq _

/-- A clause whose term names a variant. -/
theorem Planner.clauseResult_of_member {p : Planner} {entity : String} {c : SearchClause} {path : Path}
    (hnamed : c.isAllRecords = false) (hpath : p.resolver.follow entity c.field.value = .ok path)
    (hdomain : path.domain = .enumeration name variants) (hsymbol : c.symbol.value = .exact)
    (hterm : Operand.ofTerm p.settings (.enumeration name variants) .exact c.modifiers c.term.value =
      .ok (.exact (.member v))) :
    p.clauseResult entity c = .ok (.compare ⟨path, .eq, .exact (.member v)⟩) := by
  refine clauseResult_eq_ok_iff.mpr (.inr ⟨hnamed, _, ⟨hpath, ?_, ?_⟩, rfl⟩)
  · rw [hdomain, hsymbol]
    exact hterm
  · rw [hsymbol]
    rfl

/-- **Exactly the variants that are reached can be queried**, though a record may hold any of them. A clause whose
term names a variant selects the records that hold it, and no others. -/
theorem reached_variants_queried (hv : v ∈ variants) (name : String) (p : Planner) :
    (Domain.enumeration name variants).ofData? (.text v) = some (.member v) ∧
    ((∃ literal modifiers, Operand.ofTerm p.settings (.enumeration name variants) .exact modifiers
      literal = .ok (.exact (.member v))) ↔ IsReached variants v) ∧
    (IsReached variants v → Operand.ofTerm p.settings (.enumeration name variants) .exact
      (.ofList [.unmasked]) v = .ok (.exact (.member v))) ∧
    ∀ entity c path, c.isAllRecords = false → p.resolver.follow entity c.field.value = .ok path →
      path.domain = .enumeration name variants → c.symbol.value = .exact →
      Operand.ofTerm p.settings (.enumeration name variants) .exact c.modifiers c.term.value =
        .ok (.exact (.member v)) →
      ∃ pr, p.clauseResult entity c = .ok pr ∧ ∀ st : Store, st.matching entity pr [] =
        (st.rows entity).filter fun r => decide (.member v ∈ st.values path.steps r) := by
  refine ⟨Domain.reread_member (List.contains_iff_mem.mpr hv), Operand.exists_term_iff p.settings,
    fun h => Operand.ofTerm_reached h p.settings, ?_⟩
  intro entity c path hnamed hpath hdomain hsymbol hterm
  exact ⟨_, Planner.clauseResult_of_member hnamed hpath hdomain hsymbol hterm,
    fun st => st.matching_of_test (Store.test_member v) entity path⟩

/-- The states of a lamp: two that differ in letter case, one with a blank before it, and one with a wild
character. -/
def lampStates : List String := ["On", "ON", " off", "dim*"]

/-- Queries about lamps, which have a state. -/
def lamps : Planner where
  schema := (Schema.empty 1 0).withEntity
    { name := "Lamp", identityField := "state"
      fields := [⟨"state", .enumeration false "Switch" lampStates, true⟩] }

/-- The path of the state. -/
def lampState : Path :=
  ⟨"Lamp", [⟨"Lamp", "state", .value false⟩], .enumeration "Switch" lampStates, false, false, true⟩

/-- The clause of `state==/unmasked dim*`. -/
def dimmed : SearchClause :=
  ⟨⟨"state", ⟨0, 5⟩⟩, ⟨.exact, ⟨5, 7⟩⟩, ⟨"dim*", ⟨17, 21⟩⟩, .ofList [.unmasked]⟩

/-- The state with a wild character is reached, and selects its lamps. -/
theorem dimmed_queried :
    "dim*" ∈ lampStates ∧
    (∃ literal modifiers, Operand.ofTerm {} (.enumeration "Switch" lampStates) .exact modifiers
      literal = .ok (.exact (.member "dim*"))) ∧
    ∃ pr, lamps.clauseResult "Lamp" dimmed = .ok pr ∧ ∀ st : Store, st.matching "Lamp" pr [] =
      (st.rows "Lamp").filter fun r => decide (.member "dim*" ∈ st.values lampState.steps r) := by
  have hmem : "dim*" ∈ lampStates := by decide
  have hreached : IsReached lampStates "dim*" :=
    ⟨by decide +kernel, ["On", "ON", " off"], [], rfl, by decide⟩
  obtain ⟨-, hiff, hown, hselected⟩ := reached_variants_queried hmem "Switch" lamps
  exact ⟨hmem, hiff.mpr hreached,
    hselected "Lamp" dimmed lampState rfl rfl rfl rfl (hown hreached)⟩

/-- Two states that a lamp may have in a valid schema, and no term asks for. -/
theorem not_reached_switch :
    lamps.schema.isValid = true ∧ ∀ v ∈ ["ON", " off"], v ∈ lampStates ∧
      (Domain.enumeration "Switch" lampStates).ofData? (.text v) = some (.member v) ∧
      ¬ ∃ literal modifiers, Operand.ofTerm {} (.enumeration "Switch" lampStates) .exact modifiers
        literal = .ok (.exact (.member v)) := by
  refine ⟨by decide, fun v hv => ?_⟩
  have hmem : v ∈ lampStates := by
    have hall : ∀ w ∈ ["ON", " off"], w ∈ lampStates := by decide
    exact hall v hv
  refine ⟨hmem, Domain.reread_member (List.contains_iff_mem.mpr hmem), fun hterm => ?_⟩
  have hreached := (Operand.exists_term_iff {}).mp hterm
  rcases List.mem_cons.mp hv with rfl | hv
  · have hfirst := find?_eq_some_iff_first.mpr ⟨sameIgnoringCase_self "ON", hreached.first⟩
    exact absurd hfirst (by decide +kernel)
  · cases List.mem_singleton.mp hv
    exact absurd hreached.trimmed (by decide +kernel)

end ContextualQuery
