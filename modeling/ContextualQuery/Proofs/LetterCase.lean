import ContextualQuery.Text.LetterCase
import Mathlib.Data.List.TakeWhile
/-!
# Lower case in context

The lower case form of a character depends on what stands around it for one letter only, the capital sigma,
and for that only on the nearest characters that are not ignorable. So a part of a text is lowered like the
part alone, unless it has a sigma for which these characters lie outside.

* `reachesUncased`, `reachesCased_append_of_cased`, `reachesCased_append_of_uncased`,
  `reachesCased_append_of_neither`: what is reached in a longer text;
* `SigmaDecided`, `sigma_of_decided`: a sigma whose neighbours are at hand keeps its form in every context;
* `sigma_of_not_decided`: any other takes the other form next to a letter;
* `lowerBetween`, `lowerBetween_append`, `lowercaseFrom_eq`: a part of a text, lowered where it stands;
* `lowerBetween_of_decided`: a part whose sigmas are decided is lowered like the part alone;
* `lowerChar_cases`: lowering makes no marks out of letters.
-/

namespace ContextualQuery

/-! ## 1. What a sigma looks at -/

/-- Whether the first character that is not ignorable is there, and is no letter with case. -/
def reachesUncased (cs : List Char) : Bool :=
  match cs.dropWhile isCaseIgnorable with
  | [] => false
  | c :: _ => !isCased c

section Reaches

variable {cs : List Char}

theorem reaches_cases (cs : List Char) :
    (∀ c ∈ cs, isCaseIgnorable c = true) ∨ reachesCased cs = true ∨ reachesUncased cs = true := by
  unfold reachesCased reachesUncased
  cases h : cs.dropWhile isCaseIgnorable with
  | nil => exact Or.inl (List.dropWhile_eq_nil_iff.mp h)
  | cons c ds =>
    cases hc : isCased c with
    | true => exact Or.inr (Or.inl hc)
    | false => exact Or.inr (Or.inr (by simp [hc]))

/-- What is reached is not lost by what stands behind it. -/
theorem reachesCased_append_of_ne_nil {c : Char} {ds : List Char}
    (h : cs.dropWhile isCaseIgnorable = c :: ds) (es : List Char) :
    reachesCased (cs ++ es) = isCased c := by
  unfold reachesCased
  rw [List.dropWhile_append, h]
  rfl

theorem reachesCased_append_of_cased (h : reachesCased cs = true) (ds : List Char) :
    reachesCased (cs ++ ds) = true := by
  unfold reachesCased at h
  split at h
  · cases h
  · rename_i c es hdrop
    rw [reachesCased_append_of_ne_nil hdrop, h]

theorem reachesCased_append_of_uncased (h : reachesUncased cs = true) (ds : List Char) :
    reachesCased (cs ++ ds) = false := by
  unfold reachesUncased at h
  split at h
  · cases h
  · rename_i c es hdrop
    rw [reachesCased_append_of_ne_nil hdrop]
    exact Bool.not_eq_true' _ ▸ h

theorem reachesCased_of_uncased (h : reachesUncased cs = true) : reachesCased cs = false := by
  rw [← List.append_nil cs]
  exact reachesCased_append_of_uncased h []

theorem reachesCased_append_of_neither (h : ∀ c ∈ cs, isCaseIgnorable c = true) (ds : List Char) :
    reachesCased (cs ++ ds) = reachesCased ds := by
  unfold reachesCased
  rw [List.dropWhile_append, List.dropWhile_eq_nil_iff.mpr h]
  rfl

theorem reachesCased_of_neither (h : ∀ c ∈ cs, isCaseIgnorable c = true) :
    reachesCased cs = false := by
  rw [← List.append_nil cs, reachesCased_append_of_neither h]
  rfl

end Reaches

/-! ## 2. The form of a sigma -/

/-- What stands around a sigma decides its form, whatever stands further off: a letter comes next, or no
letter came last, or one came last and none comes next. -/
def SigmaDecided (before after : List Char) : Prop :=
  reachesCased after = true ∨ reachesUncased before = true ∨
    (reachesCased before = true ∧ reachesUncased after = true)

instance (before after : List Char) : Decidable (SigmaDecided before after) :=
  inferInstanceAs (Decidable (_ ∨ _ ∨ _ ∧ _))

theorem lowerWithin_sigma (before after : List Char) :
    lowerWithin before 'Σ' after =
      [if reachesCased before && !reachesCased after then 'ς' else 'σ'] := rfl

theorem sigma_of_decided {before after : List Char} (h : SigmaDecided before after)
    (further beyond : List Char) :
    lowerWithin (before ++ further) 'Σ' (after ++ beyond) = lowerWithin before 'Σ' after := by
  rw [lowerWithin_sigma, lowerWithin_sigma]
  rcases h with h | h | ⟨hbefore, hafter⟩
  · rw [reachesCased_append_of_cased h, h]
    simp only [Bool.not_true, Bool.and_false]
  · rw [reachesCased_append_of_uncased h, reachesCased_of_uncased h]
    rfl
  · rw [reachesCased_append_of_cased hbefore, hbefore, reachesCased_append_of_uncased hafter,
      reachesCased_of_uncased hafter]

/-- A sigma that is not decided takes the other form before any letter, or behind any. -/
theorem sigma_of_not_decided {before after : List Char} (h : ¬SigmaDecided before after) :
    (∀ c, reachesCased [c] = true →
      lowerWithin before 'Σ' (after ++ [c]) ≠ lowerWithin before 'Σ' after) ∨
    ∀ c, reachesCased [c] = true →
      lowerWithin (before ++ [c]) 'Σ' after ≠ lowerWithin before 'Σ' after := by
  simp only [SigmaDecided, not_or, Bool.not_eq_true, not_and] at h
  obtain ⟨hafter, hbefore, hboth⟩ := h
  simp only [lowerWithin_sigma]
  rcases reaches_cases before with hnone | hcased | huncased
  · refine Or.inr fun c hc => ?_
    rw [reachesCased_append_of_neither hnone, reachesCased_of_neither hnone, hc, hafter]
    decide
  · refine Or.inl fun c hc => ?_
    rcases reaches_cases after with hnone | hcased' | huncased
    · rw [reachesCased_append_of_neither hnone, hcased, hc, hafter]
      decide
    · exact absurd (hafter.symm.trans hcased') Bool.false_ne_true
    · exact absurd ((hboth hcased).symm.trans huncased) Bool.false_ne_true
  · exact absurd (hbefore.symm.trans huncased) Bool.false_ne_true

/-! ## 3. Parts of a text -/

/-- The lower case form of a part of a text that stands between two others, the first of them given
backwards. -/
def lowerBetween (before : List Char) : List Char → List Char → List Char
  | [], _ => []
  | c :: cs, after => lowerWithin before c (cs ++ after) ++ lowerBetween (c :: before) cs after

theorem lowerBetween_append (before cs ds after : List Char) :
    lowerBetween before (cs ++ ds) after =
      lowerBetween before cs (ds ++ after) ++ lowerBetween (cs.reverse ++ before) ds after := by
  induction cs generalizing before with
  | nil => rfl
  | cons c cs ih =>
    rw [List.cons_append, lowerBetween, lowerBetween, ih, List.append_assoc, List.append_assoc,
      List.reverse_cons, List.append_assoc]
    rfl

theorem lowercaseFrom_eq (before cs : List Char) :
    lowercaseFrom before cs = lowerBetween before cs [] := by
  induction cs generalizing before with
  | nil => rfl
  | cons c cs ih => rw [lowercaseFrom, lowerBetween, List.append_nil, ih]

theorem lowercaseFrom_append (before cs ds : List Char) :
    lowercaseFrom before (cs ++ ds) =
      lowerBetween before cs ds ++ lowercaseFrom (cs.reverse ++ before) ds := by
  rw [lowercaseFrom_eq, lowercaseFrom_eq, lowerBetween_append, List.append_nil]

/-- Only the form of a sigma depends on the context. -/
theorem lowerWithin_of_ne {c : Char} (h : c ≠ 'Σ') (before after : List Char) :
    lowerWithin before c after = lowerWithin [] c [] := by
  unfold lowerWithin
  rw [if_neg h, if_neg h]

/-- How many characters a character is lowered to does not depend on the context. -/
theorem length_lowerWithin (c : Char) (before after : List Char) :
    (lowerWithin before c after).length = if c = 'İ' then 2 else 1 := by
  unfold lowerWithin
  by_cases hsigma : c = 'Σ'
  · subst hsigma
    rfl
  · rw [if_neg hsigma]
    by_cases hdotted : c = 'İ'
    · rw [if_pos hdotted, if_pos hdotted]
      rfl
    · rw [if_neg hdotted, if_neg hdotted]
      rfl

theorem length_lowerBetween (cs before after before' after' : List Char) :
    (lowerBetween before cs after).length = (lowerBetween before' cs after').length := by
  induction cs generalizing before before' with
  | nil => rfl
  | cons c cs ih =>
    rw [lowerBetween, lowerBetween, List.length_append, List.length_append, length_lowerWithin,
      length_lowerWithin, ih (c :: before) (c :: before')]

/-- The sigmas of a text are decided by the text itself. -/
def SigmasDecided (cs : List Char) : Prop :=
  ∀ before after, cs = before ++ 'Σ' :: after → SigmaDecided before.reverse after

theorem sigmasDecided_iff {cs : List Char} :
    SigmasDecided cs ↔ ∀ i < cs.length, cs[i]? = some 'Σ' →
      SigmaDecided (cs.take i).reverse (cs.drop (i + 1)) := by
  constructor
  · intro h i hi hsigma
    obtain ⟨_, hget⟩ := List.getElem?_eq_some_iff.mp hsigma
    refine h _ _ ?_
    rw [← hget, List.getElem_cons_drop, List.take_append_drop]
  · intro h before after heq
    have hlt : before.length < cs.length := by
      rw [heq, List.length_append, List.length_cons]
      omega
    have hget : cs[before.length]? = some 'Σ' := by
      rw [heq, List.getElem?_append_right (Nat.le_refl _), Nat.sub_self]
      rfl
    have hsigma := h before.length hlt hget
    rw [heq, List.take_left, List.drop_length_add_append] at hsigma
    exact hsigma

instance (cs : List Char) : Decidable (SigmasDecided cs) :=
  decidable_of_iff' _ sigmasDecided_iff

/-- **A part whose sigmas it decides itself is lowered in every context like the part alone.** -/
theorem lowerBetween_of_decided {cs : List Char} (h : SigmasDecided cs) (before after : List Char) :
    lowerBetween before cs after = lowercase cs := by
  -- by induction on what is left of the part; what has been passed stands before it, backwards
  have hpassed : ∀ ds passed, cs = passed ++ ds →
      lowerBetween (passed.reverse ++ before) ds after = lowerBetween passed.reverse ds [] := by
    intro ds
    induction ds with
    | nil => exact fun _ _ => rfl
    | cons c ds ih =>
      intro passed heq
      have htail := ih (passed ++ [c]) (by rw [heq, List.append_assoc]; rfl)
      rw [List.reverse_append, List.reverse_singleton, List.singleton_append, List.cons_append]
        at htail
      have hhead : lowerWithin (passed.reverse ++ before) c (ds ++ after) =
          lowerWithin passed.reverse c ds := by
        by_cases hc : c = 'Σ'
        · subst hc
          exact sigma_of_decided (h passed ds heq) before after
        · rw [lowerWithin_of_ne hc, lowerWithin_of_ne hc passed.reverse]
      rw [lowerBetween, lowerBetween, List.append_nil, htail, hhead]
  rw [lowercase, lowercaseFrom_eq]
  exact hpassed cs [] rfl

/-- Where a part is lowered like the part alone, each of its sigmas takes the form that it has there. -/
theorem sigma_of_lowerBetween_eq {cs ps qs before after : List Char} (hcs : cs = ps ++ 'Σ' :: qs)
    (h : lowerBetween before cs after = lowercase cs) :
    lowerWithin (ps.reverse ++ before) 'Σ' (qs ++ after) = lowerWithin ps.reverse 'Σ' qs := by
  rw [lowercase, lowercaseFrom_eq, hcs, lowerBetween_append, lowerBetween_append] at h
  have hbehind := List.append_inj_right h (length_lowerBetween ps _ _ _ _)
  rw [lowerBetween, lowerBetween, List.append_nil, List.append_nil] at hbehind
  exact List.append_inj_left hbehind rfl

/-! ## 4. Letters and marks -/

/-- The forms of a run are characters, and in the order of characters they come behind `Z`, the brackets and
the backslash. -/
def CaseRun.LowersToLetters (r : CaseRun) : Prop :=
  92 < r.first + r.shift ∧
    (r.last + r.shift < 0xD800 ∨ 0xDFFF < r.first + r.shift ∧ r.last + r.shift < 0x110000)

instance (r : CaseRun) : Decidable r.LowersToLetters :=
  inferInstanceAs (Decidable (_ ∧ _))

theorem lowersToLetters_of_mem : ∀ r ∈ lowerRuns, r.LowersToLetters := by decide +kernel

/-- Lowering makes a letter, or leaves a character as it is. -/
theorem lowerChar_cases (c : Char) : lowerChar c = c ∨ 92 < (lowerChar c).toNat := by
  unfold lowerChar
  split
  · rename_i r hfind
    right
    have hr : r ∈ lowerRuns := List.mem_of_find?_eq_some hfind
    have hholds : r.holds c.toNat = true := by simpa using List.find?_some hfind
    obtain ⟨habove, hvalid⟩ := lowersToLetters_of_mem r hr
    simp only [CaseRun.holds, Bool.and_eq_true, decide_eq_true_eq] at hholds
    obtain ⟨⟨hfirst, hlast⟩, _⟩ := hholds
    have hchar : (c.toNat + r.shift).toNat.isValidChar := by
      unfold Nat.isValidChar
      omega
    have hform : (Char.ofNat (c.toNat + r.shift).toNat).toNat = (c.toNat + r.shift).toNat := by
      rw [Char.ofNat, dif_pos hchar]
      rfl
    rw [hform]
    omega
  · exact Or.inl rfl

end ContextualQuery
