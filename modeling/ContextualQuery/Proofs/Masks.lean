import ContextualQuery.Mask
/-!
# What terms mask

A term is read in three ways: as elements, as a yes or no whether it masks anything, and, if it does
not, as a literal text.

* `hasWildcards_cons`, `unescape_cons`, `Mask.elements_cons`, `toLike_cons`: away from a backslash each of
  the readings, and the writing as a pattern, goes on by one character;
* `hasWildcards_iff`: a term masks something exactly if one of its elements is wild.
-/

namespace ContextualQuery

theorem hasWildcards_cons {c : Char} (h : c ≠ '\\') (rest : List Char) :
    hasWildcards (c :: rest) = (c == '*' || c == '?' || hasWildcards rest) := by
  rw [hasWildcards]
  exact fun _ _ hc => absurd hc h

theorem unescape_cons {c : Char} (h : c ≠ '\\') (rest : List Char) :
    unescape (c :: rest) = c :: unescape rest := by
  rw [unescape]
  exact fun _ _ hc => absurd hc h

/-- Where a term is not read as a pair and not as a last backslash, it does not begin with a backslash. -/
theorem Mask.ne_backslash {c : Char} {rest : List Char} (hend : c = '\\' → rest = [] → False)
    (hpair : ∀ d ds, c = '\\' → rest = d :: ds → False) : c ≠ '\\' := by
  intro h
  cases rest with
  | nil => exact hend h rfl
  | cons d ds => exact hpair d ds h rfl

theorem Mask.elements_cons {c : Char} (h : c ≠ '\\') (rest : List Char) :
    Mask.elements (c :: rest) =
      (if c = '*' then .anyRun else if c = '?' then .anyOne else .literal c) ::
        Mask.elements rest := by
  rw [Mask.elements]
  · exact fun hc => absurd hc h
  · exact fun _ _ hc => absurd hc h

theorem toLike_cons {c : Char} (h : c ≠ '\\') (rest : List Char) :
    toLike (c :: rest) =
      if c = '*' then '%' :: toLike rest
      else if c = '?' then '_' :: toLike rest
      else if c = '%' ∨ c = '_' then '\\' :: c :: toLike rest
      else c :: toLike rest := by
  rw [toLike]
  · exact fun hc => absurd hc h
  · exact fun _ _ hc => absurd hc h

/-- Whether an element stands for other characters than one of its own. -/
def MaskElement.isWild : MaskElement → Bool
  | .anyRun | .anyOne => true
  | .literal _ => false

/-- The element of a character that no backslash precedes is wild for two characters only. -/
theorem isWild_unescaped (c : Char) :
    (if c = '*' then MaskElement.anyRun else if c = '?' then .anyOne else .literal c).isWild =
      (c == '*' || c == '?') := by
  by_cases hstar : c = '*'
  · simp [hstar, MaskElement.isWild]
  · by_cases hmark : c = '?' <;> simp [hstar, hmark, MaskElement.isWild]

/-- **A term masks something exactly if one of its elements is wild.** -/
theorem hasWildcards_iff {term : List Char} :
    hasWildcards term = true ↔ ∃ e ∈ Mask.elements term, e.isWild = true := by
  fun_induction Mask.elements term with
  | case1 => simp [hasWildcards]
  | case2 => simp [hasWildcards, MaskElement.isWild]
  | case3 c rest ih => simp [hasWildcards, ih, MaskElement.isWild]
  | case4 c rest hend hpair ih =>
    rw [hasWildcards]
    · simp only [Bool.or_eq_true, ih, List.mem_cons, exists_eq_or_imp, ← isWild_unescaped]
    · exact hpair

end ContextualQuery
