import ContextualQuery.Proofs.Scanning
import Mathlib.Algebra.Ring.Parity
/-!
# Masks as patterns with a percent sign

A mask is handed on as a pattern in which `%` is any run, `_` any one character, and a backslash makes the
next character literal. Both languages are read into the same elements, so what has to be seen is that the
written pattern is read as what the mask is read as.

* `LikePattern.Reads`: how a pattern is read; a pattern whose last backslash has nothing to escape is not
  read at all;
* `reads_toLike`: the written pattern is read as the elements of the mask, and `LikePattern.Reads.unique`:
  as nothing else;
* `LikePattern.Reads.even_backslashesAtEnd`: what can be read does not end in half a pair;
* `toLike_keeps_meaning`.
-/

namespace ContextualQuery

namespace LikePattern

/-! ## 1. Reading a pattern -/

/-- How a pattern is read: `%` and `_` are wild, a backslash makes the next character literal, and every
other character stands for itself. -/
inductive Reads : List Char → List MaskElement → Prop
  | nil : Reads [] []
  | percent {rest : List Char} {es : List MaskElement} (h : Reads rest es) :
    Reads ('%' :: rest) (.anyRun :: es)
  | underscore {rest : List Char} {es : List MaskElement} (h : Reads rest es) :
    Reads ('_' :: rest) (.anyOne :: es)
  | escaped (c : Char) {rest : List Char} {es : List MaskElement} (h : Reads rest es) :
    Reads ('\\' :: c :: rest) (.literal c :: es)
  | plain {c : Char} {rest : List Char} {es : List MaskElement} (hpercent : c ≠ '%')
      (hunderscore : c ≠ '_') (hback : c ≠ '\\') (h : Reads rest es) :
    Reads (c :: rest) (.literal c :: es)

/-- The text fits a pattern. -/
def Fits (pattern text : List Char) : Prop := ∃ es, Reads pattern es ∧ Mask.Splits es text

theorem Reads.unique {pattern : List Char} {es ds : List MaskElement} (he : Reads pattern es)
    (hd : Reads pattern ds) : es = ds := by
  induction he generalizing ds with
  | nil =>
    cases hd
    rfl
  | percent _ ih =>
    cases hd with
    | percent hd => rw [ih hd]
    | plain hpercent _ _ _ => exact absurd rfl hpercent
  | underscore _ ih =>
    cases hd with
    | underscore hd => rw [ih hd]
    | plain _ hunderscore _ _ => exact absurd rfl hunderscore
  | escaped c _ ih =>
    cases hd with
    | escaped _ hd => rw [ih hd]
    | plain _ _ hback _ => exact absurd rfl hback
  | plain hpercent hunderscore hback _ ih =>
    cases hd with
    | percent _ => exact absurd rfl hpercent
    | underscore _ => exact absurd rfl hunderscore
    | escaped _ _ => exact absurd rfl hback
    | plain _ _ _ hd => rw [ih hd]

/-! ## 2. Backslashes at the end -/

/-- The number of backslashes behind the last other character. -/
def backslashesAtEnd (pattern : List Char) : Nat := (pattern.reverse.takeWhile (· == '\\')).length

theorem backslashesAtEnd_le (pattern : List Char) : backslashesAtEnd pattern ≤ pattern.length := by
  have h := (List.takeWhile_prefix (p := (· == '\\')) (l := pattern.reverse)).length_le
  rwa [List.length_reverse] at h

/-- A character in front counts if it is a backslash and nothing but backslashes follow. -/
theorem backslashesAtEnd_cons (c : Char) (rest : List Char) :
    backslashesAtEnd (c :: rest) =
      backslashesAtEnd rest +
        if backslashesAtEnd rest = rest.length ∧ c = '\\' then 1 else 0 := by
  unfold backslashesAtEnd
  rw [List.reverse_cons, List.takeWhile_append, List.length_reverse]
  by_cases hall : (rest.reverse.takeWhile (· == '\\')).length = rest.length
  · by_cases hc : c = '\\'
    · simp [hall, hc]
    · simp [hall, hc]
  · simp [hall]

/-- **A pattern that can be read does not end in half a pair of backslashes.** -/
theorem Reads.even_backslashesAtEnd {pattern : List Char} {es : List MaskElement}
    (h : Reads pattern es) : Even (backslashesAtEnd pattern) := by
  induction h with
  | nil => exact ⟨0, rfl⟩
  | percent _ ih => rwa [backslashesAtEnd_cons, if_neg (fun h => absurd h.2 (by decide))]
  | underscore _ ih => rwa [backslashesAtEnd_cons, if_neg (fun h => absurd h.2 (by decide))]
  | @escaped c rest _ _ ih =>
    have hle := backslashesAtEnd_le rest
    rw [backslashesAtEnd_cons '\\', backslashesAtEnd_cons c, List.length_cons]
    by_cases hpair : backslashesAtEnd rest = rest.length ∧ c = '\\'
    · rw [if_pos hpair, if_pos ⟨by rw [hpair.1], rfl⟩]
      exact ih.add even_two
    · rw [if_neg hpair, if_neg (fun h => by omega)]
      exact ih
  | plain _ _ hback _ ih => rwa [backslashesAtEnd_cons, if_neg (fun h => hback h.2)]

end LikePattern

/-! ## 3. Writing a mask as a pattern -/

/-- **The written pattern is read as what the mask is read as.** -/
theorem reads_toLike (term : List Char) : LikePattern.Reads (toLike term) (Mask.elements term) := by
  fun_induction Mask.elements term with
  | case1 => exact .nil
  | case2 => exact .escaped '\\' .nil
  | case3 c rest ih =>
    rw [toLike]
    by_cases hspecial : c = '%' ∨ c = '_' ∨ c = '\\'
    · rw [if_pos hspecial]
      exact .escaped c ih
    · rw [if_neg hspecial]
      obtain ⟨hpercent, hunderscore, hback⟩ := not_or.mp hspecial |>.imp_right not_or.mp
      exact .plain hpercent hunderscore hback ih
  | case4 c rest hend hpair ih =>
    have hback : c ≠ '\\' := Mask.ne_backslash hend hpair
    rw [toLike_cons hback]
    by_cases hrun : c = '*'
    · rw [if_pos hrun, if_pos hrun]
      exact .percent ih
    · rw [if_neg hrun, if_neg hrun]
      by_cases hone : c = '?'
      · rw [if_pos hone, if_pos hone]
        exact .underscore ih
      · rw [if_neg hone, if_neg hone]
        by_cases hspecial : c = '%' ∨ c = '_'
        · rw [if_pos hspecial]
          exact .escaped c ih
        · rw [if_neg hspecial]
          obtain ⟨hpercent, hunderscore⟩ := not_or.mp hspecial
          exact .plain hpercent hunderscore hback ih

/-- **A mask and the pattern it is written as fit the same texts**, and the pattern never ends in a
backslash that escapes nothing. -/
theorem toLike_keeps_meaning (term text : List Char) :
    (LikePattern.Fits (toLike term) text ↔ maskMatches text term = true) ∧
      Even (LikePattern.backslashesAtEnd (toLike term)) := by
  have hreads : LikePattern.Reads (toLike term) (Mask.elements term) := reads_toLike term
  refine ⟨?_, hreads.even_backslashesAtEnd⟩
  rw [maskMatches, elementsMatch_iff]
  constructor
  · rintro ⟨es, hes, hsplits⟩
    rw [hreads.unique hes]
    exact hsplits
  · intro hsplits
    exact ⟨_, hreads, hsplits⟩

end ContextualQuery
