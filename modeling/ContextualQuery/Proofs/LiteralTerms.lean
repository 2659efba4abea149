import ContextualQuery.Proofs.IgnoringCase
import ContextualQuery.Proofs.LikePatterns
import ContextualQuery.Proofs.WellFormed
import Mathlib.Data.List.Induction
/-!
# Terms that mask nothing

A term without `*` and `?`, or with backslashes before them, is compared without its mask: for equality, or for
being part of a text. Three scans read its backslashes, the one that looks for wild characters, the one that
takes the backslashes away, and the one that reads masks; and they read the same pairs.

* `Mask.elements_of_literal`: such a term is read as the characters that it stands for;
* `Mask.elements_append`: a term that does not end in half a pair of backslashes is read on its own, whatever
  follows it;
* `Mask.splits_append_iff`, `Mask.splits_literals_iff`: what it is for a text to be split by two lists of
  elements, and by literal ones;
* `maskMatches_literal_iff`, `maskMatches_within_iff`: the term as a mask, and between two runs;
* `Mask.FoldsAsRead`, `Mask.foldsAsRead_of`: terms that are folded as they are read;
* `Operand.test_exact_eq_masked_iff`, `Operand.test_contains_eq_masked_iff`: where the operand that such a term
  becomes takes what the term takes as a mask;
* `literal_terms_agree` puts these together. A term that takes less as a mask is in `escapedSigma_differs`.
-/

namespace ContextualQuery

open LikePattern (backslashesAtEnd backslashesAtEnd_le backslashesAtEnd_cons)

namespace Mask

variable {term : List Char}

/-! ## 1. How such a term is read -/

theorem of_hasWildcards_cons {c : Char} (hback : c ≠ '\\') (h : hasWildcards (c :: term) = false) :
    c ≠ '*' ∧ c ≠ '?' ∧ hasWildcards term = false := by
  rw [hasWildcards_cons hback, Bool.or_eq_false_iff, Bool.or_eq_false_iff, beq_eq_false_iff_ne,
    beq_eq_false_iff_ne] at h
  exact and_assoc.mp h

/-- **A term that masks nothing is read as the characters that it stands for.** -/
theorem elements_of_literal (h : hasWildcards term = false) :
    elements term = (unescape term).map .literal := by
  fun_induction elements term with
  | case1 => rfl
  | case2 => rfl
  | case3 c rest ih =>
    rw [hasWildcards] at h
    rw [unescape, List.map_cons, ih h]
  | case4 c rest hend hpair ih =>
    have hback : c ≠ '\\' := ne_backslash hend hpair
    obtain ⟨hrun, hone, hrest⟩ := of_hasWildcards_cons hback h
    rw [unescape_cons hback, List.map_cons, ih hrest, if_neg hrun, if_neg hone]

/-- A pair in front does not change whether what follows it ends in half a pair. -/
theorem even_backslashesAtEnd_of_pair {c : Char} {rest : List Char}
    (h : Even (backslashesAtEnd ('\\' :: c :: rest))) : Even (backslashesAtEnd rest) := by
  have hle := backslashesAtEnd_le rest
  rw [backslashesAtEnd_cons, backslashesAtEnd_cons c, List.length_cons] at h
  by_cases hpair : backslashesAtEnd rest = rest.length ∧ c = '\\'
  · rw [if_pos hpair, if_pos ⟨by rw [hpair.1], rfl⟩, Nat.add_assoc] at h
    exact (Nat.even_add.mp h).mpr even_two
  · rwa [if_neg hpair, if_neg (fun h => by omega)] at h

/-- **A term that does not end in half a pair of backslashes is read on its own**, whatever follows it. -/
theorem elements_append (h : Even (backslashesAtEnd term)) (rest : List Char) :
    elements (term ++ rest) = elements term ++ elements rest := by
  fun_induction elements term with
  | case1 => rfl
  | case2 => exact absurd h (by decide)
  | case3 c more ih =>
    rw [List.cons_append, List.cons_append, elements, ih (even_backslashesAtEnd_of_pair h)]
    rfl
  | case4 c more hend hpair ih =>
    have hback : c ≠ '\\' := ne_backslash hend hpair
    rw [backslashesAtEnd_cons, if_neg fun hc => hback hc.2] at h
    rw [List.cons_append, elements_cons hback, ih h]
    rfl

/-! ## 2. What its elements take -/

variable {es ds : List MaskElement} {text : List Char}

theorem splits_append_iff :
    Splits (es ++ ds) text ↔ ∃ front rest, Splits es front ∧ Splits ds rest ∧ front ++ rest = text := by
  constructor
  · rintro ⟨parts, hparts, rfl⟩
    refine ⟨(parts.take es.length).flatten, (parts.drop es.length).flatten, ⟨_, ?_, rfl⟩, ⟨_, ?_, rfl⟩, ?_⟩
    · exact (List.forall₂_take_append parts es ds hparts.flip).flip
    · exact (List.forall₂_drop_append parts es ds hparts.flip).flip
    · rw [← List.flatten_append, List.take_append_drop]
  · rintro ⟨front, rest, hfront, hrest, rfl⟩
    exact hfront.append hrest

/-- Literal elements take the text that they spell, and no other. -/
theorem splits_literals_iff {cs : List Char} : Splits (cs.map .literal) text ↔ text = cs := by
  refine ⟨fun h => ?_, fun h => h ▸ splits_literals cs⟩
  induction cs generalizing text with
  | nil => exact splits_nil_iff.mp h
  | cons c cs ih =>
    obtain ⟨part, rest, hpart, hrest, rfl⟩ := splits_cons_iff.mp h
    cases hpart
    rw [ih hrest]
    rfl

/-- A run takes every text. -/
theorem splits_anyRun (text : List Char) : Splits [.anyRun] text :=
  ⟨[text], .cons (.anyRun text) .nil, List.flatten_singleton⟩

/-- Literal elements between two runs take the texts that have theirs as a part. -/
theorem splits_within_iff {cs : List Char} :
    Splits ([.anyRun] ++ (cs.map .literal ++ [.anyRun])) text ↔ cs <:+: text := by
  simp only [splits_append_iff, splits_literals_iff]
  constructor
  · rintro ⟨before, _, _, ⟨_, after, rfl, _, rfl⟩, rfl⟩
    exact ⟨before, after, List.append_assoc _ _ _⟩
  · rintro ⟨before, after, rfl⟩
    exact ⟨before, cs ++ after, splits_anyRun before, ⟨cs, after, rfl, splits_anyRun after, rfl⟩,
      (List.append_assoc _ _ _).symm⟩

end Mask

variable {term text : List Char}

/-- As a mask the term takes the text that it stands for. -/
theorem maskMatches_literal_iff (h : hasWildcards term = false) :
    maskMatches text term = true ↔ text = unescape term := by
  rw [maskMatches, elementsMatch_iff, Mask.elements_of_literal h, Mask.splits_literals_iff]

/-- Between two runs it takes the texts that this one is a part of. -/
theorem maskMatches_within_iff (h : hasWildcards term = false) (heven : Even (backslashesAtEnd term)) :
    maskMatches text ('*' :: term ++ ['*']) = true ↔ unescape term <:+: text := by
  have helements : Mask.elements ('*' :: term ++ ['*']) =
      [.anyRun] ++ ((unescape term).map .literal ++ [.anyRun]) := by
    rw [List.cons_append, Mask.elements_cons (by decide), Mask.elements_append heven,
      Mask.elements_of_literal h]
    rfl
  rw [maskMatches, elementsMatch_iff, helements, Mask.splits_within_iff]

/-- A term masks something exactly if one of its elements is a run or any one character. -/
theorem hasWildcards_iff_mem :
    hasWildcards term = true ↔ .anyRun ∈ Mask.elements term ∨ .anyOne ∈ Mask.elements term := by
  rw [hasWildcards_iff]
  constructor
  · rintro ⟨e, he, hwild⟩
    cases e with
    | anyRun => exact .inl he
    | anyOne => exact .inr he
    | literal c => cases hwild
  · rintro (h | h)
    · exact ⟨_, h, rfl⟩
    · exact ⟨_, h, rfl⟩

/-! ## 3. The term in lower case -/

namespace Mask

/-- What is read as literal characters masks nothing, and stands for them. -/
theorem literal_of_elements {cs : List Char} (h : elements term = cs.map .literal) :
    hasWildcards term = false ∧ unescape term = cs := by
  have hwild : hasWildcards term = false := by
    rw [← Bool.not_eq_true, hasWildcards_iff_mem, h]
    simp
  rw [elements_of_literal hwild] at h
  exact ⟨hwild, List.map_injective_iff.mpr (fun _ _ => MaskElement.literal.inj) h⟩

/-- The lower case form of a term that masks nothing is read as literal characters, as many as the form of the text
that it stands for has. Only the forms of sigmas may differ, which look at the backslashes too. -/
theorem exists_elements_lowercaseFrom (hwild : hasWildcards term = false) (before before' : List Char) :
    ∃ cs, elements (lowercaseFrom before term) = cs.map .literal ∧
      cs.length = (lowercaseFrom before' (unescape term)).length ∧
      ('Σ' ∉ term → cs = lowercaseFrom before' (unescape term)) := by
  fun_induction elements term generalizing before before' with
  | case1 => exact ⟨[], rfl, rfl, fun _ => rfl⟩
  | case2 =>
    have hform (before : List Char) : lowercaseFrom before ['\\'] = ['\\'] := by
      rw [lowercaseFrom, lowerWithin_mark (.inr (.inr rfl))]
      rfl
    rw [show unescape ['\\'] = ['\\'] from rfl, hform, hform]
    exact ⟨['\\'], rfl, rfl, fun _ => rfl⟩
  | case3 c rest ih =>
    rw [hasWildcards] at hwild
    obtain ⟨cs, hcs, hlength, hforms⟩ := ih hwild (c :: '\\' :: before) (c :: before')
    rw [unescape, lowercaseFrom, lowerWithin_mark (.inr (.inr rfl)), lowercaseFrom, lowercaseFrom,
      List.singleton_append, elements_escaped, hcs]
    refine ⟨lowerWithin ('\\' :: before) c rest ++ cs, List.map_append.symm, ?_, fun hsigma => ?_⟩
    · rw [List.length_append, List.length_append, length_lowerWithin, length_lowerWithin, hlength]
    · simp only [List.mem_cons, not_or] at hsigma
      obtain ⟨-, hc, hrest⟩ := hsigma
      rw [hforms hrest, lowerWithin_of_ne (Ne.symm hc), lowerWithin_of_ne (Ne.symm hc) before']
  | case4 c rest hend hpair ih =>
    have hback : c ≠ '\\' := ne_backslash hend hpair
    obtain ⟨hrun, hone, hwild⟩ := of_hasWildcards_cons hback hwild
    obtain ⟨cs, hcs, hlength, hforms⟩ := ih hwild (c :: before) (c :: before')
    rw [unescape_cons hback, lowercaseFrom, lowercaseFrom, elements_lowered hback, if_neg hrun, if_neg hone,
      hcs]
    refine ⟨lowerWithin before c rest ++ cs, List.map_append.symm, ?_, fun hsigma => ?_⟩
    · rw [List.length_append, List.length_append, length_lowerWithin, length_lowerWithin, hlength]
    · rw [List.mem_cons, not_or] at hsigma
      obtain ⟨hc, hrest⟩ := hsigma
      rw [hforms hrest, lowerWithin_of_ne (Ne.symm hc), lowerWithin_of_ne (Ne.symm hc) before']

theorem unescape_of_not_mem (h : '\\' ∉ term) : unescape term = term := by
  induction term with
  | nil => rfl
  | cons c rest ih =>
    rw [List.mem_cons, not_or] at h
    rw [unescape_cons (Ne.symm h.1), ih h.2]

/-- Lowering brings no backslashes. -/
theorem not_mem_lowercaseFrom (h : '\\' ∉ term) (before : List Char) : '\\' ∉ lowercaseFrom before term := by
  induction term generalizing before with
  | nil => exact h
  | cons c rest ih =>
    rw [List.mem_cons, not_or] at h
    obtain ⟨hc, hrest⟩ := h
    rw [lowercaseFrom, List.mem_append, not_or]
    refine ⟨fun hmem => ?_, ih hrest _⟩
    by_cases hmark : IsMaskMark c
    · rw [lowerWithin_mark hmark] at hmem
      exact hc (List.mem_singleton.mp hmem)
    · exact not_mark_of_lowerWithin hmark _ _ _ hmem (.inr (.inr rfl))

/-- **A term is folded as it is read**: its backslashes may be taken away before it is folded or after. -/
def FoldsAsRead (isCaseSensitive : Bool) (term : List Char) : Prop :=
  unescape (folded isCaseSensitive (String.ofList term)) =
    folded isCaseSensitive (String.ofList (unescape term))

instance (isCaseSensitive : Bool) (term : List Char) : Decidable (FoldsAsRead isCaseSensitive term) :=
  inferInstanceAs (Decidable (_ = _))

variable {isCaseSensitive : Bool}

/-- A folded term masks nothing if the term does not, and it stands for as many characters as the folded text that
the term stands for. -/
theorem literal_folded (hwild : hasWildcards term = false) :
    hasWildcards (folded isCaseSensitive (String.ofList term)) = false ∧
      (unescape (folded isCaseSensitive (String.ofList term))).length =
        (folded isCaseSensitive (String.ofList (unescape term))).length := by
  rw [folded, folded, String.toList_ofList, String.toList_ofList]
  cases isCaseSensitive with
  | true => exact ⟨hwild, rfl⟩
  | false =>
    obtain ⟨cs, hcs, hlength, _⟩ := exists_elements_lowercaseFrom hwild [] []
    obtain ⟨hwild, hread⟩ := literal_of_elements hcs
    exact ⟨hwild, (congrArg List.length hread).trans hlength⟩

/-- Whatever regards case is folded as it is read, and otherwise what has no backslashes, or no sigmas, which might
look at them. -/
theorem foldsAsRead_of (hwild : hasWildcards term = false)
    (h : isCaseSensitive = true ∨ '\\' ∉ term ∨ 'Σ' ∉ term) : FoldsAsRead isCaseSensitive term := by
  rw [FoldsAsRead, folded, folded, String.toList_ofList, String.toList_ofList]
  cases isCaseSensitive with
  | true => rfl
  | false =>
    rw [if_neg Bool.false_ne_true, if_neg Bool.false_ne_true]
    obtain hback | hsigma := h.resolve_left Bool.false_ne_true
    · rw [unescape_of_not_mem hback]
      exact unescape_of_not_mem (not_mem_lowercaseFrom hback [])
    · obtain ⟨cs, hcs, _, hforms⟩ := exists_elements_lowercaseFrom hwild [] []
      exact (literal_of_elements hcs).2.trans (hforms hsigma)

end Mask

theorem backslashesAtEnd_concat (cs : List Char) (c : Char) :
    backslashesAtEnd (cs ++ [c]) = if c = '\\' then backslashesAtEnd cs + 1 else 0 := by
  rw [backslashesAtEnd, List.reverse_append, List.reverse_singleton, List.singleton_append,
    List.takeWhile_cons]
  by_cases hc : c = '\\'
  · rw [if_pos (beq_iff_eq.mpr hc), if_pos hc]
    rfl
  · rw [if_neg fun h => hc (beq_iff_eq.mp h), if_neg hc]
    rfl

/-- The lower case form of a text ends in as many backslashes as the text. -/
theorem backslashesAtEnd_lowerBetween (before cs after : List Char) :
    backslashesAtEnd (lowerBetween before cs after) = backslashesAtEnd cs := by
  induction cs using List.reverseRecOn generalizing after with
  | nil => rfl
  | append_singleton cs c ih =>
    rw [lowerBetween_append, backslashesAtEnd_concat]
    have hlast : lowerBetween (cs.reverse ++ before) [c] after =
        lowerWithin (cs.reverse ++ before) c after := by
      rw [lowerBetween, lowerBetween, List.append_nil, List.nil_append]
    rw [hlast]
    by_cases hmark : IsMaskMark c
    · rw [lowerWithin_mark hmark, backslashesAtEnd_concat, ih]
    · obtain ⟨d, ds, hlower, -⟩ := lowerWithin_cons (cs.reverse ++ before) c after
      obtain ⟨front, e, he⟩ : ∃ front e, d :: ds = front ++ [e] :=
        ⟨_, _, (List.dropLast_append_getLast (List.cons_ne_nil d ds)).symm⟩
      have hmem : e ∈ lowerWithin (cs.reverse ++ before) c after := by
        rw [hlower, he]
        exact List.mem_append_right _ List.mem_cons_self
      have hback : e ≠ '\\' := fun h => not_mark_of_lowerWithin hmark _ _ e hmem (.inr (.inr h))
      rw [hlower, he, ← List.append_assoc, backslashesAtEnd_concat, if_neg hback,
        if_neg fun h => hmark (.inr (.inr h))]

theorem backslashesAtEnd_folded (isCaseSensitive : Bool) (s : String) :
    backslashesAtEnd (folded isCaseSensitive s) = backslashesAtEnd s.toList := by
  rw [folded]
  cases isCaseSensitive with
  | true => rfl
  | false =>
    rw [if_neg Bool.false_ne_true, lowercase, lowercaseFrom_eq]
    exact backslashesAtEnd_lowerBetween _ _ _

/-- A run at either end of a term leaves the forms of its characters. -/
theorem lowerBetween_within (before cs : List Char) :
    lowerBetween (before ++ ['*']) cs ['*'] = lowerBetween before cs [] := by
  have hreaches (ds : List Char) : reachesCased (ds ++ ['*']) = reachesCased ds := by
    rcases reaches_cases ds with hnone | hcased | huncased
    · rw [reachesCased_append_of_neither hnone, reachesCased_of_neither hnone]
      decide +kernel
    · rw [reachesCased_append_of_cased hcased, hcased]
    · rw [reachesCased_append_of_uncased huncased, reachesCased_of_uncased huncased]
  induction cs generalizing before with
  | nil => rfl
  | cons c cs ih =>
    have hform : lowerWithin (before ++ ['*']) c (cs ++ ['*']) = lowerWithin before c cs := by
      by_cases hc : c = 'Σ'
      · rw [hc, lowerWithin_sigma, lowerWithin_sigma, hreaches, hreaches]
      · rw [lowerWithin_of_ne hc, lowerWithin_of_ne hc before]
    rw [lowerBetween, lowerBetween, hform, List.append_nil, ← ih (c :: before)]
    rfl

theorem folded_within (isCaseSensitive : Bool) (term : List Char) :
    folded isCaseSensitive (String.ofList ('*' :: term ++ ['*'])) =
      '*' :: folded isCaseSensitive (String.ofList term) ++ ['*'] := by
  rw [folded, folded, String.toList_ofList, String.toList_ofList]
  cases isCaseSensitive with
  | true => rfl
  | false =>
    have hstar (before after : List Char) : lowerWithin before '*' after = ['*'] :=
      lowerWithin_mark (.inl rfl) before after
    have hwithin : lowerBetween ['*'] term ['*'] = lowerBetween [] term [] := lowerBetween_within [] term
    rw [if_neg Bool.false_ne_true, if_neg Bool.false_ne_true, lowercase, lowercase, List.cons_append,
      lowercaseFrom, hstar, lowercaseFrom_append, hwithin, lowercaseFrom, lowercaseFrom, hstar,
      lowercaseFrom_eq]
    rfl

/-! ## 4. The operand that it becomes -/

namespace Operand

/-- The operand that a term is as a mask. -/
def masked (isCaseSensitive : Bool) (term : List Char) : Operand :=
  ⟨.text (String.ofList term), .pattern, isCaseSensitive⟩

/-- The operand of a term that masks nothing. -/
theorem ofTerm_literal (settings : Settings) (symbol : RelationSymbol) (modifiers : Modifiers)
    (h : hasWildcards term = false) :
    ofTerm settings .text symbol modifiers (String.ofList term) =
      .ok ⟨.text (String.ofList (unescape term)), literalMode settings symbol,
        respectsCase settings modifiers⟩ := by
  have hmask : isMask modifiers (String.ofList term) = false := by
    rw [isMask, String.toList_ofList, h, Bool.and_false]
  rw [ofTerm, if_pos (show Domain.text.isText = true from rfl), ofText, hmask, String.toList_ofList]
  rfl

variable {isCaseSensitive : Bool}

/-- **Compared for equality, a term that masks nothing takes what it takes as a mask, exactly if it is folded as it
is read.** Otherwise the text that it stands for tells the two apart. -/
theorem test_exact_eq_masked_iff (h : hasWildcards term = false) :
    (∀ a, (⟨.text (String.ofList (unescape term)), .exact, isCaseSensitive⟩ : Operand).test .eq (.text a) =
      (masked isCaseSensitive term).test .eq (.text a)) ↔ Mask.FoldsAsRead isCaseSensitive term := by
  have hexact (a : String) :
      (⟨.text (String.ofList (unescape term)), .exact, isCaseSensitive⟩ : Operand).test .eq (.text a) = true ↔
        folded isCaseSensitive a = folded isCaseSensitive (String.ofList (unescape term)) :=
    testText_exact_iff
  have hmasked (a : String) : (masked isCaseSensitive term).test .eq (.text a) = true ↔
      folded isCaseSensitive a = unescape (folded isCaseSensitive (String.ofList term)) :=
    maskMatches_literal_iff (Mask.literal_folded h).1
  simp only [Bool.eq_iff_iff, hexact, hmasked]
  constructor
  · intro hall
    exact ((hall (String.ofList (unescape term))).mp rfl).symm
  · intro hfolds a
    rw [hfolds]

/-- **Compared for being a part, it takes what it takes as a mask between two runs, exactly if it is folded as it is
read**, unless it ends in half a pair of backslashes. -/
theorem test_contains_eq_masked_iff (h : hasWildcards term = false) (heven : Even (backslashesAtEnd term)) :
    (∀ a, (⟨.text (String.ofList (unescape term)), .contains, isCaseSensitive⟩ : Operand).test .eq (.text a) =
      (masked isCaseSensitive ('*' :: term ++ ['*'])).test .eq (.text a)) ↔
        Mask.FoldsAsRead isCaseSensitive term := by
  have hcontains (a : String) :
      (⟨.text (String.ofList (unescape term)), .contains, isCaseSensitive⟩ : Operand).test .eq (.text a) =
        true ↔ folded isCaseSensitive (String.ofList (unescape term)) <:+: folded isCaseSensitive a :=
    containsText_iff
  have heven' : Even (backslashesAtEnd (folded isCaseSensitive (String.ofList term))) := by
    rwa [backslashesAtEnd_folded, String.toList_ofList]
  have hmasked (a : String) : (masked isCaseSensitive ('*' :: term ++ ['*'])).test .eq (.text a) = true ↔
      unescape (folded isCaseSensitive (String.ofList term)) <:+: folded isCaseSensitive a := by
    rw [← maskMatches_within_iff (Mask.literal_folded h).1 heven', ← folded_within]
    rfl
  simp only [Bool.eq_iff_iff, hcontains, hmasked]
  constructor
  · intro hall
    exact ((hall (String.ofList (unescape term))).mp List.infix_rfl).eq_of_length (Mask.literal_folded h).2
  · intro hfolds a
    rw [hfolds]

end Operand

/-- **The three ways to compare a text agree where they overlap.** A term masks something exactly if it is read
with a wild element. If it does not, then it takes as a mask the text that it stands for, and between two runs,
unless it ends in half a pair of backslashes, the texts that this one is a part of. The operand of such a term is
compared for equality or for being a part. It takes the texts that the term takes as a mask, by itself or between
two runs, exactly if the term is folded as it is read; and so it is unless case is ignored and a sigma stands in the
term along with a backslash. -/
theorem literal_terms_agree (term text : List Char) :
    (hasWildcards term = true ↔ .anyRun ∈ Mask.elements term ∨ .anyOne ∈ Mask.elements term) ∧
    (hasWildcards term = false →
      (maskMatches text term = true ↔ text = unescape term) ∧
      (Even (backslashesAtEnd term) →
        (maskMatches text ('*' :: term ++ ['*']) = true ↔ unescape term <:+: text)) ∧
      (∀ (settings : Settings) (symbol : RelationSymbol) (modifiers : Modifiers), ∃ o,
        Operand.ofTerm settings .text symbol modifiers (String.ofList term) = .ok o ∧
        (o.mode = .exact ∧
            ((∀ a, o.test .eq (.text a) = (Operand.masked o.isCaseSensitive term).test .eq (.text a)) ↔
              Mask.FoldsAsRead o.isCaseSensitive term) ∨
          o.mode = .contains ∧ (Even (backslashesAtEnd term) →
            ((∀ a, o.test .eq (.text a) =
                (Operand.masked o.isCaseSensitive ('*' :: term ++ ['*'])).test .eq (.text a)) ↔
              Mask.FoldsAsRead o.isCaseSensitive term)))) ∧
      ∀ isCaseSensitive, isCaseSensitive = true ∨ '\\' ∉ term ∨ 'Σ' ∉ term →
        Mask.FoldsAsRead isCaseSensitive term) := by
  refine ⟨hasWildcards_iff_mem, fun h => ⟨maskMatches_literal_iff h, maskMatches_within_iff h, ?_,
    fun _ => Mask.foldsAsRead_of h⟩⟩
  intro settings symbol modifiers
  refine ⟨_, Operand.ofTerm_literal settings symbol modifiers h, ?_⟩
  dsimp only
  rcases Operand.literalMode_cases settings symbol with hmode | ⟨hmode, _⟩
  · rw [hmode]
    exact .inl ⟨rfl, Operand.test_exact_eq_masked_iff h⟩
  · rw [hmode]
    exact .inr ⟨rfl, Operand.test_contains_eq_masked_iff h⟩

/-- The term `5\*`, which masks nothing, asks for the texts with `5*` in them, as the mask `*5\**` does. -/
theorem fiveStar_agrees :
    hasWildcards ['5', '\\', '*'] = false ∧ maskMatches ['5', '*'] ['5', '\\', '*'] = true ∧
    maskMatches ['1', '5', '*', '0'] ['*', '5', '\\', '*', '*'] = true ∧
    ∀ a, (⟨.text "5*", .contains, false⟩ : Operand).test .eq (.text a) =
      (Operand.masked false ['*', '5', '\\', '*', '*']).test .eq (.text a) := by
  have hwild : hasWildcards ['5', '\\', '*'] = false := by decide
  have heven : Even (backslashesAtEnd ['5', '\\', '*']) := by decide
  obtain ⟨_, hwithin, hoperand, hfolds⟩ := (literal_terms_agree ['5', '\\', '*'] ['1', '5', '*', '0']).2 hwild
  refine ⟨hwild, ?_, (hwithin heven).mpr ⟨['1'], ['0'], rfl⟩, ?_⟩
  · exact ((literal_terms_agree ['5', '\\', '*'] ['5', '*']).2 hwild).1.mpr rfl
  · obtain ⟨o, hok, hmodes⟩ := hoperand {} .word {}
    obtain rfl : (⟨.text "5*", .contains, false⟩ : Operand) = o := Except.ok.inj hok
    obtain ⟨hmode, _⟩ | ⟨_, hagrees⟩ := hmodes
    · cases hmode
    · exact (hagrees heven).mpr (hfolds false (.inr (.inr (by decide))))

/-- The term `α\Σ` masks nothing and takes the text `αΣ`, which it stands for. As a mask it does not: a sigma that
ends a word has another form than one behind a backslash. -/
theorem escapedSigma_differs :
    hasWildcards ['α', '\\', 'Σ'] = false ∧
    Operand.ofTerm {} .text .exact {} "α\\Σ" = .ok ⟨.text "αΣ", .exact, false⟩ ∧
    (⟨.text "αΣ", .exact, false⟩ : Operand).test .eq (.text "αΣ") = true ∧
    (Operand.masked false ['α', '\\', 'Σ']).test .eq (.text "αΣ") = false ∧
    ¬Mask.FoldsAsRead false ['α', '\\', 'Σ'] := by
  refine ⟨by decide, by decide +kernel, by decide +kernel, by decide +kernel, by decide +kernel⟩

end ContextualQuery
