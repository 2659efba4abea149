import ContextualQuery.Proofs.LetterCase
import ContextualQuery.Proofs.Quoting
import ContextualQuery.Proofs.Scanning
import ContextualQuery.Store.Answering
/-!
# Comparing without regard to case

A comparison without regard to case lowers both texts and compares what comes of it. Equal texts stay equal.
A part of a text stays a part if it decides the forms of its sigmas, and for any other there is a text in
which it is lost. What fits a mask fits it lowered, if the sigmas that the mask names have the same forms in
the mask and in the text, and no `?` stands for the dotted capital I, which is lowered to two characters.

* `containsText_iff`, `lowercase_infix`, `exists_lost`, `contained_iff_decided`: parts of texts;
* `Mask.elements_lowered`, `Mask.elements_escaped`: what the characters of a lowered mask are read as;
* `Mask.sigmaForms`, `Mask.splits_lowered`: the forms of sigmas, and what a text is split by when both it and
  the mask are lowered;
* `Operand.Keeps`: comparisons that lose nothing without regard to case, and `Operand.ofTerm_ignoreCase`: the
  operands that the two modifiers make;
* `kept_ignoring_case`.
-/

namespace ContextualQuery

/-! ## 1. Parts of texts -/

theorem containsText_iff {text part : List Char} :
    containsText text part = true ↔ part <:+: text := by
  induction text with
  | nil => simp [containsText]
  | cons c rest ih =>
    rw [containsText, Bool.or_eq_true, ih, List.isPrefixOf_iff_prefix, List.infix_cons_iff]

/-- A part that decides the forms of its sigmas stays a part of every text. -/
theorem lowercase_infix {part text : List Char} (h : SigmasDecided part) (hin : part <:+: text) :
    lowercase part <:+: lowercase text := by
  obtain ⟨before, after, rfl⟩ := hin
  have hparts : lowercase (before ++ part ++ after) = lowerBetween [] before (part ++ after) ++
      (lowercase part ++ lowercaseFrom (part.reverse ++ (before.reverse ++ [])) after) := by
    rw [lowercase, List.append_assoc, lowercaseFrom_append, lowercaseFrom_append,
      lowerBetween_of_decided h]
  rw [hparts]
  exact List.infix_append' _ _ _

theorem eq_or_getLast?_of_infix {α : Type} {xs ys : List α} {x : α} (h : xs <:+: ys ++ [x])
    (hlength : xs.length = ys.length) (hne : xs ≠ []) : xs = ys ∨ xs.getLast? = some x := by
  rcases List.infix_concat_iff.mp h with hends | hwithin
  · rcases List.suffix_concat_iff.mp hends with hnil | ⟨zs, rfl, _⟩
    · exact absurd hnil hne
    · exact Or.inr List.getLast?_concat
  · exact Or.inl (hwithin.eq_of_length hlength)

theorem eq_or_head?_of_infix {α : Type} {xs ys : List α} {x : α} (h : xs <:+: x :: ys)
    (hlength : xs.length = ys.length) (hne : xs ≠ []) : xs = ys ∨ xs.head? = some x := by
  rcases List.infix_cons_iff.mp h with hstarts | hwithin
  · rcases List.prefix_cons_iff.mp hstarts with hnil | ⟨zs, rfl, _⟩
    · exact absurd hnil hne
    · exact Or.inr rfl
  · exact Or.inl (hwithin.eq_of_length hlength)

/-- There are small letters apart from any given character. -/
theorem exists_letter (o : Option Char) :
    ∃ c, o ≠ some c ∧ reachesCased [c] = true ∧ ∀ before after, lowerWithin before c after = [c] := by
  have hlower {c : Char} (hsigma : c ≠ 'Σ') (hc : lowerWithin [] c [] = [c]) :
      ∀ before after, lowerWithin before c after = [c] := fun before after =>
    (lowerWithin_of_ne hsigma before after).trans hc
  by_cases ha : o = some 'a'
  · exact ⟨'b', by rw [ha]; decide, by decide +kernel, hlower (by decide) (by decide +kernel)⟩
  · exact ⟨'a', ha, by decide +kernel, hlower (by decide) (by decide +kernel)⟩

/-- **A part that leaves the form of a sigma open is lost in some text**: next to one more letter. -/
theorem exists_lost {part : List Char} (h : ¬SigmasDecided part) :
    ∃ text, part <:+: text ∧ ¬lowercase part <:+: lowercase text := by
  simp only [SigmasDecided, not_forall] at h
  obtain ⟨before, after, hpart, hopen⟩ := h
  have hlength (before' after' : List Char) :
      (lowercase part).length = (lowerBetween before' part after').length := by
    rw [lowercase, lowercaseFrom_eq]
    exact length_lowerBetween part [] [] before' after'
  have hne : lowercase part ≠ [] := by
    rw [lowercase, lowercaseFrom_eq, hpart, lowerBetween_append, lowerBetween, lowerWithin_sigma]
    exact List.append_ne_nil_of_right_ne_nil _ (List.cons_ne_nil _ _)
  rcases sigma_of_not_decided hopen with hform | hform
  · obtain ⟨c, hlast, hcased, hlower⟩ := exists_letter (lowercase part).getLast?
    have htext : lowercase (part ++ [c]) = lowerBetween [] part [c] ++ [c] := by
      rw [lowercase, lowercaseFrom_append, lowercaseFrom, hlower]
      rfl
    refine ⟨part ++ [c], (List.prefix_append _ _).isInfix, fun hin => ?_⟩
    rw [htext] at hin
    rcases eq_or_getLast?_of_infix hin (hlength [] [c]) hne with heq | hsome
    · have hsame := sigma_of_lowerBetween_eq hpart heq.symm
      rw [List.append_nil] at hsame
      exact hform c hcased hsame
    · exact hlast hsome
  · obtain ⟨c, hhead, hcased, hlower⟩ := exists_letter (lowercase part).head?
    have htext : lowercase (c :: part) = c :: lowerBetween [c] part [] := by
      rw [lowercase, lowercaseFrom, hlower, lowercaseFrom_eq]
      rfl
    refine ⟨c :: part, (List.suffix_cons _ _).isInfix, fun hin => ?_⟩
    rw [htext] at hin
    rcases eq_or_head?_of_infix hin (hlength [c] []) hne with heq | hsome
    · have hsame := sigma_of_lowerBetween_eq hpart heq.symm
      rw [List.append_nil] at hsame
      exact hform c hcased hsame
    · exact hhead hsome

/-- **A part is found in every text without regard to case if it is found with it, exactly if it decides the
forms of its sigmas.** -/
theorem contained_iff_decided {part : List Char} :
    (∀ text, part <:+: text → lowercase part <:+: lowercase text) ↔ SigmasDecided part := by
  refine ⟨fun hkept => ?_, fun h text hin => lowercase_infix h hin⟩
  by_contra hopen
  obtain ⟨text, hin, hlost⟩ := exists_lost hopen
  exact hlost (hkept text hin)

/-! ## 2. Masks -/

/-- The characters that mean something in a mask. -/
def IsMaskMark (c : Char) : Prop := c = '*' ∨ c = '?' ∨ c = '\\'

theorem lowerWithin_mark {c : Char} (h : IsMaskMark c) (before after : List Char) :
    lowerWithin before c after = [c] := by
  rcases h with rfl | rfl | rfl
  all_goals
    rw [lowerWithin_of_ne (by decide)]
    decide +kernel

/-- No other character is lowered to a mark. -/
theorem not_mark_of_lowerWithin {c : Char} (h : ¬IsMaskMark c) (before after : List Char) :
    ∀ d ∈ lowerWithin before c after, ¬IsMaskMark d := by
  intro d hd hmark
  have hle : d.toNat ≤ 92 := by
    rcases hmark with rfl | rfl | rfl <;> decide
  unfold lowerWithin at hd
  split at hd
  · obtain rfl := List.mem_singleton.mp hd
    split at hle <;> exact absurd hle (by decide)
  · split at hd
    · rcases List.mem_pair.mp hd with rfl | rfl <;> exact absurd hle (by decide)
    · obtain rfl := List.mem_singleton.mp hd
      rcases lowerChar_cases c with hself | hletter
      · rw [hself] at hmark
        exact h hmark
      · omega

/-- A character is lowered to one, which no mark follows. -/
theorem lowerWithin_cons (before : List Char) (c : Char) (after : List Char) :
    ∃ d ds, lowerWithin before c after = d :: ds ∧ ∀ e ∈ ds, ¬IsMaskMark e := by
  unfold lowerWithin
  split
  · exact ⟨_, [], rfl, fun _ he => absurd he List.not_mem_nil⟩
  · split
    · refine ⟨'i', ['\u0307'], rfl, fun e he => ?_⟩
      obtain rfl := List.mem_singleton.mp he
      rintro (h | h | h) <;> exact absurd h (by decide)
    · exact ⟨_, [], rfl, fun _ he => absurd he List.not_mem_nil⟩

/-- What an element becomes when its mask is lowered: a literal character those of its lower case form. -/
def MaskElement.lowered (form : List Char) : MaskElement → List MaskElement
  | .literal _ => form.map .literal
  | e => [e]

namespace Mask

/-- Characters that are no marks are literal. -/
theorem elements_append_of_not_mark {cs : List Char} (h : ∀ c ∈ cs, ¬IsMaskMark c)
    (rest : List Char) : elements (cs ++ rest) = cs.map .literal ++ elements rest := by
  induction cs with
  | nil => rfl
  | cons c cs ih =>
    obtain ⟨hrun, hone, hback⟩ : c ≠ '*' ∧ c ≠ '?' ∧ c ≠ '\\' := by
      simpa [IsMaskMark] using h c List.mem_cons_self
    rw [List.cons_append, elements_cons hback, if_neg hrun, if_neg hone,
      ih fun d hd => h d (List.mem_cons_of_mem _ hd)]
    rfl

/-- Away from a backslash a lowered character is read as its element, lowered. -/
theorem elements_lowered {c : Char} (hback : c ≠ '\\') (before after rest : List Char) :
    elements (lowerWithin before c after ++ rest) =
      (if c = '*' then MaskElement.anyRun else if c = '?' then .anyOne else .literal c).lowered
        (lowerWithin before c after) ++ elements rest := by
  by_cases hrun : c = '*'
  · rw [lowerWithin_mark (Or.inl hrun), if_pos hrun, List.singleton_append, elements_cons hback,
      if_pos hrun]
    rfl
  · by_cases hone : c = '?'
    · rw [lowerWithin_mark (Or.inr (Or.inl hone)), if_neg hrun, if_pos hone, List.singleton_append,
        elements_cons hback, if_neg hrun, if_pos hone]
      rfl
    · have hmark : ¬IsMaskMark c := by
        rintro (h | h | h)
        exacts [hrun h, hone h, hback h]
      rw [elements_append_of_not_mark (not_mark_of_lowerWithin hmark _ _), if_neg hrun, if_neg hone]
      rfl

/-- Behind a backslash a lowered character is literal. -/
theorem elements_escaped (before : List Char) (c : Char) (after rest : List Char) :
    elements ('\\' :: (lowerWithin before c after ++ rest)) =
      (MaskElement.literal c).lowered (lowerWithin before c after) ++ elements rest := by
  obtain ⟨d, ds, hlower, hds⟩ := lowerWithin_cons before c after
  rw [hlower, List.cons_append, elements, elements_append_of_not_mark hds]
  rfl

theorem Splits.append {es ds : List MaskElement} {cs rest : List Char} (h : Splits es cs)
    (hrest : Splits ds rest) : Splits (es ++ ds) (cs ++ rest) := by
  obtain ⟨parts, hparts, rfl⟩ := h
  obtain ⟨others, hothers, rfl⟩ := hrest
  exact ⟨parts ++ others, List.rel_append hparts hothers, List.flatten_append⟩

/-- Literal elements take the text that they spell. -/
theorem splits_literals (cs : List Char) : Splits (cs.map .literal) cs := by
  induction cs with
  | nil => exact splits_nil_iff.mpr rfl
  | cons c cs ih => exact (splits_single_iff MaskElement.noConfusion).mpr ⟨beq_self_eq_true c, ih⟩

/-- What an element takes it takes lowered, unless it is a `?` that stands for a dotted capital I. -/
theorem splits_lowered_part {e : MaskElement} {part form before after : List Char}
    (h : e.Takes part) (hdotted : (e, part) ≠ (.anyOne, ['İ']))
    (hform : ∀ c, e = .literal c → form = lowerWithin before c after) :
    Splits (e.lowered form) (lowerBetween before part after) := by
  cases h with
  | anyRun run =>
    exact ⟨[lowerBetween before part after], .cons (.anyRun _) .nil, List.flatten_singleton⟩
  | anyOne c =>
    have hc : c ≠ 'İ' := by
      rintro rfl
      exact hdotted rfl
    have hlength : (lowerBetween before [c] after).length = 1 := by
      rw [lowerBetween, lowerBetween, List.append_nil, length_lowerWithin, if_neg hc]
    obtain ⟨d, hd⟩ := List.length_eq_one_iff.mp hlength
    rw [hd]
    exact ⟨[[d]], .cons (.anyOne d) .nil, rfl⟩
  | literal c =>
    rw [lowerBetween, lowerBetween, List.append_nil, List.nil_append, ← hform c rfl]
    exact splits_literals form

/-! ## 3. The forms of sigmas in masks -/

/-- The characters that each element of a mask is written with. -/
def pieces : List Char → List (List Char)
  | [] => []
  | ['\\'] => [['\\']]
  | '\\' :: c :: rest => ['\\', c] :: pieces rest
  | c :: rest => [c] :: pieces rest

theorem pieces_cons {c : Char} (h : c ≠ '\\') (rest : List Char) :
    pieces (c :: rest) = [c] :: pieces rest := by
  rw [pieces]
  · exact fun hc => absurd hc h
  · exact fun _ _ hc => absurd hc h

theorem flatten_pieces (mask : List Char) : (pieces mask).flatten = mask := by
  fun_induction pieces mask with
  | case1 => rfl
  | case2 => rfl
  | case3 c rest ih => rw [List.flatten_cons, ih]; rfl
  | case4 c rest hend hpair ih => rw [List.flatten_cons, ih]; rfl

/-- The forms that the sigmas named by elements take in a text, of which each element has a part. What stands
before the text is given backwards. -/
def sigmaForms (before : List Char) : List MaskElement → List (List Char) → List (Option Char)
  | e :: es, part :: parts =>
    let further := sigmaForms (part.reverse ++ before) es parts
    if e = .literal 'Σ' then (lowerBetween before part parts.flatten).getLast? :: further
    else further
  | _, _ => []

theorem sigmaForms_of_not_mem {es : List MaskElement} (h : .literal 'Σ' ∉ es)
    (before : List Char) (parts : List (List Char)) : sigmaForms before es parts = [] := by
  induction es generalizing before parts with
  | nil => rfl
  | cons e es ih =>
    cases parts with
    | nil => rfl
    | cons part parts =>
      have he : .literal 'Σ' ≠ e := List.ne_of_not_mem_cons h
      rw [sigmaForms, if_neg he.symm, ih (List.not_mem_of_not_mem_cons h)]

theorem getLast?_lowerBetween_sigma (before lead after : List Char) :
    (lowerBetween before (lead ++ ['Σ']) after).getLast? =
      (lowerWithin (lead.reverse ++ before) 'Σ' after).head? := by
  rw [lowerBetween_append, lowerBetween, lowerBetween, List.append_nil, List.nil_append,
    lowerWithin_sigma, List.getLast?_concat]
  rfl

/-- Where the forms of the sigmas agree, a literal character has the same form in both texts. -/
theorem forms_of_sigmaForms_eq {e : MaskElement} {es : List MaskElement} (lead : List Char)
    {part : List Char} {c : Char} {pieces parts : List (List Char)} {before before' : List Char}
    (h : sigmaForms before (e :: es) ((lead ++ [c]) :: pieces) =
      sigmaForms before' (e :: es) (part :: parts))
    (hpart : e.Takes part) (hc : ∀ d, e = .literal d → d = c) :
    (∀ d, e = .literal d → lowerWithin (lead.reverse ++ before) c pieces.flatten =
      lowerWithin before' d parts.flatten) ∧
    sigmaForms (c :: (lead.reverse ++ before)) es pieces =
      sigmaForms (part.reverse ++ before') es parts := by
  have hreverse : (lead ++ [c]).reverse ++ before = c :: (lead.reverse ++ before) := by
    rw [List.reverse_append]
    rfl
  by_cases hsigma : e = .literal 'Σ'
  · subst hsigma
    cases hpart
    obtain rfl := hc 'Σ' rfl
    rw [sigmaForms, sigmaForms, if_pos rfl, if_pos rfl, hreverse] at h
    obtain ⟨hform, hrest⟩ := List.cons.inj h
    have hlast := (getLast?_lowerBetween_sigma before lead pieces.flatten).symm.trans
      (hform.trans (getLast?_lowerBetween_sigma before' [] parts.flatten))
    refine ⟨fun d hd => ?_, hrest⟩
    obtain rfl := hc d hd
    exact congrArg Option.toList hlast
  · rw [sigmaForms, sigmaForms, if_neg hsigma, if_neg hsigma, hreverse] at h
    refine ⟨fun d hd => ?_, h⟩
    obtain rfl := hc d hd
    have hne : d ≠ 'Σ' := fun he => hsigma (he ▸ hd)
    rw [lowerWithin_of_ne hne, lowerWithin_of_ne hne before']

/-- **What fits a mask fits it lowered**, if the sigmas that the mask names have the same forms in both, and
no `?` stands for a dotted capital I. -/
theorem splits_lowered {mask : List Char} {parts : List (List Char)}
    (h : List.Forall₂ MaskElement.Takes (elements mask) parts)
    (hdotted : (.anyOne, ['İ']) ∉ (elements mask).zip parts) (before before' : List Char)
    (hforms : sigmaForms before (elements mask) (pieces mask) =
      sigmaForms before' (elements mask) parts) :
    Splits (elements (lowercaseFrom before mask)) (lowercaseFrom before' parts.flatten) := by
  fun_induction elements mask generalizing parts before before' with
  | case1 =>
    cases h
    exact splits_nil_iff.mpr rfl
  | case2 =>
    obtain ⟨part, parts, hpart, hrest, rfl⟩ := List.forall₂_cons_left_iff.mp h
    cases hpart
    cases hrest
    have hback : ∀ first, lowercaseFrom first ['\\'] = ['\\'] := fun first => by
      rw [lowercaseFrom, lowerWithin_mark (Or.inr (Or.inr rfl))]
      rfl
    rw [List.flatten_singleton, hback, hback]
    exact splits_literals ['\\']
  | case3 c rest ih =>
    obtain ⟨part, parts, hpart, hrest, rfl⟩ := List.forall₂_cons_left_iff.mp h
    obtain ⟨hform, hfurther⟩ := forms_of_sigmaForms_eq ['\\'] hforms hpart
      fun d hd => (MaskElement.literal.inj hd).symm
    rw [flatten_pieces] at hform
    have hsplits := ih hrest (List.not_mem_of_not_mem_cons hdotted) _ _ hfurther
    rw [lowercaseFrom, lowercaseFrom, lowerWithin_mark (Or.inr (Or.inr rfl)), List.singleton_append,
      elements_escaped, List.flatten_cons, lowercaseFrom_append]
    exact (splits_lowered_part hpart (List.ne_of_not_mem_cons hdotted).symm hform).append hsplits
  | case4 c rest hend hpair ih =>
    have hback : c ≠ '\\' := ne_backslash hend hpair
    obtain ⟨part, parts, hpart, hrest, rfl⟩ := List.forall₂_cons_left_iff.mp h
    rw [pieces_cons hback] at hforms
    have hliteral : ∀ d, (if c = '*' then MaskElement.anyRun else if c = '?' then .anyOne
        else .literal c) = .literal d → d = c := by
      grind
    obtain ⟨hform, hfurther⟩ := forms_of_sigmaForms_eq [] hforms hpart hliteral
    rw [flatten_pieces] at hform
    have hsplits := ih hrest (List.not_mem_of_not_mem_cons hdotted) _ _ hfurther
    rw [lowercaseFrom, elements_lowered hback, List.flatten_cons, lowercaseFrom_append]
    exact (splits_lowered_part hpart (List.ne_of_not_mem_cons hdotted).symm hform).append hsplits

end Mask

/-! ## 4. Comparisons -/

namespace Operand

/-- The same operand, with letter case disregarded. -/
def ignoringCase (o : Operand) : Operand := { o with isCaseSensitive := false }

/-- A value that is equal to the operand stays so if letter case is disregarded. -/
def Keeps (o : Operand) (v : Value) : Prop :=
  o.test .eq v = true → o.ignoringCase.test .eq v = true

instance (o : Operand) (v : Value) : Decidable (o.Keeps v) :=
  inferInstanceAs (Decidable (_ → _))

variable {term : String} {mode : MatchMode}

/-- For texts alone letter case makes a difference. -/
theorem keeps_iff :
    (∀ v, (⟨.text term, mode, true⟩ : Operand).Keeps v) ↔
      ∀ text : List Char, testText .eq mode text term.toList = true →
        testText .eq mode (lowercase text) (lowercase term.toList) = true := by
  constructor
  · intro h text ht
    have hkept := h (.text (String.ofList text))
    simp only [Keeps, test, ignoringCase, folded, String.toList_ofList] at hkept
    exact hkept ht
  · intro h v
    cases v with
    | text a => exact h a.toList
    | _ => exact id

theorem testText_exact_iff {text part : List Char} :
    testText .eq .exact text part = true ↔ text = part := by
  have hcompare : testText .eq .exact text part =
      (compare (String.ofList text) (String.ofList part) == .eq) := rfl
  rw [hcompare, beq_iff_eq, Std.compare_eq_iff_eq, String.ofList_inj]

/-- Equal texts stay equal, whatever is done to both. -/
theorem keeps_exact (v : Value) : (⟨.text term, .exact, true⟩ : Operand).Keeps v := by
  refine keeps_iff.mpr (fun text h => ?_) v
  rw [testText_exact_iff] at h ⊢
  rw [h]

theorem keeps_contains_iff :
    (∀ v, (⟨.text term, .contains, true⟩ : Operand).Keeps v) ↔ SigmasDecided term.toList := by
  simp only [keeps_iff, testText, containsText_iff]
  exact contained_iff_decided

/-- A text that a mask splits stays split, if the sigmas that the mask names have the same forms in both, and
no `?` stands for a dotted capital I. -/
theorem ignoringCase_test_of_splits {parts : List (List Char)}
    (h : List.Forall₂ MaskElement.Takes (Mask.elements term.toList) parts)
    (hdotted : (.anyOne, ['İ']) ∉ (Mask.elements term.toList).zip parts)
    (hforms : Mask.sigmaForms [] (Mask.elements term.toList) (Mask.pieces term.toList) =
      Mask.sigmaForms [] (Mask.elements term.toList) parts) :
    (⟨.text term, .pattern, true⟩ : Operand).ignoringCase.test .eq
      (.text (String.ofList parts.flatten)) = true := by
  have hsplits := Mask.splits_lowered h hdotted [] [] hforms
  simp only [test, testText, ignoringCase, folded, String.toList_ofList]
  exact elementsMatch_iff.mpr hsplits

/-- Masks that name no sigma and have no `?` lose no text. -/
theorem keeps_pattern (hsigma : .literal 'Σ' ∉ Mask.elements term.toList)
    (hone : .anyOne ∉ Mask.elements term.toList) (v : Value) :
    (⟨.text term, .pattern, true⟩ : Operand).Keeps v := by
  refine keeps_iff.mpr (fun text h => ?_) v
  obtain ⟨parts, hparts, rfl⟩ := elementsMatch_iff.mp h
  have hforms := Mask.sigmaForms_of_not_mem hsigma []
  have hsplits := Mask.splits_lowered hparts (fun hd => hone (List.of_mem_zip hd).1) [] []
    ((hforms _).trans (hforms _).symm)
  exact elementsMatch_iff.mpr hsplits

/-- The two modifiers of letter case make operands that differ in it alone. -/
theorem ofTerm_ignoreCase {settings : Settings} {d : Domain} {symbol : RelationSymbol}
    {modifiers : Modifiers} {o : Operand} (hfree : modifiers.respectCase = false)
    (h : ofTerm settings d symbol (modifiers.insert .respectCase) term = .ok o) :
    ofTerm settings d symbol (modifiers.insert .ignoreCase) term =
      .ok (if d.isText then o.ignoringCase else o) := by
  have hmask : isMask (modifiers.insert .respectCase) term =
      isMask (modifiers.insert .ignoreCase) term := rfl
  have hcase : respectsCase settings (modifiers.insert .ignoreCase) = false := by
    simp [respectsCase, Modifiers.insert, hfree]
  rw [ofTerm] at h ⊢
  split at h
  · rename_i htext
    rw [if_pos htext, if_pos htext]
    rw [ofText, hmask] at h
    rw [ofText, hcase]
    split at h
    · split at h
      · cases h
      · rename_i hpattern hordering
        cases h
        rw [if_pos hpattern, if_neg hordering]
        rfl
    · rename_i hliteral
      cases h
      rw [if_neg hliteral]
      rfl
  · rename_i htext
    rw [if_neg htext, if_neg htext]
    exact h

end Operand

/-- Where the values at the end of a path are kept, so is the record. -/
theorem Store.meets_ignoringCase {s : Store} {r : Record} {path : Path} {o : Operand}
    (hkept : ∀ v ∈ s.values path.steps r, o.Keeps v) (h : s.meets r ⟨path, .eq, o⟩ = true) :
    s.meets r ⟨path, .eq, o.ignoringCase⟩ = true := by
  obtain ⟨v, hv, htest⟩ := List.any_eq_true.mp h
  exact List.any_eq_true.mpr ⟨v, hv, hkept v hv htest⟩

theorem Store.mem_matching_iff {s : Store} {entity : String} {p : Predicate} {keys : List SortKey}
    {r : Record} : r ∈ s.matching entity p keys ↔ r ∈ s.rows entity ∧ s.satisfies r p = true := by
  rw [matching, sorted, List.mem_mergeSort, List.mem_filter]

/-- **What is kept without regard to letter case.** The texts that are equal to the term are kept. All of those
that it stands in are kept exactly if it decides the forms of its sigmas. Those that fit it as a mask are kept
if its sigmas have in it the forms that they have in the text and no `?` stands for a dotted capital I, so all
of them if it names no sigma and has no `?`. A row that a search with `respectCase` selects is selected by the
same search with `ignoreCase` if its values are kept. -/
theorem kept_ignoring_case (s : String) :
    (∀ v, (⟨.text s, .exact, true⟩ : Operand).Keeps v) ∧
    ((∀ v, (⟨.text s, .contains, true⟩ : Operand).Keeps v) ↔ SigmasDecided s.toList) ∧
    (∀ parts : List (List Char),
      List.Forall₂ MaskElement.Takes (Mask.elements s.toList) parts →
      (.anyOne, ['İ']) ∉ (Mask.elements s.toList).zip parts →
      Mask.sigmaForms [] (Mask.elements s.toList) (Mask.pieces s.toList) =
        Mask.sigmaForms [] (Mask.elements s.toList) parts →
      (⟨.text s, .pattern, true⟩ : Operand).ignoringCase.test .eq
        (.text (String.ofList parts.flatten)) = true) ∧
    (.literal 'Σ' ∉ Mask.elements s.toList → .anyOne ∉ Mask.elements s.toList →
      ∀ v, (⟨.text s, .pattern, true⟩ : Operand).Keeps v) ∧
    ∀ (settings : Settings) (d : Domain) (symbol : RelationSymbol) (modifiers : Modifiers)
      (o : Operand), symbol.comparator = .eq → modifiers.respectCase = false →
      Operand.ofTerm settings d symbol (modifiers.insert .respectCase) s = .ok o →
      ∃ o', Operand.ofTerm settings d symbol (modifiers.insert .ignoreCase) s = .ok o' ∧
        ∀ (st : Store) (entity : String) (path : Path) (keys : List SortKey),
          ∀ r ∈ st.matching entity (.compare ⟨path, symbol.comparator, o⟩) keys,
            (∀ v ∈ st.values path.steps r, o.Keeps v) →
            r ∈ st.matching entity (.compare ⟨path, symbol.comparator, o'⟩) keys := by
  refine ⟨Operand.keeps_exact, Operand.keeps_contains_iff,
    fun parts => Operand.ignoringCase_test_of_splits, Operand.keeps_pattern, ?_⟩
  intro settings d symbol modifiers o heq hfree ho
  refine ⟨_, Operand.ofTerm_ignoreCase hfree ho, fun st entity path keys r hr hkept => ?_⟩
  rw [heq, Store.mem_matching_iff] at hr ⊢
  obtain ⟨hrow, hmeets⟩ := hr
  refine ⟨hrow, ?_⟩
  split
  · exact Store.meets_ignoringCase hkept hmeets
  · exact hmeets

/-- A person whose name has a sigma in it and one at its end. -/
def kosmas : Record := [("name", .scalar (.text "ΚΟΣΜΑΣ"))]

/-- He is found by a part of his name, by a mask for its beginning, and by one for its end. -/
theorem kosmas_found :
    SigmasDecided "ΟΣΜ".toList ∧
    (⟨.text "ΟΣΜ", .contains, true⟩ : Operand).Keeps (.text "ΚΟΣΜΑΣ") ∧
    (⟨.text "ΚΟ*", .pattern, true⟩ : Operand).Keeps (.text "ΚΟΣΜΑΣ") ∧
    kosmas ∈ (⟨[("Person", [kosmas])]⟩ : Store).matching "Person"
      (.compare ⟨personName, .eq, ⟨.text "*?ΜΑΣ", .pattern, false⟩⟩) [] := by
  obtain ⟨_, hcontains, _⟩ := kept_ignoring_case "ΟΣΜ"
  obtain ⟨_, _, _, hplain, _⟩ := kept_ignoring_case "ΚΟ*"
  obtain ⟨_, _, hpattern, _, hrows⟩ := kept_ignoring_case "*?ΜΑΣ"
  have hdecided : SigmasDecided "ΟΣΜ".toList := by decide +kernel
  have htakes : List.Forall₂ MaskElement.Takes (Mask.elements "*?ΜΑΣ".toList)
      ["ΚΟ".toList, ['Σ'], ['Μ'], ['Α'], ['Σ']] :=
    .cons (.anyRun _) (.cons (.anyOne _) (.cons (.literal _) (.cons (.literal _)
      (.cons (.literal _) .nil))))
  have hkept := hpattern _ htakes (by decide) (by decide +kernel)
  obtain ⟨o', ho', hsame⟩ :=
    hrows {} .text .word .empty ⟨.text "*?ΜΑΣ", .pattern, true⟩ rfl rfl rfl
  cases ho'
  refine ⟨hdecided, hcontains.mpr hdecided _, hplain (by decide) (by decide) _,
    hsame ⟨[("Person", [kosmas])]⟩ "Person" personName [] kosmas ?_ ?_⟩
  · rw [Store.mem_matching_iff]
    exact ⟨List.mem_singleton_self _, by decide +kernel⟩
  · intro v hv
    obtain rfl : v = .text "ΚΟΣΜΑΣ" := List.mem_singleton.mp hv
    exact fun _ => hkept

/-- **Not all is kept.** The sigma at the end of a part is no last letter in the text; that of a mask is one in
the text alone; and the dotted capital I is lowered to two characters, for one `?`. -/
theorem lost_ignoring_case :
    ¬(⟨.text "ΑΣ", .contains, true⟩ : Operand).Keeps (.text "ΑΣΑ") ∧
    ¬(⟨.text "*Σ", .pattern, true⟩ : Operand).Keeps (.text "ΑΣ") ∧
    ¬(⟨.text "?", .pattern, true⟩ : Operand).Keeps (.text "İ") := by
  decide +kernel

end ContextualQuery
