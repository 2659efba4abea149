import ContextualQuery.Proofs.Masks
import Mathlib.Data.List.Forall2
/-!
# Scans and splits

A text fits a mask if it can be split into parts, one for each element of the mask and in their order, that
the elements take. A scan never tries more than the last run it met, and yet it finds a split if there is
one: what a run before the last gives up, the last can take.

* `Mask.Reads`, `Mask.reads_iff`: how a term is read as elements;
* `Mask.Splits`: the splits of a text by elements, and `splits_run_iff`, `splits_single_iff`,
  `splits_end_iff`, what they are for the first element;
* `Splits.behind`: elements that are no runs take as many characters as they are;
* `Scan.Faithful`: the text can be split exactly if the rest can from where the scan stands, or if the last
  run can take more; `faithful_start`, `Faithful.move`;
* `Scan.Ends`, `Scan.run_ends`: a scan comes to its answer, in so many moves;
* `maskMatches_iff_splits`.
-/

namespace ContextualQuery

/-! ## 1. What a mask asks for -/

/-- The characters that an element may take: any run, any one character, or the one it names. -/
inductive MaskElement.Takes : MaskElement → List Char → Prop
  | anyRun (run : List Char) : Takes .anyRun run
  | anyOne (c : Char) : Takes .anyOne [c]
  | literal (c : Char) : Takes (.literal c) [c]

namespace Mask

/-- How a term is read: `*` and `?` are wild, a backslash makes the next character literal, a backslash at
the end is literal, and so is every other character. -/
inductive Reads : List Char → List MaskElement → Prop
  | nil : Reads [] []
  | anyRun {rest : List Char} {es : List MaskElement} (h : Reads rest es) :
    Reads ('*' :: rest) (.anyRun :: es)
  | anyOne {rest : List Char} {es : List MaskElement} (h : Reads rest es) :
    Reads ('?' :: rest) (.anyOne :: es)
  | escaped (c : Char) {rest : List Char} {es : List MaskElement} (h : Reads rest es) :
    Reads ('\\' :: c :: rest) (.literal c :: es)
  | lastBackslash : Reads ['\\'] [.literal '\\']
  | plain {c : Char} {rest : List Char} {es : List MaskElement} (hrun : c ≠ '*') (hone : c ≠ '?')
      (hback : c ≠ '\\') (h : Reads rest es) :
    Reads (c :: rest) (.literal c :: es)

/-- The text can be split into parts that the elements take, one after the other. -/
def Splits (es : List MaskElement) (text : List Char) : Prop :=
  ∃ parts, List.Forall₂ MaskElement.Takes es parts ∧ parts.flatten = text

theorem reads_elements (mask : List Char) : Reads mask (elements mask) := by
  fun_induction elements mask with
  | case1 => exact .nil
  | case2 => exact .lastBackslash
  | case3 c rest ih => exact .escaped c ih
  | case4 c rest hend hpair ih =>
    by_cases hrun : c = '*'
    · subst hrun
      exact .anyRun ih
    · by_cases hone : c = '?'
      · subst hone
        exact .anyOne ih
      · rw [if_neg hrun, if_neg hone]
        exact .plain hrun hone (ne_backslash hend hpair) ih

/-- **A term is read in one way.** -/
theorem reads_iff {mask : List Char} {es : List MaskElement} :
    Reads mask es ↔ elements mask = es := by
  refine ⟨fun h => ?_, fun h => h ▸ reads_elements mask⟩
  induction h with
  | nil => rfl
  | anyRun _ ih => rw [elements_cons (by decide), ih, if_pos rfl]
  | anyOne _ ih => rw [elements_cons (by decide), ih, if_neg (by decide), if_pos rfl]
  | escaped c _ ih => rw [elements, ih]
  | lastBackslash => rfl
  | plain hrun hone hback _ ih => rw [elements_cons hback, ih, if_neg hrun, if_neg hone]

/-! ## 2. Splits by the first element -/

variable {es : List MaskElement} {text : List Char}

theorem splits_nil_iff : Splits [] text ↔ text = [] := by
  constructor
  · rintro ⟨parts, hparts, rfl⟩
    cases hparts
    rfl
  · rintro rfl
    exact ⟨[], .nil, rfl⟩

theorem splits_cons_iff {e : MaskElement} :
    Splits (e :: es) text ↔ ∃ part rest, e.Takes part ∧ Splits es rest ∧ part ++ rest = text := by
  constructor
  · rintro ⟨parts, hparts, rfl⟩
    obtain ⟨part, parts, hpart, hrest, rfl⟩ := List.forall₂_cons_left_iff.mp hparts
    exact ⟨part, parts.flatten, hpart, ⟨parts, hrest, rfl⟩, rfl⟩
  · rintro ⟨part, rest, hpart, ⟨parts, hparts, rfl⟩, rfl⟩
    exact ⟨part :: parts, .cons hpart hparts, rfl⟩

theorem splits_run_iff :
    Splits (.anyRun :: es) text ↔ ∃ k ≤ text.length, Splits es (text.drop k) := by
  rw [splits_cons_iff]
  constructor
  · rintro ⟨part, rest, _, hrest, rfl⟩
    refine ⟨part.length, ?_, ?_⟩
    · rw [List.length_append]
      exact Nat.le_add_right _ _
    · rw [List.drop_left]
      exact hrest
  · rintro ⟨k, _, hrest⟩
    exact ⟨text.take k, text.drop k, .anyRun _, hrest, List.take_append_drop k text⟩

/-- An element that is no run takes one character. -/
theorem takes_iff_of_single {e : MaskElement} (h : e ≠ .anyRun) {part : List Char} :
    e.Takes part ↔ ∃ c, part = [c] ∧ e.takes c = true := by
  constructor
  · intro ht
    cases ht with
    | anyRun _ => exact absurd rfl h
    | anyOne c => exact ⟨c, rfl, rfl⟩
    | literal c => exact ⟨c, rfl, beq_self_eq_true c⟩
  · rintro ⟨c, rfl, hc⟩
    cases e with
    | anyRun => exact absurd rfl h
    | anyOne => exact .anyOne c
    | literal d =>
      have hd : d = c := beq_iff_eq.mp hc
      exact hd ▸ .literal d

theorem splits_single_iff {e : MaskElement} (h : e ≠ .anyRun) {c : Char} :
    Splits (e :: es) (c :: text) ↔ e.takes c = true ∧ Splits es text := by
  rw [splits_cons_iff]
  constructor
  · rintro ⟨part, rest, hpart, hrest, heq⟩
    obtain ⟨d, rfl, hd⟩ := (takes_iff_of_single h).mp hpart
    obtain ⟨rfl, rfl⟩ := List.cons.inj heq
    exact ⟨hd, hrest⟩
  · rintro ⟨hc, hrest⟩
    exact ⟨[c], text, (takes_iff_of_single h).mpr ⟨c, rfl, hc⟩, hrest, rfl⟩

/-- At the end of the text only runs may be left. -/
theorem splits_end_iff : Splits es [] ↔ es.all (· == .anyRun) = true := by
  induction es with
  | nil => exact iff_of_true (splits_nil_iff.mpr rfl) rfl
  | cons e es ih =>
    by_cases h : e = .anyRun
    · subst h
      simp [splits_run_iff, ih]
    · have hnot : ¬Splits (e :: es) [] := by
        rw [splits_cons_iff]
        rintro ⟨part, rest, hpart, _, heq⟩
        obtain ⟨c, rfl, _⟩ := (takes_iff_of_single h).mp hpart
        cases heq
      simp [hnot, h]

/-- Elements that are no runs take as many characters as they are. -/
theorem Splits.behind {passed : List MaskElement} (hsingle : ∀ e ∈ passed, e ≠ .anyRun)
    (h : Splits (passed ++ es) text) :
    passed.length ≤ text.length ∧ Splits es (text.drop passed.length) := by
  induction passed generalizing text with
  | nil => exact ⟨Nat.zero_le _, h⟩
  | cons e passed ih =>
    have he : e ≠ .anyRun := hsingle e List.mem_cons_self
    cases text with
    | nil =>
      have hall := splits_end_iff.mp h
      exact absurd (by simpa using hall) (fun hrun : e = .anyRun ∧ _ => he hrun.1)
    | cons c text =>
      obtain ⟨_, hrest⟩ := (splits_single_iff he).mp h
      obtain ⟨hlength, hsplits⟩ := ih (fun d hd => hsingle d (List.mem_cons_of_mem _ hd)) hrest
      exact ⟨Nat.succ_le_succ hlength, hsplits⟩

end Mask

/-! ## 3. What a scan knows -/

namespace Scan

open Mask

/-- The scans that moves lead to from the beginning. -/
inductive Reached (es : Array MaskElement) (text : Array Char) : Scan → Prop
  | start : Reached es text .start
  | move {s t : Scan} (h : Reached es text s) (hm : Moves es text s t) : Reached es text t

variable {es : Array MaskElement} {text : Array Char} {s t : Scan}

theorem Reached.within (h : Reached es text s) : s.Within es text := by
  induction h with
  | start => exact within_start
  | move _ hm ih => exact ih.move hm

/-- From where the scan stands the rest of the text can be split. -/
def Here (es : Array MaskElement) (text : Array Char) (s : Scan) : Prop :=
  Splits (es.toList.drop s.element) (text.toList.drop s.place)

/-- If the last run takes more than it has, what is left behind it can be split. -/
def Later (es : Array MaskElement) (text : Array Char) (s : Scan) : Prop :=
  ∃ r, s.resume? = some r ∧ ∃ k, r.2 < k ∧ k ≤ text.size ∧
    Splits (es.toList.drop r.1) (text.toList.drop k)

/-- The scan has lost no split: behind the place where it resumes it has passed no run, and the whole text
can be split exactly if the rest can, as it stands or with more for the last run. -/
structure Faithful (es : Array MaskElement) (text : Array Char) (s : Scan) : Prop where
  within : s.Within es text
  single : ∀ i, s.resume.1 ≤ i → i < s.element → es[i]? ≠ some .anyRun
  splits_iff : Splits es.toList text.toList ↔ s.Here es text ∨ s.Later es text

theorem drop_eq_cons {α : Type} {xs : Array α} {i : Nat} {x : α} (h : xs[i]? = some x) :
    xs.toList.drop i = x :: xs.toList.drop (i + 1) := by
  obtain ⟨hi, rfl⟩ := Array.getElem?_eq_some_iff.mp h
  exact List.drop_eq_getElem_cons hi

/-- What more for the last run makes possible, the elements passed since then leave possible further on:
the runs before the last need not be tried again. -/
theorem Faithful.further (h : s.Faithful es text) (hl : s.Later es text) :
    ∃ k, s.place < k ∧ k ≤ text.size ∧
      Splits (es.toList.drop s.element) (text.toList.drop k) := by
  obtain ⟨⟨helement, _, hresume, heven⟩, hsingle, _⟩ := h
  obtain ⟨r, hr, k, hlt, hle, hsplits⟩ := hl
  have hr' : s.resume = r := by rw [resume, hr, Option.getD_some]
  rw [hr'] at hsingle hresume heven
  obtain ⟨n, hn⟩ := Nat.exists_eq_add_of_le hresume
  have hpassed : ∀ e ∈ (es.toList.drop r.1).take n, e ≠ .anyRun := by
    rintro e he rfl
    obtain ⟨i, hi, hget⟩ := List.mem_take_iff_getElem.mp he
    rw [List.getElem_drop] at hget
    exact hsingle (r.1 + i) (by omega) (by omega) (by simp [← hget])
  have hlength : ((es.toList.drop r.1).take n).length = n := by
    rw [List.length_take, List.length_drop, Array.length_toList]
    omega
  have hcut : es.toList.drop r.1 = (es.toList.drop r.1).take n ++ es.toList.drop s.element := by
    rw [hn, ← List.drop_drop, List.take_append_drop]
  rw [hcut] at hsplits
  obtain ⟨hroom, hrest⟩ := hsplits.behind hpassed
  rw [hlength, List.length_drop, Array.length_toList] at hroom
  rw [hlength, List.drop_drop] at hrest
  exact ⟨k + n, by omega, by omega, hrest⟩

theorem faithful_start : start.Faithful es text := by
  refine ⟨within_start, fun i _ hi => absurd hi (Nat.not_lt_zero i), Or.inl, fun h => ?_⟩
  rcases h with h | ⟨r, hr, _⟩
  · exact h
  · cases hr

/-- A run may take from nothing up to all that is left. -/
theorem splits_at_run {i k : Nat} (hrun : es[i]? = some .anyRun) (hk : k ≤ text.size) :
    Splits (es.toList.drop i) (text.toList.drop k) ↔
      ∃ l, k ≤ l ∧ l ≤ text.size ∧ Splits (es.toList.drop (i + 1)) (text.toList.drop l) := by
  rw [drop_eq_cons hrun, splits_run_iff]
  have hlength : (text.toList.drop k).length = text.size - k := by
    rw [List.length_drop, Array.length_toList]
  constructor
  · rintro ⟨n, hn, hsplits⟩
    rw [List.drop_drop] at hsplits
    exact ⟨k + n, Nat.le_add_right _ _, by omega, hsplits⟩
  · rintro ⟨l, hkl, hl, hsplits⟩
    refine ⟨l - k, by omega, ?_⟩
    rw [List.drop_drop, Nat.add_sub_cancel' hkl]
    exact hsplits

theorem ne_anyRun_of_takes {e : MaskElement} {c : Char} (h : e.takes c = true) : e ≠ .anyRun := by
  rintro rfl
  cases h

/-- At a mismatch the rest cannot be split as it stands. -/
theorem not_here {c : Char} (hc : text[s.place]? = some c)
    (he : ∀ e, es[s.element]? = some e → e ≠ .anyRun ∧ e.takes c = false) : ¬s.Here es text := by
  unfold Here
  rw [drop_eq_cons hc]
  intro h
  cases hget : es[s.element]? with
  | none =>
    have hend : es.toList.drop s.element = [] := by
      rw [List.drop_eq_nil_iff, Array.length_toList]
      exact Array.getElem?_eq_none_iff.mp hget
    rw [hend, splits_nil_iff] at h
    cases h
  | some e =>
    obtain ⟨hsingle, htakes⟩ := he e hget
    rw [drop_eq_cons hget, splits_single_iff hsingle, htakes] at h
    cases h.1

theorem Faithful.move (h : s.Faithful es text) (hm : Moves es text s t) : t.Faithful es text := by
  have hwithin : t.Within es text := h.within.move hm
  have hfurther := h.further
  obtain ⟨⟨_, hplace, _, _⟩, hsingle, hiff⟩ := h
  cases hm with
  | run hp he =>
    refine ⟨hwithin, fun i hi hi' => absurd hi' (Nat.not_lt.mpr hi), hiff.trans ?_⟩
    have hhere := splits_at_run he hplace
    constructor
    · intro hs
      obtain ⟨k, hk, hk', hsplits⟩ : ∃ k, s.place ≤ k ∧ k ≤ text.size ∧
          Splits (es.toList.drop (s.element + 1)) (text.toList.drop k) := by
        rcases hs with hs | hs
        · exact hhere.mp hs
        · obtain ⟨k, hk, hk', hsplits⟩ := hfurther hs
          obtain ⟨l, hl, hl', hsplits⟩ := (splits_at_run he hk').mp hsplits
          exact ⟨l, by omega, hl', hsplits⟩
      rcases Nat.eq_or_lt_of_le hk with rfl | hlt
      · exact Or.inl hsplits
      · exact Or.inr ⟨_, rfl, k, hlt, hk', hsplits⟩
    · rintro (ht | ⟨r, hr, k, hk, hk', hsplits⟩)
      · exact Or.inl (hhere.mpr ⟨s.place, Nat.le_refl _, hplace, ht⟩)
      · cases hr
        exact Or.inl (hhere.mpr ⟨k, Nat.le_of_lt hk, hk', hsplits⟩)
  | @take c e hc he htakes =>
    have hne : e ≠ .anyRun := ne_anyRun_of_takes htakes
    refine ⟨hwithin, fun i hi hi' => ?_, hiff.trans (or_congr_left ?_)⟩
    · rcases Nat.eq_or_lt_of_le (Nat.le_of_lt_succ hi') with rfl | hlt
      · rw [he]
        exact fun hrun => hne (Option.some.inj hrun)
      · exact hsingle i hi hlt
    · unfold Here
      rw [drop_eq_cons he, drop_eq_cons hc, splits_single_iff hne, htakes]
      exact and_iff_right rfl
  | @retry c element place hc he hr =>
    refine ⟨hwithin, fun i hi hi' => absurd hi' (Nat.not_lt.mpr hi), hiff.trans ?_⟩
    constructor
    · rintro (hs | ⟨r, hr', k, hk, hk', hsplits⟩)
      · exact absurd hs (not_here hc he)
      · cases hr.symm.trans hr'
        rcases Nat.eq_or_lt_of_le (Nat.succ_le_of_lt hk) with rfl | hlt
        · exact Or.inl hsplits
        · exact Or.inr ⟨_, rfl, k, hlt, hk', hsplits⟩
    · rintro (ht | ⟨r, hr', k, hk, hk', hsplits⟩)
      · exact Or.inr ⟨_, hr, place + 1, Nat.lt_succ_self _, hwithin.place_le, ht⟩
      · cases hr'
        exact Or.inr ⟨_, hr, k, Nat.lt_of_succ_lt hk, hk', hsplits⟩

theorem Reached.faithful (h : Reached es text s) : s.Faithful es text := by
  induction h with
  | start => exact faithful_start
  | move _ hm ih => exact ih.move hm

/-! ## 4. How a scan ends -/

/-- From where the scan stands the answer comes after so many moves. -/
inductive Ends (es : Array MaskElement) (text : Array Char) : Scan → Nat → Bool → Prop
  | answer {s : Scan} {fits : Bool} (h : s.turn es text = .answer fits) : Ends es text s 0 fits
  | goOn {s t : Scan} {n : Nat} {fits : Bool} (h : s.turn es text = .goOn t)
      (ht : Ends es text t n fits) : Ends es text s (n + 1) fits

/-- A scan ends after no more moves than are left. -/
theorem run_ends (hs : s.Within es text) :
    ∃ n ≤ s.left es text, Ends es text s n (s.run es text hs) := by
  fun_induction run es text s hs with
  | case1 s hs fits ht => exact ⟨0, Nat.zero_le _, .answer ht⟩
  | case2 s hs t ht ih =>
    obtain ⟨n, hn, hends⟩ := ih
    have hless : t.left es text < s.left es text := hs.left_lt (moves_of_turn ht)
    exact ⟨n + 1, Nat.lt_of_le_of_lt hn hless, .goOn ht hends⟩

theorem retry_eq_answer_iff {fits : Bool} :
    s.retry = .answer fits ↔ s.resume? = none ∧ fits = false := by
  unfold retry
  cases s.resume? with
  | none => simp [eq_comm]
  | some r => simp

/-- The answer of a scan that has lost no split is right. -/
theorem Faithful.answer {fits : Bool} (h : s.Faithful es text)
    (ha : s.turn es text = .answer fits) :
    fits = true ↔ Splits es.toList text.toList := by
  have hfurther := h.further
  obtain ⟨⟨_, hplace, _, _⟩, _, hiff⟩ := h
  rw [hiff]
  unfold turn at ha
  split at ha
  · rename_i hp
    have hc : text[s.place]? = some text[s.place] := Array.getElem?_eq_getElem hp
    split at ha
    · cases ha
    · rename_i hrun
      split at ha
      · cases ha
      · rename_i htakes
        rw [Bool.not_eq_true, Option.any_eq_false] at htakes
        obtain ⟨hresume, rfl⟩ := retry_eq_answer_iff.mp ha
        have hhere : ¬s.Here es text :=
          not_here hc fun e he => ⟨fun hr => hrun (hr ▸ he), htakes e he⟩
        have hlater : ¬s.Later es text := by
          rintro ⟨r, hr, _⟩
          cases hresume.symm.trans hr
        exact iff_of_false Bool.false_ne_true (not_or.mpr ⟨hhere, hlater⟩)
  · rename_i hp
    have hend : text.toList.drop s.place = [] := by
      rw [List.drop_eq_nil_iff, Array.length_toList]
      exact Nat.not_lt.mp hp
    have hlater : ¬s.Later es text := by
      intro hl
      obtain ⟨k, hk, hk', _⟩ := hfurther hl
      omega
    cases ha
    rw [or_iff_left hlater, Here, hend, splits_end_iff]

theorem run_eq_true_iff (hs : s.Within es text) (h : Reached es text s) :
    s.run es text hs = true ↔ Splits es.toList text.toList := by
  fun_induction run es text s hs with
  | case1 s hs fits ht => exact h.faithful.answer ht
  | case2 s hs t ht ih => exact ih (h.move (moves_of_turn ht))

end Scan

/-- A list of elements takes a text exactly if the text can be split. -/
theorem elementsMatch_iff {es : List MaskElement} {text : List Char} :
    elementsMatch es text = true ↔ Mask.Splits es text :=
  Scan.run_eq_true_iff Scan.within_start .start

/-- **A text fits a mask exactly if it can be split by what the mask is read as.** The scan that decides
this ends after at most as many moves as the text has characters, for every element and one time more, and
it never leaves the elements or the text. -/
theorem maskMatches_iff_splits (text mask : List Char) :
    let es := (Mask.elements mask).toArray
    (maskMatches text mask = true ↔ ∃ read, Mask.Reads mask read ∧ Mask.Splits read text) ∧
    (∃ n ≤ text.length * (es.size + 1),
      Scan.Ends es text.toArray .start n (maskMatches text mask)) ∧
    ∀ s, Scan.Reached es text.toArray s → s.element ≤ es.size ∧ s.place ≤ text.length := by
  intro es
  refine ⟨?_, Scan.run_ends Scan.within_start, fun s hs => ?_⟩
  · unfold maskMatches
    rw [elementsMatch_iff]
    simp only [Mask.reads_iff, exists_eq_left']
  · exact ⟨hs.within.element_le, hs.within.place_le⟩

/-- The run takes nothing at first; after the mismatch at the second `b` it takes the first. -/
theorem run_takes_more :
    let text := "abcbcd".toList
    let mask := "a*bcd".toList
    let es := (Mask.elements mask).toArray
    maskMatches text mask = true ∧
    Scan.Reached es text.toArray ⟨2, 2, some (2, 2)⟩ ∧ 2 ≤ es.size ∧ 2 ≤ text.length := by
  intro text mask es
  obtain ⟨hfits, _, hwithin⟩ := maskMatches_iff_splits text mask
  have hreads : Mask.Reads mask (Mask.elements mask) := Mask.reads_elements mask
  have hsplits : Mask.Splits (Mask.elements mask) text :=
    ⟨[['a'], ['b', 'c'], ['b'], ['c'], ['d']],
      .cons (.literal _) (.cons (.anyRun _) (.cons (.literal _) (.cons (.literal _)
        (.cons (.literal _) .nil)))), rfl⟩
  have hrun : Scan.Reached es text.toArray ⟨2, 1, some (2, 1)⟩ :=
    .move (.move .start (.take rfl rfl rfl)) (.run (by decide) rfl)
  have hmismatch : Scan.Reached es text.toArray ⟨4, 3, some (2, 1)⟩ :=
    .move (.move hrun (.take rfl rfl rfl)) (.take rfl rfl rfl)
  have hretry : Scan.Reached es text.toArray ⟨2, 2, some (2, 2)⟩ :=
    .move hmismatch (.retry rfl (fun e he => by cases he; decide) rfl)
  exact ⟨hfits.mpr ⟨_, hreads, hsplits⟩, hretry, hwithin _ hretry⟩

end ContextualQuery
