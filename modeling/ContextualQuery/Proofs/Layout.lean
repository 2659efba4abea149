import ContextualQuery.Proofs.Lexemes
import ContextualQuery.Proofs.Places
/-!
# How the tokens of a text lie in it

Reading a text to tokens loses nothing of it: between the tokens there are blanks only, and each token is what is
written at its span.

* `Laid`: a text consists of tokens with blanks before them, each the longest where it stands, and `NothingLeft`:
  the blanks behind them and what follows, where no token starts;
* `Lexer.exists_laid`, `Laid.items`: by one step of the lexer after the other, every text is laid out so, and the
  items that are taken are these tokens;
* `tokenize_eq_ok_iff_laid`, `tokenize_eq_error_iff`: so a text is read exactly if it ends behind the tokens, and
  the fault is at the first character that belongs to no token;
* `Laid.shows`, `Laid.inOrder`, `Laid.covers`: what the spans of the tokens mark, how they follow each other, and
  what they leave out;
* `spells_spaced`: tokens written one behind the other with a space between them;
* `KeptBy`, `tokenize_loses_nothing`: all that tokens keep of the text that they are read from.
-/

namespace ContextualQuery

/-! ## 1. Blanks -/

/-- Characters between tokens. -/
def AreSeparators (cs : List Char) : Prop := ∀ c ∈ cs, isSeparator c = true

/-- Blanks, and what follows them to the end of the text: no token starts there. -/
structure NothingLeft (gap rest : List Char) : Prop where
  blank : AreSeparators gap
  start : ∀ c more, rest = c :: more → isSeparator c = false
  nothing : scan rest = none

theorem skip_separators {gap cs : List Char} (h : AreSeparators gap)
    (hstart : ∀ c more, cs = c :: more → isSeparator c = false) :
    (gap ++ cs).takeWhile isSeparator = gap ∧ (gap ++ cs).dropWhile isSeparator = cs := by
  rw [List.takeWhile_append_of_pos h, List.dropWhile_append_of_pos h]
  cases cs with
  | nil => exact ⟨List.append_nil gap, rfl⟩
  | cons c more =>
    have hc : ¬ isSeparator c = true := by rw [hstart c more rfl]; decide
    rw [List.takeWhile_cons_of_neg hc, List.dropWhile_cons_of_neg hc, List.append_nil]
    exact ⟨rfl, rfl⟩

theorem areSeparators_takeWhile (cs : List Char) : AreSeparators (cs.takeWhile isSeparator) :=
  fun _ hc => List.mem_takeWhile_imp hc

/-- What begins with a token does not begin with a blank. -/
theorem Lexeme.start_append {t : Token} {x : List Char} (h : Lexeme t x) (rest : List Char) :
    ∀ c more, x ++ rest = c :: more → isSeparator c = false := by
  obtain ⟨c, cs, rfl, hc⟩ := h.start
  intro d more he
  cases he
  exact hc

namespace Lexer

theorem skipSeparators_gap {gap cs : List Char} (h : AreSeparators gap)
    (hstart : ∀ c more, cs = c :: more → isSeparator c = false) (offset : Nat) :
    (Lexer.mk (gap ++ cs) offset).skipSeparators = ⟨cs, offset + byteLength gap⟩ := by
  obtain ⟨htake, hdrop⟩ := skip_separators h hstart
  rw [skipSeparators, htake, hdrop]

/-- The token behind blanks is taken, and then what follows it. -/
theorem items_of_taken {gap x rest : List Char} {t : Token} (hblank : AreSeparators gap)
    (h : t.Taken x rest) (offset : Nat) : (Lexer.mk (gap ++ (x ++ rest)) offset).items =
      .ok ⟨t, ⟨offset + byteLength gap, offset + byteLength gap + byteLength x⟩⟩ ::
        (Lexer.mk rest (offset + byteLength gap + byteLength x)).items := by
  have hstart := h.lexeme.start_append rest
  have hscan : scan (x ++ rest) = some (t, x, rest) := scan_eq_some_iff.mpr ⟨rfl, h⟩
  rw [← (skip_separators hblank hstart).2] at hscan
  have hnext := (Lexer.mk (gap ++ (x ++ rest)) offset).next_of_scan hscan
  rw [skipSeparators_gap hblank hstart offset] at hnext
  exact items_of_next_some hnext

/-- Behind the last token there is nothing to be taken but a fault. -/
theorem items_of_nothingLeft {gap rest : List Char} (h : NothingLeft gap rest) (offset : Nat) :
    (Lexer.mk (gap ++ rest) offset).items =
      match rest with
      | [] => []
      | c :: _ => [.error ((Lexer.mk rest (offset + byteLength gap)).faultAt c)] := by
  have hskip := skipSeparators_gap h.blank h.start offset
  have hnothing := h.nothing
  cases rest with
  | nil => exact items_of_next_none (next_of_blank (congrArg Lexer.rest hskip))
  | cons c more =>
    have hnext : (Lexer.mk (gap ++ c :: more) offset).next =
        some (.error ((Lexer.mk (c :: more) (offset + byteLength gap)).faultAt c),
          (Lexer.mk (c :: more) (offset + byteLength gap)).atEnd) := by
      simp only [next, hskip, hnothing]
    have hend : ((Lexer.mk (c :: more) (offset + byteLength gap)).atEnd).items = [] :=
      items_of_next_none (next_of_blank rfl)
    rw [items_of_next_some hnext, hend]

end Lexer

/-! ## 2. Tokens and blanks -/

/-- From an offset on, a text consists of tokens with blanks before each of them; each is the longest where it
stands, if this is what follows the last. -/
inductive Laid : Nat → List Char → List (Located Token) → List Char → Prop
  | nil (offset : Nat) (rest : List Char) : Laid offset [] [] rest
  | cons {offset : Nat} {gap x more rest : List Char} {t : Token} {ts : List (Located Token)}
      (blank : AreSeparators gap) (taken : t.Taken x (more ++ rest))
      (behind : Laid (offset + byteLength gap + byteLength x) more ts rest) :
      Laid offset (gap ++ (x ++ more))
        (⟨t, ⟨offset + byteLength gap, offset + byteLength gap + byteLength x⟩⟩ :: ts) rest

theorem offset_behind (offset : Nat) (gap x more : List Char) :
    offset + byteLength (gap ++ (x ++ more)) =
      offset + byteLength gap + byteLength x + byteLength more := by
  rw [byteLength_append, byteLength_append]
  omega

/-- Where no token starts behind the blanks, nothing is taken. -/
theorem Lexer.nothingLeft_of_scan_none {cs : List Char} (h : scan (cs.dropWhile isSeparator) = none) :
    NothingLeft (cs.takeWhile isSeparator) (cs.dropWhile isSeparator) :=
  ⟨areSeparators_takeWhile cs, fun _ _ => start_dropWhile, h⟩

/-- A lexer takes a text apart into tokens with blanks before them, and what follows the last. -/
theorem Lexer.exists_laid (l : Lexer) : ∃ text ts gap rest,
    l.rest = text ++ (gap ++ rest) ∧ Laid l.offset text ts (gap ++ rest) ∧ NothingLeft gap rest := by
  -- by the steps of the lexer; a step that gives a fault is the last, and leaves all that is there
  induction l using Lexer.items.induct with
  | case1 l hnext =>
    cases hscan : scan (l.rest.dropWhile isSeparator) with
    | none =>
      exact ⟨[], [], _, _, List.takeWhile_append_dropWhile.symm, .nil _ _, nothingLeft_of_scan_none hscan⟩
    | some r =>
      rw [l.next_of_scan hscan] at hnext
      cases hnext
  | case2 l i l' hnext ih =>
    cases hscan : scan (l.rest.dropWhile isSeparator) with
    | none =>
      exact ⟨[], [], _, _, List.takeWhile_append_dropWhile.symm, .nil _ _, nothingLeft_of_scan_none hscan⟩
    | some r =>
      obtain ⟨t, x, rest⟩ := r
      obtain ⟨hcat, htaken⟩ := scan_eq_some_iff.mp hscan
      have hnext' := l.next_of_scan hscan
      rw [hnext] at hnext'
      cases hnext'
      obtain ⟨text, ts, gap, stop, hrest, hlaid, hleft⟩ := ih
      simp only at hrest
      subst hrest
      refine ⟨l.rest.takeWhile isSeparator ++ (x ++ text), _, gap, stop, ?_,
        .cons (areSeparators_takeWhile _) htaken hlaid, hleft⟩
      rw [List.append_assoc, List.append_assoc, ← hcat, List.takeWhile_append_dropWhile]

namespace Laid

variable {offset : Nat} {text rest bs : List Char} {ts : List (Located Token)}

/-- **The tokens that a text is laid out in are taken off it**, and then what follows. -/
theorem items (h : Laid offset text ts rest) : (Lexer.mk (text ++ rest) offset).items =
    ts.map .ok ++ (Lexer.mk rest (offset + byteLength text)).items := by
  induction h with
  | nil => rfl
  | @cons offset gap x more rest t ts blank taken _ ih =>
    have htext : gap ++ (x ++ more) ++ rest = gap ++ (x ++ (more ++ rest)) := by
      rw [List.append_assoc, List.append_assoc]
    rw [htext, offset_behind, Lexer.items_of_taken blank taken, ih]
    rfl

/-- Less may follow. -/
theorem shorten (h : Laid offset text ts (rest ++ bs)) : Laid offset text ts rest := by
  generalize hall : rest ++ bs = all at h
  induction h with
  | nil => exact .nil _ _
  | cons blank taken _ ih =>
    subst hall
    refine .cons blank ⟨taken.lexeme, fun u y hlonger hy => ?_⟩ (ih rfl)
    refine taken.longest u y hlonger ?_
    rw [← List.append_assoc]
    exact hy.trans (List.prefix_append _ _)

/-- More may follow, if it breaks tokens. -/
theorem extend (h : Laid offset text ts rest) (hbs : Breaks bs) : Laid offset text ts (rest ++ bs) := by
  induction h with
  | nil => exact .nil _ _
  | cons blank taken _ ih =>
    have hscan := scan_append_right hbs (scan_eq_some_iff.mpr ⟨rfl, taken⟩)
    rw [List.append_assoc, List.append_assoc] at hscan
    exact .cons blank (scan_eq_some_iff.mp hscan).2 ih

end Laid

/-! ## 3. Texts that are read, and texts that are not -/

theorem mapM_id_map_ok_append {ε α : Type} (as : List α) (xs : List (Except ε α)) :
    (as.map Except.ok ++ xs).mapM id = (xs.mapM id).map (as ++ ·) := by
  induction as with
  | nil =>
    cases h : xs.mapM id with
    | error e => exact h
    | ok bs => exact h
  | cons a as ih =>
    rw [List.map_cons, List.cons_append, List.mapM_cons, ih]
    cases xs.mapM id with
    | error e => rfl
    | ok bs => rfl

/-- What is read of a text that is laid out. -/
theorem tokenize_of_laid {text : String} {taken gap rest : List Char} {ts : List (Located Token)}
    (htext : text.toList = taken ++ (gap ++ rest)) (h : Laid 0 taken ts (gap ++ rest))
    (hleft : NothingLeft gap rest) : tokenize text =
      match rest with
      | [] => .ok ts
      | c :: _ => .error ((Lexer.mk rest (byteLength (taken ++ gap))).faultAt c) := by
  have hitems := h.items
  rw [← htext, Lexer.items_of_nothingLeft hleft, Nat.zero_add, ← byteLength_append] at hitems
  have hread : tokenize text = (Lexer.mk text.toList 0).items.mapM id := rfl
  rw [hread, hitems, mapM_id_map_ok_append]
  cases rest with
  | nil =>
    have hnil : ([] : List Item).mapM id = .ok [] := rfl
    rw [hnil]
    exact congrArg Except.ok (List.append_nil ts)
  | cons c more => rfl

theorem nothingLeft_nil {gap : List Char} (h : AreSeparators gap) : NothingLeft gap [] := ⟨h, nofun, rfl⟩

/-- **A text is read exactly if it is laid out in tokens, with blanks behind the last.** -/
theorem tokenize_eq_ok_iff_laid {text : String} {ts : List (Located Token)} :
    tokenize text = .ok ts ↔
      ∃ taken gap, text.toList = taken ++ gap ∧ AreSeparators gap ∧ Laid 0 taken ts gap := by
  constructor
  · intro h
    obtain ⟨taken, ts', gap, rest, htext, hlaid, hleft⟩ := (Lexer.ofText text).exists_laid
    have hread := tokenize_of_laid htext hlaid hleft
    rw [h] at hread
    cases rest with
    | nil =>
      cases hread
      rw [List.append_nil] at hlaid
      refine ⟨taken, gap, ?_, hleft.blank, hlaid⟩
      rw [← List.append_nil gap]
      exact htext
    | cons c more => cases hread
  · intro h
    obtain ⟨taken, gap, htext, hblank, hlaid⟩ := h
    rw [← List.append_nil gap] at htext hlaid
    exact tokenize_of_laid htext hlaid (nothingLeft_nil hblank)

/-- Where no token starts, the tokens before are not made longer. -/
theorem breaks_of_scan_none {cs : List Char} (h : scan cs = none) : Breaks cs := by
  have hnone := scan_eq_none_iff.mp h
  -- each character that could go on a token is a token of its own
  rintro c rest rfl
  refine ⟨?_, ?_, ?_⟩
  · refine eq_false_of_ne_true fun hc => ?_
    have hword : Lexeme (.word (String.ofList [c])) (String.ofList [c]).toList := by
      refine .word _ (by simp) ?_
      rw [String.toList_ofList]
      exact List.forall_mem_singleton.mpr hc
    rw [String.toList_ofList] at hword
    exact hnone _ _ hword ⟨rest, rfl⟩
  · rintro rfl
    exact hnone _ _ (.relation .word) ⟨rest, rfl⟩
  · rintro rfl
    exact hnone _ _ (.relation .greater) ⟨rest, rfl⟩

/-- **A text is not read exactly if at some character behind tokens and blanks no token starts**; the fault is
there. -/
theorem tokenize_eq_error_iff {text : String} {f : LexicalFault} :
    tokenize text = .error f ↔ ∃ before c rest ts,
      text.toList = before ++ c :: rest ∧ tokenize (String.ofList before) = .ok ts ∧
      isSeparator c = false ∧ (∀ t x, Lexeme t x → ¬ x <+: c :: rest) ∧
      f = (Lexer.mk (c :: rest) (byteLength before)).faultAt c := by
  constructor
  · intro h
    obtain ⟨taken, ts, gap, rest, htext, hlaid, hleft⟩ := (Lexer.ofText text).exists_laid
    have hread := tokenize_of_laid htext hlaid hleft
    rw [h] at hread
    cases rest with
    | nil => cases hread
    | cons c more =>
      cases hread
      refine ⟨taken ++ gap, c, more, ts, ?_, ?_, hleft.start c more rfl,
        scan_eq_none_iff.mp hleft.nothing, rfl⟩
      · rw [List.append_assoc]
        exact htext
      · exact tokenize_eq_ok_iff_laid.mpr
          ⟨taken, gap, String.toList_ofList, hleft.blank, hlaid.shorten⟩
  · rintro ⟨before, c, more, ts, htext, hbefore, hc, hnone, rfl⟩
    obtain ⟨taken, gap, hsplit, hblank, hlaid⟩ := tokenize_eq_ok_iff_laid.mp hbefore
    rw [String.toList_ofList] at hsplit
    subst hsplit
    have hnothing := scan_eq_none_iff.mpr hnone
    have hleft : NothingLeft gap (c :: more) := by
      refine ⟨hblank, ?_, hnothing⟩
      intro d rest he
      cases he
      exact hc
    rw [List.append_assoc] at htext
    exact tokenize_of_laid htext (hlaid.extend (breaks_of_scan_none hnothing)) hleft

/-! ## 4. What the spans mark -/

/-- A token shows the characters that it is written as: its span marks them in the text, and it is the longest
token that starts there. -/
def Located.Shows (text : List Char) (t : Located Token) (x : List Char) : Prop :=
  ∃ before after, text = before ++ (x ++ after) ∧
    t.span = ⟨byteLength before, byteLength before + byteLength x⟩ ∧ t.value.Taken x after

namespace Laid

variable {offset : Nat} {text rest : List Char} {ts : List (Located Token)}

/-- Each token of a text that is laid out shows some characters of it. -/
theorem shows (h : Laid offset text ts rest) {before : List Char} (hbefore : byteLength before = offset) :
    ∃ xs : List String,
      List.Forall₂ (fun t x => t.Shows (before ++ (text ++ rest)) x.toList) ts xs := by
  induction h generalizing before with
  | nil => exact ⟨[], .nil⟩
  | @cons offset gap x more rest t ts blank taken _ ih =>
    have hbehind : byteLength (before ++ (gap ++ x)) = offset + byteLength gap + byteLength x := by
      rw [byteLength_append, byteLength_append, hbefore]
      omega
    obtain ⟨xs, hxs⟩ := ih hbehind
    have hall : before ++ (gap ++ (x ++ more) ++ rest) = before ++ (gap ++ x) ++ (more ++ rest) := by
      simp only [List.append_assoc]
    refine ⟨String.ofList x :: xs, .cons ?_ (hall ▸ hxs)⟩
    rw [String.toList_ofList]
    refine ⟨before ++ gap, more ++ rest, ?_, ?_, taken⟩
    · simp only [List.append_assoc]
    · rw [byteLength_append, hbefore]

/-- The tokens lie one behind the other. -/
theorem inOrder (h : Laid offset text ts rest) :
    InOrder (fun _ => True) Located.span offset ts (offset + byteLength text) := by
  induction h with
  | nil => exact .nil (Nat.le_add_right _ _)
  | @cons offset gap x more rest t ts blank taken _ ih =>
    have hx : byteLength x ≠ 0 := fun he => taken.lexeme.ne_nil (byteLength_eq_zero_iff.mp he)
    rw [offset_behind]
    refine .cons trivial ⟨Nat.le_add_right _ _, ?_, Nat.le_refl _⟩ ih
    show offset + byteLength gap < offset + byteLength gap + byteLength x
    omega

/-- What no token covers is a blank. -/
theorem covers (h : Laid offset text ts rest) {before after : List Char} {c : Char}
    (htext : text = before ++ c :: after) : isSeparator c = true ∨
      ∃ t ∈ ts, t.span.start ≤ offset + byteLength before ∧
        offset + byteLength before + c.utf8Size ≤ t.span.stop := by
  induction h generalizing before with
  | nil => exact absurd htext (by simp)
  | @cons offset gap x more rest t ts blank taken _ ih =>
    rcases List.append_eq_append_iff.mp htext with ⟨start, rfl, hx⟩ | ⟨gap', rfl, hgap⟩
    · rcases List.append_eq_append_iff.mp hx with ⟨start', rfl, hmore⟩ | ⟨x', rfl, hx'⟩
      · -- the character is behind the token
        rcases ih hmore with hc | ⟨u, hu, hfrom, hto⟩
        · exact .inl hc
        · refine .inr ⟨u, List.mem_cons_of_mem _ hu, ?_, ?_⟩ <;>
            · rw [byteLength_append, byteLength_append]
              omega
      · cases x' with
        | nil =>
          -- it is the first one behind the token
          have hmore : more = [] ++ c :: after := hx'.symm
          rcases ih hmore with hc | ⟨u, hu, hfrom, hto⟩
          · exact .inl hc
          · rw [byteLength_nil] at hfrom hto
            refine .inr ⟨u, List.mem_cons_of_mem _ hu, ?_, ?_⟩ <;>
              · rw [byteLength_append]
                rw [byteLength_append, byteLength_nil] at hfrom hto
                omega
        | cons d x' =>
          cases hx'
          refine .inr ⟨_, List.mem_cons_self, ?_, ?_⟩ <;>
            · simp only [byteLength_append, byteLength_cons]
              omega
    · cases gap' with
      | nil =>
        rw [List.append_nil] at blank
        obtain ⟨d, cs, hx, -⟩ := taken.lexeme.start
        rw [List.nil_append, hx, List.cons_append] at hgap
        cases hgap
        refine .inr ⟨_, List.mem_cons_self, ?_, ?_⟩ <;>
          · simp only [hx, byteLength_append, byteLength_cons, byteLength_nil]
            omega
      | cons d gap' =>
        cases hgap
        exact .inl (blank c (by simp))

end Laid

/-! ## 5. Tokens with spaces between them -/

theorem breaks_space (cs : List Char) : Breaks (' ' :: cs) := by
  intro c rest h
  cases h
  decide

/-- A token, and what follows it behind a space. -/
theorem Spells.spaced {t : Token} {x cs : List Char} {ts : List Token} (hx : Lexeme t x)
    (h : Spells cs ts) : Spells (x ++ ' ' :: cs) (t :: ts) := by
  have hstart : (x ++ ' ' :: cs).dropWhile isSeparator = x ++ ' ' :: cs := by
    obtain ⟨c, more, rfl, hc⟩ := hx.start
    exact List.dropWhile_cons_of_neg (by rw [hc]; decide)
  have hscan := scan_append_right (breaks_space cs) hx.scan_self
  rw [List.nil_append, ← hstart] at hscan
  exact .token hscan h.space

/-- **Tokens that are written one behind the other with a space between them are spelled again.** -/
theorem spells_spaced {ts : List Token} {xs : List (List Char)} (h : List.Forall₂ Lexeme ts xs) :
    Spells ([' '].intercalate xs) ts := by
  induction h with
  | nil => exact .nil
  | @cons t x ts xs hx hxs ih =>
    cases hxs with
    | nil =>
      have hone := Spells.spaced hx .nil
      have hspells : Spells x [t] := by
        refine @Spells.token x x [] t [] ?_ .nil
        obtain ⟨c, more, rfl, hc⟩ := hx.start
        rw [List.dropWhile_cons_of_neg (by rw [hc]; decide)]
        exact hx.scan_self
      simpa [List.intercalate] using hspells
    | @cons u y ts ys hy hys =>
      have hspaced := Spells.spaced hx ih
      simpa [List.intercalate] using hspaced

/-! ## 6. Nothing is lost -/

theorem Located.Shows.marks {text : List Char} {t : Located Token} {x : List Char} (h : t.Shows text x) :
    t.span.Marks text x := by
  obtain ⟨before, after, htext, hspan, -⟩ := h
  exact ⟨before, after, htext, hspan⟩

theorem Located.Shows.lexeme {text : List Char} {t : Located Token} {x : List Char}
    (h : t.Shows text x) : Lexeme t.value x := by
  obtain ⟨_, _, _, _, htaken⟩ := h
  exact htaken.lexeme

/-- The tokens of a text and their slices keep what is in the text. -/
structure KeptBy (text : String) (ts : List (Located Token)) (slices : List String) : Prop where
  /-- A slice is what the span of its token cuts out of the text. It is what the token is written as, no other
  token is written so, and no longer token is written there. -/
  shown : List.Forall₂ (fun t x => t.span.slice? text = some x ∧ t.Shows text.toList x.toList ∧
    ∀ u, Lexeme u x.toList → u = t.value) ts slices
  nonempty : ∀ t ∈ ts, t.span.start < t.span.stop
  within : ∀ t ∈ ts, t.span.Within text.toList
  inOrder : ts.Pairwise fun t u => t.span.Before u.span
  /-- Every character is a blank, or lies in a span. -/
  covered : ∀ before c after, text.toList = before ++ c :: after → isSeparator c = true ∨
    ∃ t ∈ ts, t.span.start ≤ byteLength before ∧ byteLength before + c.utf8Size ≤ t.span.stop
  /-- With single spaces between them the slices are read as the same tokens. -/
  respaced : ∃ us, tokenize (" ".intercalate slices) = .ok us ∧ us.map (·.value) = ts.map (·.value)

theorem tokenize_spaced {ts : List Token} {slices : List String}
    (h : List.Forall₂ (fun t x => Lexeme t x.toList) ts slices) :
    ∃ us, tokenize (" ".intercalate slices) = .ok us ∧ us.map (·.value) = ts := by
  have hlexemes : List.Forall₂ Lexeme ts (slices.map String.toList) :=
    List.forall₂_map_right_iff.mpr h
  refine spells_iff_tokenize.mp ?_
  rw [String.toList_intercalate]
  exact spells_spaced hlexemes

/-- A text that is laid out is kept by its tokens. -/
theorem Laid.keptBy {text : String} {taken gap : List Char} {ts : List (Located Token)}
    (htext : text.toList = taken ++ gap) (hblank : AreSeparators gap) (h : Laid 0 taken ts gap) :
    ∃ slices, KeptBy text ts slices := by
  obtain ⟨slices, hshows⟩ := h.shows byteLength_nil
  rw [List.nil_append, ← htext] at hshows
  have hplaces := h.inOrder
  refine ⟨slices, ?_, ?_, ?_, ?_, ?_, ?_⟩
  · exact hshows.imp fun t x hx =>
      ⟨Span.slice?_eq_some_iff.mpr hx.marks, hx, fun u hu => hu.unique hx.lexeme⟩
  · exact fun t ht => (hplaces.of_mem ht).2.nonempty
  · exact ((List.forall₂_and_left ts slices).mp (hshows.imp fun t x hx => ⟨hx.marks.within, hx⟩)).1
  · exact hplaces.pairwise
  · intro before c after hc
    rw [htext] at hc
    rcases List.append_eq_append_iff.mp hc with ⟨_, -, hgap⟩ | ⟨last, htaken, hgap⟩
    · exact .inl (hblank c (by simp [hgap]))
    · cases last with
      | nil =>
        have hfirst : gap = c :: after := hgap.symm
        exact .inl (hblank c (hfirst ▸ List.mem_cons_self))
      | cons d more =>
        cases hgap
        have hcovers := h.covers htaken
        rwa [Nat.zero_add] at hcovers
  · exact tokenize_spaced (List.forall₂_map_left_iff.mpr (hshows.imp fun t x hx => hx.lexeme))

/-- **Reading a text to tokens loses nothing of it**; and where it fails, the text up to the character that starts
no token is read. -/
theorem tokenize_loses_nothing (text : String) :
    (∀ ts, tokenize text = .ok ts → ∃ slices, KeptBy text ts slices) ∧
    ∀ f, tokenize text = .error f → ∃ before c rest ts,
      text.toList = before ++ c :: rest ∧ f.span.start = byteLength before ∧
      f.span.Within text.toList ∧ isSeparator c = false ∧
      (∀ t x, Lexeme t x → ¬ x <+: c :: rest) ∧ tokenize (String.ofList before) = .ok ts := by
  constructor
  · intro ts h
    obtain ⟨taken, gap, htext, hblank, hlaid⟩ := tokenize_eq_ok_iff_laid.mp h
    exact hlaid.keptBy htext hblank
  · intro f h
    obtain ⟨before, c, rest, ts, htext, hbefore, hc, hnone, rfl⟩ := tokenize_eq_error_iff.mp h
    have hstands : (Lexer.mk (c :: rest) (byteLength before)).Stands text.toList := ⟨before, htext, rfl⟩
    refine ⟨before, c, rest, ts, htext, ?_, (hstands.faultAt rfl).1, hc, hnone, hbefore⟩
    rw [Lexer.faultAt]
    split <;> rfl

/-- A text without blanks, with a character of two bytes in its first token; and a text with a phrase that is not
closed behind two tokens. -/
theorem widths_lose_nothing :
    (∃ slices, KeptBy "größe<=3" [⟨.word "größe", ⟨0, 7⟩⟩, ⟨.relation .atMost, ⟨7, 9⟩⟩,
      ⟨.word "3", ⟨9, 10⟩⟩] slices) ∧
    ∃ before c rest ts, "größe<=\"3".toList = before ++ c :: rest ∧ 9 = byteLength before ∧
      (Span.mk 9 11).Within "größe<=\"3".toList ∧ isSeparator c = false ∧
      (∀ t x, Lexeme t x → ¬ x <+: c :: rest) ∧ tokenize (String.ofList before) = .ok ts :=
  ⟨(tokenize_loses_nothing "größe<=3").1 _ (toOption_eq_some_iff.mp (by decide +kernel)),
    (tokenize_loses_nothing "größe<=\"3").2 (.unterminatedPhrase ⟨9, 11⟩)
      (fault?_eq_some_iff.mp (by decide +kernel))⟩

end ContextualQuery
