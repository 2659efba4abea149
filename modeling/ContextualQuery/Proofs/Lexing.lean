import ContextualQuery.Proofs.Results
import ContextualQuery.Query.Lexer
import Mathlib.Data.List.TakeWhile
/-!
# What a text spells

The lexer takes items with their places off a text. This file says which tokens a list of characters
spells, without places, and how the tokens of a text put together from parts come from the parts:

* `tokenize_eq_ok_iff`: the lexer reads a text to its end exactly if all its items are tokens;
* `Spells`: the tokens that characters spell, and `spells_of_items`, `items_of_spells`: they are the
  tokens that the lexer takes, from whatever offset it starts;
* `Breaks`: what may follow a token without becoming part of it, and `scan_append_right`: a token
  stays what it is before such a text;
* `scan_word`, `of_scan_word`, `scan_spelling`, `of_scan_relation`: words and symbols are taken as they are
  written;
* `Spells.append`: a text and another that breaks it spell the tokens of the one and of the other.
-/

namespace ContextualQuery

/-! ## 1. Texts without faults -/

/-- The lexer reads a text to its end exactly if every item is a token. -/
theorem tokenize_eq_ok_iff {text : String} {ts : List (Located Token)} :
    tokenize text = .ok ts ↔ (Lexer.ofText text).items = ts.map .ok := by
  constructor
  · exact eq_map_ok_of_mapM_id
  · intro h
    rw [tokenize, h]
    exact mapM_id_map_ok ts

/-! ## 2. One item after the other -/

namespace Lexer

theorem items_of_next_none {l : Lexer} (h : l.next = none) : l.items = [] := by
  rw [items]
  split
  · rfl
  · rename_i h'
    rw [h] at h'
    cases h'

theorem items_of_next_some {l l' : Lexer} {i : Item} (h : l.next = some (i, l')) :
    l.items = i :: l'.items := by
  rw [items]
  split
  · rename_i h'
    rw [h] at h'
    cases h'
  · rename_i h'
    rw [h] at h'
    cases h'
    rfl

/-- Behind blanks only, nothing is taken. -/
theorem next_of_blank {l : Lexer} (h : l.rest.dropWhile isSeparator = []) : l.next = none := by
  simp only [next, skipSeparators, h]

/-- The token behind the blanks is the next item. -/
theorem next_of_scan {l : Lexer} {t : Token} {lexeme rest : List Char}
    (h : scan (l.rest.dropWhile isSeparator) = some (t, lexeme, rest)) :
    l.next = some (.ok ⟨t, ⟨l.skipSeparators.offset, l.skipSeparators.offset + byteLength lexeme⟩⟩,
      ⟨rest, l.skipSeparators.offset + byteLength lexeme⟩) := by
  cases hcs : l.rest.dropWhile isSeparator with
  | nil =>
    rw [hcs] at h
    cases h
  | cons c cs =>
    rw [hcs] at h
    simp only [next, skipSeparators, hcs, h]

/-- Where characters follow but no token starts, the next item is a fault. -/
theorem next_of_scan_none {l : Lexer} (hne : l.rest.dropWhile isSeparator ≠ [])
    (h : scan (l.rest.dropWhile isSeparator) = none) :
    ∃ f l', l.next = some (.error f, l') := by
  cases hcs : l.rest.dropWhile isSeparator with
  | nil => exact absurd hcs hne
  | cons c cs =>
    rw [hcs] at h
    simp only [next, skipSeparators, hcs, h]
    exact ⟨_, _, rfl⟩

/-- What the items begin with: behind blanks only there are none; otherwise there is a fault, or the
token that starts there, and the items behind it. -/
theorem items_cases (l : Lexer) :
    (l.rest.dropWhile isSeparator = [] ∧ l.items = []) ∨
    (∃ f is, l.items = .error f :: is) ∨
    ∃ t lexeme rest s offset, scan (l.rest.dropWhile isSeparator) = some (t, lexeme, rest) ∧
      l.items = .ok ⟨t, s⟩ :: (Lexer.mk rest offset).items := by
  by_cases hb : l.rest.dropWhile isSeparator = []
  · exact .inl ⟨hb, items_of_next_none (next_of_blank hb)⟩
  · cases hs : scan (l.rest.dropWhile isSeparator) with
    | none =>
      obtain ⟨f, l', hn⟩ := l.next_of_scan_none hb hs
      exact .inr (.inl ⟨f, _, items_of_next_some hn⟩)
    | some r =>
      obtain ⟨t, lexeme, rest⟩ := r
      exact .inr (.inr ⟨t, lexeme, rest, _, _, rfl, items_of_next_some (next_of_scan hs)⟩)

end Lexer

/-! ## 3. Spelling -/

/-- The tokens that characters spell: one token after the other, with blanks before, between and
behind them. -/
inductive Spells : List Char → List Token → Prop
  | blank {cs : List Char} (h : cs.dropWhile isSeparator = []) : Spells cs []
  | token {cs lexeme rest : List Char} {t : Token} {ts : List Token}
      (h : scan (cs.dropWhile isSeparator) = some (t, lexeme, rest)) (hrest : Spells rest ts) :
      Spells cs (t :: ts)

/-- What the lexer takes is what the characters spell. -/
theorem spells_of_items {l : Lexer} {ts : List (Located Token)} (h : l.items = ts.map .ok) :
    Spells l.rest (ts.map (·.value)) := by
  induction ts generalizing l with
  | nil =>
    rcases l.items_cases with ⟨hb, _⟩ | ⟨f, is, hf⟩ | ⟨t, lexeme, rest, s, offset, hs, hi⟩
    · exact .blank hb
    · rw [hf] at h
      cases h
    · rw [hi] at h
      cases h
  | cons t ts ih =>
    rcases l.items_cases with ⟨_, hn⟩ | ⟨f, is, hf⟩ | ⟨t', lexeme, rest, s, offset, hs, hi⟩
    · rw [hn] at h
      cases h
    · rw [hf] at h
      cases h
    · rw [hi, List.map_cons, List.cons.injEq, Except.ok.injEq] at h
      obtain ⟨rfl, hrest⟩ := h
      have hspells := ih hrest
      exact .token hs hspells

/-- The lexer takes what the characters spell, from whatever offset it starts. -/
theorem items_of_spells {cs : List Char} {vs : List Token} (h : Spells cs vs) (offset : Nat) :
    ∃ ts : List (Located Token),
      (Lexer.mk cs offset).items = ts.map .ok ∧ ts.map (·.value) = vs := by
  induction h generalizing offset with
  | blank hb => exact ⟨[], Lexer.items_of_next_none (Lexer.next_of_blank hb), rfl⟩
  | @token cs lexeme rest t vs hs _ ih =>
    have hn := Lexer.next_of_scan (l := ⟨cs, offset⟩) hs
    obtain ⟨ts, hts, hvs⟩ := ih ((Lexer.mk cs offset).skipSeparators.offset + byteLength lexeme)
    have hi := Lexer.items_of_next_some hn
    rw [hts] at hi
    exact ⟨_ :: ts, hi, by rw [List.map_cons, hvs]⟩

/-- **A text spells the tokens it is read as, and is read as the tokens it spells.** -/
theorem spells_iff_tokenize {text : String} {vs : List Token} :
    Spells text.toList vs ↔ ∃ ts, tokenize text = .ok ts ∧ ts.map (·.value) = vs := by
  constructor
  · intro h
    obtain ⟨ts, hts, hvs⟩ := items_of_spells h 0
    exact ⟨ts, tokenize_eq_ok_iff.mpr hts, hvs⟩
  · intro h
    obtain ⟨ts, hts, rfl⟩ := h
    exact spells_of_items (tokenize_eq_ok_iff.mp hts)

/-! ## 4. Texts that break tokens -/

/-- What may follow a token without becoming part of it: no character of a word, and neither of the
two that end symbols of two characters. -/
def Breaks (cs : List Char) : Prop :=
  ∀ c rest, cs = c :: rest → isWordChar c = false ∧ c ≠ '=' ∧ c ≠ '>'

/-- A phrase ends at its closing quote, whatever follows. -/
theorem phraseBody?_append_right {cs body rest : List Char} (bs : List Char)
    (h : phraseBody? cs = some (body, rest)) :
    phraseBody? (cs ++ bs) = some (body, rest ++ bs) := by
  fun_induction phraseBody? cs generalizing body rest with
  | case1 => cases h
  | case2 => cases h
  | case3 c rest' hc ih =>
    obtain ⟨⟨b, r⟩, hr, he⟩ := Option.map_eq_some_iff.1 h
    cases he
    simp only [List.cons_append, phraseBody?, if_neg hc, ih hr, Option.map_some]
  | case4 rest' hne =>
    cases h
    rw [List.cons_append, phraseBody?, if_pos rfl]
    exact fun _ _ hq _ => absurd hq (by decide)
  | case5 => cases h
  | case6 c rest' hne hq hb ih =>
    obtain ⟨⟨b, r⟩, hr, he⟩ := Option.map_eq_some_iff.1 h
    cases he
    rw [List.cons_append, phraseBody?, if_neg hq, if_neg hb, ih hr, Option.map_some]
    exact fun _ _ hc _ => hb hc

theorem ne_cons_append {rest bs : List Char} {c : Char} (hbs : ∀ r, bs ≠ c :: r)
    (h : ∀ r, rest ≠ c :: r) (r : List Char) : rest ++ bs ≠ c :: r := by
  cases rest with
  | nil => exact hbs r
  | cons d rest =>
    intro he
    rw [List.cons_append, List.cons.injEq] at he
    exact h rest (by rw [he.1])

theorem takeWhile_append_breaks {rest bs : List Char} (h : Breaks bs) :
    (rest ++ bs).takeWhile isWordChar = rest.takeWhile isWordChar := by
  induction rest with
  | nil =>
    cases bs with
    | nil => rfl
    | cons c bs => exact List.takeWhile_cons_of_neg (by rw [(h c bs rfl).1]; decide)
  | cons d rest ih => rw [List.cons_append, List.takeWhile_cons, List.takeWhile_cons, ih]

theorem dropWhile_append_breaks {rest bs : List Char} (h : Breaks bs) :
    (rest ++ bs).dropWhile isWordChar = rest.dropWhile isWordChar ++ bs := by
  induction rest with
  | nil =>
    cases bs with
    | nil => rfl
    | cons c bs => exact List.dropWhile_cons_of_neg (by rw [(h c bs rfl).1]; decide)
  | cons d rest ih =>
    rw [List.cons_append, List.dropWhile_cons, List.dropWhile_cons, ih]
    split <;> rfl

/-- **A token stays what it is before a text that breaks it.** -/
theorem scan_append_right {cs lexeme rest bs : List Char} {t : Token} (hbs : Breaks bs)
    (h : scan cs = some (t, lexeme, rest)) : scan (cs ++ bs) = some (t, lexeme, rest ++ bs) := by
  have heq : ∀ r, bs ≠ '=' :: r := fun r he => (hbs _ r he).2.1 rfl
  have hgt : ∀ r, bs ≠ '>' :: r := fun r he => (hbs _ r he).2.2 rfl
  unfold scan at h
  split at h
  -- the symbols that a second character would make longer
  case h_2 rest' hne =>
    cases h
    rw [List.cons_append, scan]
    exact ne_cons_append heq hne
  case h_5 rest' hne hne' =>
    cases h
    rw [List.cons_append, scan]
    · exact ne_cons_append hgt hne
    · exact ne_cons_append heq hne'
  case h_7 rest' hne =>
    cases h
    rw [List.cons_append, scan]
    exact ne_cons_append heq hne
  -- phrases and words
  case h_12 c rest' _ h1 _ _ h2 _ h3 h4 h5 h6 =>
    rw [List.cons_append, scan]
    · split at h
      · rename_i hq
        obtain ⟨⟨b, r⟩, hr, he⟩ := Option.map_eq_some_iff.1 h
        cases he
        rw [if_pos hq, phraseBody?_append_right bs hr, Option.map_some]
      · rename_i hq
        split at h
        · rename_i hw
          cases h
          rw [if_neg hq, if_pos hw, takeWhile_append_breaks hbs, dropWhile_append_breaks hbs]
        · cases h
    all_goals first
      | assumption
      | exact fun _ hc _ => absurd hc (by assumption)
  case h_11 => cases h
  all_goals cases h; rfl

/-! ## 5. Words and symbols -/

/-- What is left when characters are dropped does not begin with one of them. -/
theorem start_dropWhile {p : Char → Bool} {cs more : List Char} {c : Char}
    (h : cs.dropWhile p = c :: more) : p c = false := by
  have hhead := List.head?_dropWhile_not p cs
  rw [h] at hhead
  simpa using hhead

/-- A word ends where a character follows that is none of a word. -/
theorem scan_word {cs bs : List Char} (hne : cs ≠ []) (hcs : ∀ c ∈ cs, isWordChar c = true)
    (hbs : ∀ c rest, bs = c :: rest → isWordChar c = false) :
    scan (cs ++ bs) = some (.word (String.ofList cs), cs, bs) := by
  obtain ⟨c, cs, rfl⟩ := List.exists_cons_of_ne_nil hne
  obtain ⟨hc, hcs⟩ := List.forall_mem_cons.mp hcs
  have hstop : bs.takeWhile isWordChar = [] ∧ bs.dropWhile isWordChar = bs := by
    cases bs with
    | nil => exact ⟨rfl, rfl⟩
    | cons b bs => simp [hbs b bs rfl]
  have htake : (cs ++ bs).takeWhile isWordChar = cs := by
    rw [List.takeWhile_append_of_pos hcs, hstop.1, List.append_nil]
  have hdrop : (cs ++ bs).dropWhile isWordChar = bs := by
    rw [List.dropWhile_append_of_pos hcs, hstop.2]
  have hmark (d : Char) (hd : isWordChar d = false) : c ≠ d := by
    rintro rfl
    rw [hc] at hd
    cases hd
  rw [List.cons_append, scan]
  · rw [if_neg (hmark Quoted.doubleQuote (by decide)), if_pos hc, htake, hdrop]
  all_goals
    intros
    exact absurd ‹c = _› (hmark _ (by decide))

theorem of_scan_word {cs lexeme rest : List Char} {s : String}
    (h : scan cs = some (.word s, lexeme, rest)) :
    s.toList = lexeme ∧ lexeme ≠ [] ∧ ∀ c ∈ lexeme, isWordChar c = true := by
  unfold scan at h
  split at h
  case h_12 c rest' _ _ _ _ _ _ _ _ _ _ =>
    split at h
    · obtain ⟨r, _, he⟩ := Option.map_eq_some_iff.mp h
      cases he
    · split at h
      · rename_i hc
        cases h
        refine ⟨by simp, by simp, List.forall_mem_cons.mpr ⟨hc, fun d hd => ?_⟩⟩
        exact List.mem_takeWhile_imp hd
      · cases h
  all_goals cases h

theorem not_isSeparator_of_isWordChar {c : Char} (h : isWordChar c = true) :
    isSeparator c = false := by
  refine eq_false_of_ne_true fun hs => ?_
  simp only [isSeparator, Bool.or_eq_true, decide_eq_true_eq] at hs
  rcases hs with ((rfl | rfl) | rfl) | rfl <;> cases h

theorem of_scan_relation {cs lexeme rest : List Char} {s : RelationSymbol}
    (h : scan cs = some (.relation s, lexeme, rest)) : lexeme = s.spelling.toList := by
  unfold scan at h
  split at h
  case h_12 =>
    split at h
    · obtain ⟨r, _, he⟩ := Option.map_eq_some_iff.mp h
      cases he
    · split at h <;> cases h
  all_goals
    cases h
    try rfl

/-- A symbol is read as itself, unless what follows would make it a longer one. -/
theorem scan_spelling (s : RelationSymbol) {bs : List Char}
    (hbs : ∀ c rest, bs = c :: rest → c ≠ '=' ∧ c ≠ '>') :
    scan (s.spelling.toList ++ bs) = some (.relation s, s.spelling.toList, bs) := by
  have heq (r : List Char) : bs ≠ '=' :: r := fun he => (hbs _ r he).1 rfl
  have hgt (r : List Char) : bs ≠ '>' :: r := fun he => (hbs _ r he).2 rfl
  cases s with
  | word => exact scan.eq_2 bs heq
  | less => exact scan.eq_5 bs hgt heq
  | greater => exact scan.eq_7 bs heq
  | _ => rfl

/-! ## 6. Texts put together -/

theorem dropWhile_append_of_nil {as : List Char} (bs : List Char)
    (h : as.dropWhile isSeparator = []) :
    (as ++ bs).dropWhile isSeparator = bs.dropWhile isSeparator := by
  rw [List.dropWhile_append, h]
  rfl

theorem dropWhile_append_of_ne_nil {as : List Char} (bs : List Char)
    (h : as.dropWhile isSeparator ≠ []) :
    (as ++ bs).dropWhile isSeparator = as.dropWhile isSeparator ++ bs := by
  rw [List.dropWhile_append, if_neg (by simpa using h)]

namespace Spells

/-- Blanks in front of the first token do not count. -/
theorem of_dropWhile {cs ds : List Char} {ts : List Token}
    (he : cs.dropWhile isSeparator = ds.dropWhile isSeparator) (h : Spells cs ts) :
    Spells ds ts := by
  cases h with
  | blank hb => exact .blank (he ▸ hb)
  | token hs hrest => exact .token (he ▸ hs) hrest

/-- **A text and another that breaks it spell the tokens of the one and of the other.** -/
theorem append {as bs : List Char} {ts us : List Token} (ha : Spells as ts) (hbs : Breaks bs)
    (hb : Spells bs us) : Spells (as ++ bs) (ts ++ us) := by
  induction ha with
  | blank h => exact hb.of_dropWhile (dropWhile_append_of_nil bs h).symm
  | @token cs lexeme rest t ts hs _ ih =>
    have hne : cs.dropWhile isSeparator ≠ [] := by
      intro he
      rw [he] at hs
      cases hs
    rw [List.cons_append]
    refine @Spells.token _ lexeme (rest ++ bs) _ _ ?_ ih
    rw [dropWhile_append_of_ne_nil bs hne]
    exact scan_append_right hbs hs

theorem nil : Spells [] [] := .blank rfl

theorem space {cs : List Char} {ts : List Token} (h : Spells cs ts) : Spells (' ' :: cs) ts := by
  have he : cs.dropWhile isSeparator = (' ' :: cs).dropWhile isSeparator := rfl
  exact of_dropWhile he h

theorem openParen {cs : List Char} {ts : List Token} (h : Spells cs ts) :
    Spells ('(' :: cs) (.openParen :: ts) :=
  .token rfl h

theorem closeParen {cs : List Char} {ts : List Token} (h : Spells cs ts) :
    Spells (')' :: cs) (.closeParen :: ts) :=
  .token rfl h

end Spells

theorem breaks_closeParen (cs : List Char) : Breaks (')' :: cs) := by
  intro c rest h
  cases h
  decide

end ContextualQuery
