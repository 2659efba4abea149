import ContextualQuery.Proofs.Lexing
/-!
# What tokens are written as

The lexer tries the forms of tokens in the order in which `scan` lists them. Which characters are a token, and of
which kind, can be said without it, and then it takes the longest token that starts where it stands.

* `PhrasePart`: the inside of a phrase is plain characters and pairs of a backslash and another character;
  `phraseBody?_eq_some_iff`, `phraseBody?_eq_none_iff`: it is taken up to the first quote that stands in no pair,
  unless a backslash before that quote stands at the end of a line;
* `Lexeme`: the characters that a token is written as, and `Lexeme.unique`: they are written for no other token;
* `Token.Taken`: a token is the longest one where it stands;
* `scan_eq_some_iff`, `scan_eq_none_iff`: `scan` takes exactly these tokens.
-/

namespace ContextualQuery

/-! ## 1. The inside of a phrase -/

/-- A part of the inside of a phrase: a character that is neither a quote nor a backslash, or a backslash and the
character that it takes with it. -/
inductive PhrasePart
  | plain (c : Char) (notQuote : c ≠ Quoted.doubleQuote) (notBackslash : c ≠ '\\')
  | pair (c : Char)
  deriving DecidableEq, Repr

namespace PhrasePart

/-- The parts as they are written. -/
def written : List PhrasePart → List Char
  | [] => []
  | plain c _ _ :: rest => c :: written rest
  | pair c :: rest => '\\' :: c :: written rest

/-- What the parts stand for: a quote for a pair with a quote, and each other part for itself. -/
def content : List PhrasePart → List Char
  | [] => []
  | plain c _ _ :: rest => c :: content rest
  | pair c :: rest =>
    if c = Quoted.doubleQuote then c :: content rest else '\\' :: c :: content rest

/-- The parts between quotes. -/
def quoted (parts : List PhrasePart) : List Char :=
  Quoted.doubleQuote :: (written parts ++ [Quoted.doubleQuote])

variable {parts : List PhrasePart}

theorem phraseBody?_plain {c : Char} (hquote : c ≠ Quoted.doubleQuote) (hback : c ≠ '\\')
    (rest : List Char) :
    phraseBody? (c :: rest) = (phraseBody? rest).map fun r => (c :: r.1, r.2) := by
  rw [phraseBody?, if_neg hquote, if_neg hback]
  exact fun _ _ hc _ => hback hc

/-- The quote behind the parts closes the phrase, whatever follows. -/
theorem phraseBody?_written (h : pair '\n' ∉ parts) (rest : List Char) :
    phraseBody? (written parts ++ Quoted.doubleQuote :: rest) = some (written parts, rest) := by
  induction parts with
  | nil =>
    rw [written, List.nil_append, phraseBody?, if_pos rfl]
    exact fun _ _ hc => absurd hc (by decide)
  | cons part parts ih =>
    obtain ⟨hpart, hparts⟩ := not_or.mp (mt List.mem_cons.mpr h)
    cases part with
    | plain c hquote hback =>
      rw [written, List.cons_append, phraseBody?_plain hquote hback, ih hparts]
      rfl
    | pair c =>
      have hc : c ≠ '\n' := fun he => hpart (by rw [he])
      rw [written, List.cons_append, List.cons_append, phraseBody?, if_neg hc, ih hparts]
      rfl

/-- Behind a backslash at the end of a line no quote closes the phrase. -/
theorem phraseBody?_broken (h : pair '\n' ∈ parts) (rest : List Char) :
    phraseBody? (written parts ++ rest) = none := by
  induction parts with
  | nil => cases h
  | cons part parts ih =>
    cases part with
    | plain c hquote hback =>
      have hparts : pair '\n' ∈ parts := by simpa using h
      rw [written, List.cons_append, phraseBody?_plain hquote hback, ih hparts]
      rfl
    | pair c =>
      rw [written, List.cons_append, List.cons_append, phraseBody?]
      by_cases hc : c = '\n'
      · rw [if_pos hc]
      · have hparts : pair '\n' ∈ parts := by
          rcases List.mem_cons.mp h with he | hparts
          · cases he
            exact absurd rfl hc
          · exact hparts
        rw [if_neg hc, ih hparts]
        rfl

/-- What is taken as the inside of a phrase consists of parts. -/
theorem exists_written {cs body rest : List Char} (h : phraseBody? cs = some (body, rest)) :
    ∃ parts, pair '\n' ∉ parts ∧ written parts = body := by
  fun_induction phraseBody? cs generalizing body rest with
  | case1 => cases h
  | case2 => cases h
  | case3 c rest' hc ih =>
    obtain ⟨⟨b, r⟩, hr, he⟩ := Option.map_eq_some_iff.mp h
    cases he
    obtain ⟨parts, hparts, hb⟩ := ih hr
    refine ⟨pair c :: parts, ?_, by rw [written, hb]⟩
    intro hmem
    rcases List.mem_cons.mp hmem with he | hmem
    · cases he
      exact hc rfl
    · exact hparts hmem
  | case4 =>
    cases h
    exact ⟨[], List.not_mem_nil, rfl⟩
  | case5 => cases h
  | case6 c rest' hpair hquote hback ih =>
    obtain ⟨⟨b, r⟩, hr, he⟩ := Option.map_eq_some_iff.mp h
    cases he
    obtain ⟨parts, hparts, hb⟩ := ih hr
    refine ⟨plain c hquote hback :: parts, ?_, by rw [written, hb]⟩
    intro hmem
    rcases List.mem_cons.mp hmem with he | hmem
    · cases he
    · exact hparts hmem

theorem phraseContent_written (parts : List PhrasePart) :
    phraseContent (written parts) = content parts := by
  induction parts with
  | nil => rfl
  | cons part parts ih =>
    cases part with
    | plain c _ hback =>
      rw [written, phraseContent, ih]
      · rfl
      · exact fun _ _ hc => absurd hc hback
    | pair c => rw [written, phraseContent, ih, content]

end PhrasePart

open PhrasePart (written quoted content)

/-- **The inside of a phrase is taken up to the first quote that stands in no pair**, if no backslash before it
stands at the end of a line. -/
theorem phraseBody?_eq_some_iff {cs body rest : List Char} :
    phraseBody? cs = some (body, rest) ↔
      ∃ parts, .pair '\n' ∉ parts ∧ body = written parts ∧
        cs = written parts ++ Quoted.doubleQuote :: rest := by
  constructor
  · intro h
    obtain ⟨parts, hparts, rfl⟩ := PhrasePart.exists_written h
    exact ⟨parts, hparts, rfl, phraseBody?_append h⟩
  · rintro ⟨parts, hparts, rfl, rfl⟩
    exact PhrasePart.phraseBody?_written hparts rest

/-- **No inside of a phrase is taken exactly if before every quote that would close it a backslash stands at the
end of a line**, also if there is no such quote. -/
theorem phraseBody?_eq_none_iff {cs : List Char} :
    phraseBody? cs = none ↔
      ∀ parts rest, cs = written parts ++ Quoted.doubleQuote :: rest → .pair '\n' ∈ parts := by
  constructor
  · rintro h parts rest rfl
    by_contra hparts
    rw [PhrasePart.phraseBody?_written hparts] at h
    cases h
  · intro h
    cases hbody : phraseBody? cs with
    | none => rfl
    | some r =>
      obtain ⟨parts, hparts, -, hcs⟩ := phraseBody?_eq_some_iff.mp hbody
      exact absurd (h parts r.2 hcs) hparts

/-! ## 2. The characters of a token -/

/-- The characters that a token is written as. -/
inductive Lexeme : Token → List Char → Prop
  | word (w : String) (nonempty : w.toList ≠ []) (chars : ∀ c ∈ w.toList, isWordChar c = true) :
    Lexeme (.word w) w.toList
  | phrase (parts : List PhrasePart) (unbroken : .pair '\n' ∉ parts) :
    Lexeme (.phrase (String.ofList (content parts))) (quoted parts)
  | relation (s : RelationSymbol) : Lexeme (.relation s) s.spelling.toList
  | openParen : Lexeme .openParen ['(']
  | closeParen : Lexeme .closeParen [')']
  | slash : Lexeme .slash ['/']

/-- A phrase is taken from its opening quote to its closing one. -/
theorem scan_quote (cs : List Char) : scan (Quoted.doubleQuote :: cs) =
    (phraseBody? cs).map fun r => (.phrase (String.ofList (phraseContent r.1)),
      Quoted.doubleQuote :: r.1 ++ [Quoted.doubleQuote], r.2) := by
  rw [scan, if_pos rfl]
  all_goals
    intros
    exact absurd ‹Quoted.doubleQuote = _› (by decide)

theorem scan_quoted {parts : List PhrasePart} (h : .pair '\n' ∉ parts) (rest : List Char) :
    scan (quoted parts ++ rest) =
      some (.phrase (String.ofList (content parts)), quoted parts, rest) := by
  rw [quoted, List.cons_append, List.append_assoc, List.singleton_append, scan_quote,
    PhrasePart.phraseBody?_written h, Option.map_some, PhrasePart.phraseContent_written]
  rfl

namespace Lexeme

variable {t u : Token} {x y cs rest : List Char}

theorem ne_nil (h : Lexeme t x) : x ≠ [] := by
  cases h with
  | word w nonempty _ => exact nonempty
  | relation s => cases s <;> exact List.cons_ne_nil _ _
  | _ => exact List.cons_ne_nil _ _

/-- A token does not begin with a blank. -/
theorem start (h : Lexeme t x) : ∃ c cs, x = c :: cs ∧ isSeparator c = false := by
  cases h with
  | word w nonempty chars =>
    obtain ⟨c, cs, hw⟩ := List.exists_cons_of_ne_nil nonempty
    have hc := chars c (hw ▸ List.mem_cons_self)
    exact ⟨c, cs, hw, not_isSeparator_of_isWordChar hc⟩
  | relation s => cases s <;> exact ⟨_, _, rfl, by decide⟩
  | _ => exact ⟨_, _, rfl, by decide⟩

/-- What is taken is written as the token. -/
theorem of_scan (h : scan cs = some (t, x, rest)) : Lexeme t x := by
  unfold scan at h
  split at h
  case h_12 c rest' _ _ _ _ _ _ _ _ _ _ =>
    split at h
    · rename_i hc
      obtain ⟨⟨body, r⟩, hr, he⟩ := Option.map_eq_some_iff.mp h
      cases he
      obtain ⟨parts, hparts, rfl, -⟩ := phraseBody?_eq_some_iff.mp hr
      rw [hc, PhrasePart.phraseContent_written]
      exact .phrase parts hparts
    · split at h
      · rename_i hc
        cases h
        have hw : Lexeme (.word (String.ofList (c :: rest'.takeWhile isWordChar)))
            (String.ofList (c :: rest'.takeWhile isWordChar)).toList := by
          refine .word _ (by simp) ?_
          rw [String.toList_ofList]
          exact List.forall_mem_cons.mpr ⟨hc, fun d hd => List.mem_takeWhile_imp hd⟩
        rwa [String.toList_ofList] at hw
      · cases h
  case h_1 => cases h; exact .relation .exact
  case h_2 => cases h; exact .relation .word
  case h_3 => cases h; exact .relation .notEqual
  case h_4 => cases h; exact .relation .atMost
  case h_5 => cases h; exact .relation .less
  case h_6 => cases h; exact .relation .atLeast
  case h_7 => cases h; exact .relation .greater
  case h_8 => cases h; exact .openParen
  case h_9 => cases h; exact .closeParen
  case h_10 => cases h; exact .slash
  case h_11 => cases h

/-- A word goes on as long as characters of words follow. -/
theorem exists_scan_word (hne : x ≠ []) (hx : ∀ c ∈ x, isWordChar c = true) (rest : List Char) :
    ∃ u y rest', scan (x ++ rest) = some (u, x ++ y, rest') := by
  have hsplit : x ++ rest = (x ++ rest.takeWhile isWordChar) ++ rest.dropWhile isWordChar := by
    rw [List.append_assoc, List.takeWhile_append_dropWhile]
  have hchars : ∀ c ∈ x ++ rest.takeWhile isWordChar, isWordChar c = true := by
    intro c hc
    rcases List.mem_append.mp hc with hc | hc
    · exact hx c hc
    · exact List.mem_takeWhile_imp hc
  have hlonger := List.append_ne_nil_of_left_ne_nil hne (rest.takeWhile isWordChar)
  exact ⟨_, _, _, hsplit ▸ scan_word hlonger hchars fun _ _ => start_dropWhile⟩

/-- A symbol of one character may be the beginning of one of two. -/
theorem exists_scan_spelling (s : RelationSymbol) (rest : List Char) :
    ∃ u y rest', scan (s.spelling.toList ++ rest) = some (u, s.spelling.toList ++ y, rest') := by
  cases s with
  | word =>
    cases rest with
    | nil => exact ⟨.relation .word, [], [], rfl⟩
    | cons c rest =>
      by_cases hc : c = '='
      · subst hc
        exact ⟨.relation .exact, ['='], rest, rfl⟩
      · exact ⟨.relation .word, [], c :: rest, scan.eq_2 _ fun r he => hc (List.cons.inj he).1⟩
  | less =>
    cases rest with
    | nil => exact ⟨.relation .less, [], [], rfl⟩
    | cons c rest =>
      by_cases hgt : c = '>'
      · subst hgt
        exact ⟨.relation .notEqual, ['>'], rest, rfl⟩
      · by_cases heq : c = '='
        · subst heq
          exact ⟨.relation .atMost, ['='], rest, rfl⟩
        · exact ⟨.relation .less, [], c :: rest, scan.eq_5 _ (fun r he => hgt (List.cons.inj he).1)
            fun r he => heq (List.cons.inj he).1⟩
  | greater =>
    cases rest with
    | nil => exact ⟨.relation .greater, [], [], rfl⟩
    | cons c rest =>
      by_cases hc : c = '='
      · subst hc
        exact ⟨.relation .atLeast, ['='], rest, rfl⟩
      · exact ⟨.relation .greater, [], c :: rest, scan.eq_7 _ fun r he => hc (List.cons.inj he).1⟩
  | exact => exact ⟨.relation .exact, [], rest, rfl⟩
  | notEqual => exact ⟨.relation .notEqual, [], rest, rfl⟩
  | atMost => exact ⟨.relation .atMost, [], rest, rfl⟩
  | atLeast => exact ⟨.relation .atLeast, [], rest, rfl⟩

/-- Where a token is written, a token is taken, and it is no shorter. -/
theorem exists_scan (h : Lexeme t x) (rest : List Char) :
    ∃ u y rest', scan (x ++ rest) = some (u, x ++ y, rest') := by
  cases h with
  | word w nonempty chars => exact exists_scan_word nonempty chars rest
  | phrase parts unbroken =>
    refine ⟨.phrase (String.ofList (content parts)), [], rest, ?_⟩
    rw [scan_quoted unbroken, List.append_nil]
  | relation s => exact exists_scan_spelling s rest
  | openParen => exact ⟨.openParen, [], rest, rfl⟩
  | closeParen => exact ⟨.closeParen, [], rest, rfl⟩
  | slash => exact ⟨.slash, [], rest, rfl⟩

/-- On its own, what is written as a token is taken as this token. -/
theorem scan_self (h : Lexeme t x) : scan x = some (t, x, []) := by
  cases h with
  | word w nonempty chars =>
    have hscan := @scan_word w.toList [] nonempty chars nofun
    rwa [List.append_nil, String.ofList_toList] at hscan
  | phrase parts unbroken =>
    have hscan := scan_quoted unbroken []
    rwa [List.append_nil] at hscan
  | relation s =>
    have hscan := @scan_spelling s [] nofun
    rwa [List.append_nil] at hscan
  | _ => rfl

/-- **No two tokens are written alike.** -/
theorem unique (h : Lexeme t x) (h' : Lexeme u x) : t = u := by
  have he := h.scan_self.symm.trans h'.scan_self
  cases he
  rfl

end Lexeme

/-! ## 3. The longest token -/

/-- A token that is the longest one where it stands. -/
structure Token.Taken (t : Token) (x rest : List Char) : Prop where
  lexeme : Lexeme t x
  longest : ∀ u y, Lexeme u (x ++ y) → y <+: rest → y = []

/-- **`scan` takes the longest token that starts the text.** -/
theorem scan_eq_some_iff {cs x rest : List Char} {t : Token} :
    scan cs = some (t, x, rest) ↔ cs = x ++ rest ∧ t.Taken x rest := by
  constructor
  · intro h
    obtain ⟨rfl, -⟩ := scan_append h
    refine ⟨rfl, .of_scan h, ?_⟩
    rintro u y hlonger ⟨more, rfl⟩
    obtain ⟨v, z, rest', hscan⟩ := hlonger.exists_scan more
    rw [List.append_assoc, h, List.append_assoc] at hscan
    have hx : x = x ++ (y ++ z) := congrArg (fun r => r.2.1) (Option.some.inj hscan)
    exact (List.append_eq_nil_iff.mp (List.self_eq_append_right.mp hx)).1
  · rintro ⟨rfl, hlexeme, hlongest⟩
    obtain ⟨u, y, rest', hscan⟩ := hlexeme.exists_scan rest
    obtain ⟨hcat, -⟩ := scan_append hscan
    rw [List.append_assoc, List.append_cancel_left_eq] at hcat
    have hy := hlongest u y (.of_scan hscan) ⟨rest', hcat.symm⟩
    subst hy
    rw [List.append_nil] at hscan
    rw [List.nil_append] at hcat
    rw [hscan, hlexeme.unique (.of_scan hscan), hcat]

/-- **`scan` takes nothing exactly where no token starts.** -/
theorem scan_eq_none_iff {cs : List Char} : scan cs = none ↔ ∀ t x, Lexeme t x → ¬ x <+: cs := by
  constructor
  · rintro h t x hlexeme ⟨rest, rfl⟩
    obtain ⟨u, y, rest', hscan⟩ := hlexeme.exists_scan rest
    rw [h] at hscan
    cases hscan
  · intro h
    cases hscan : scan cs with
    | none => rfl
    | some r =>
      obtain ⟨t, x, rest⟩ := r
      exact absurd ⟨rest, (scan_append hscan).1.symm⟩ (h t x (.of_scan hscan))

end ContextualQuery
