import ContextualQuery.Proofs.Layout
/-!
# Phrases in a text

A phrase is opened by a quote, and closed by the next quote that no backslash takes with it. Wherever it stands
it is one token. A backslash does not take the end of a line with it: behind such a pair no quote closes the
phrase, and all that follows its opening quote is reported as an open phrase.

* `Lexer.items_of_phrase`: a closed phrase behind any text that is read, and before any text;
* `tokenize_eq_unterminated_iff`: an open phrase is reported exactly if each quote that would close it is behind
  a backslash at the end of a line, or there is none;
* `tokenize_of_broken`: so it is for a closed phrase with such a backslash in it;
* `closed_phrases_taken`, and `not_taken_broken` for the exception.
-/

namespace ContextualQuery

open PhrasePart (written quoted content)

variable {before : String} {ts : List (Located Token)} {parts : List PhrasePart}

theorem breaks_quote (cs : List Char) : Breaks (Quoted.doubleQuote :: cs) := by
  intro c rest h
  cases h
  decide

/-- **A closed phrase is one token**, which stands for its content, and what follows it is taken as if nothing had
been before it. -/
theorem Lexer.items_of_phrase (h : tokenize before = .ok ts)
    (hparts : .pair '\n' ∉ parts) (after : List Char) :
    (Lexer.mk (before.toList ++ (quoted parts ++ after)) 0).items =
      ts.map .ok ++ .ok ⟨.phrase (String.ofList (content parts)),
          ⟨byteLength before.toList, byteLength before.toList + byteLength (quoted parts)⟩⟩ ::
        (Lexer.mk after (byteLength before.toList + byteLength (quoted parts))).items := by
  obtain ⟨taken, gap, hbefore, hblank, hlaid⟩ := tokenize_eq_ok_iff_laid.mp h
  have hopen : Breaks (quoted parts ++ after) := breaks_quote _
  have htaken := (scan_eq_some_iff.mp (scan_quoted hparts after)).2
  have hitems := (hlaid.extend hopen).items
  rw [Lexer.items_of_taken hblank htaken, Nat.zero_add, ← byteLength_append, ← List.append_assoc,
    ← hbefore] at hitems
  exact hitems

/-- **An open phrase is reported exactly if each quote that would close it is behind a backslash at the end of a
line**, or there is none. -/
theorem tokenize_eq_unterminated_iff {text : String} {s : Span} :
    tokenize text = .error (.unterminatedPhrase s) ↔ ∃ before rest ts,
      text.toList = before ++ Quoted.doubleQuote :: rest ∧ tokenize (String.ofList before) = .ok ts ∧
      s = ⟨byteLength before, byteLength text.toList⟩ ∧
      ∀ parts after, rest = written parts ++ Quoted.doubleQuote :: after → .pair '\n' ∈ parts := by
  rw [tokenize_eq_error_iff]
  have hnone (rest : List Char) : (∀ t x, Lexeme t x → ¬ x <+: Quoted.doubleQuote :: rest) ↔
      ∀ parts after, rest = written parts ++ Quoted.doubleQuote :: after → .pair '\n' ∈ parts := by
    rw [← scan_eq_none_iff, scan_quote, Option.map_eq_none_iff, phraseBody?_eq_none_iff]
  constructor
  · rintro ⟨before, c, rest, ts, htext, hbefore, -, hstart, hfault⟩
    rw [Lexer.faultAt] at hfault
    split at hfault
    · rename_i hc
      cases hfault
      subst hc
      refine ⟨before, rest, ts, htext, hbefore, ?_, (hnone rest).mp hstart⟩
      rw [htext, byteLength_append]
      rfl
    · cases hfault
  · rintro ⟨before, rest, ts, htext, hbefore, rfl, hclosed⟩
    refine ⟨before, Quoted.doubleQuote, rest, ts, htext, hbefore, by decide,
      (hnone rest).mpr hclosed, ?_⟩
    rw [Lexer.faultAt, if_pos rfl, htext, byteLength_append]
    rfl

/-- **A phrase with a backslash at the end of a line is reported as an open one**, though a quote closes it. -/
theorem tokenize_of_broken (h : tokenize before = .ok ts) (hparts : .pair '\n' ∈ parts) (after : String) :
    tokenize (before ++ String.ofList (quoted parts) ++ after) = .error (.unterminatedPhrase
      ⟨byteLength before.toList,
        byteLength before.toList + byteLength (quoted parts) + byteLength after.toList⟩) := by
  refine tokenize_eq_unterminated_iff.mpr
    ⟨before.toList, written parts ++ Quoted.doubleQuote :: after.toList, ts, ?_, ?_, ?_, ?_⟩
  · simp [quoted]
  · rw [String.ofList_toList]
    exact h
  · simp [Nat.add_assoc]
  · exact phraseBody?_eq_none_iff.mp (PhrasePart.phraseBody?_broken hparts _)

/-- **Closed phrases are taken as one token where they stand**, but for those with a backslash at the end of a
line; and an open phrase is reported only where no quote closes it, or for one of those. -/
theorem closed_phrases_taken (text : String) :
    (∀ before ts parts after, tokenize before = .ok ts → .pair '\n' ∉ parts →
      text = before ++ String.ofList (quoted parts) ++ after →
      (Lexer.ofText text).items =
        ts.map .ok ++ .ok ⟨.phrase (String.ofList (content parts)),
            ⟨byteLength before.toList, byteLength before.toList + byteLength (quoted parts)⟩⟩ ::
          (Lexer.mk after.toList (byteLength before.toList + byteLength (quoted parts))).items) ∧
    (∀ before ts parts after, tokenize before = .ok ts → .pair '\n' ∈ parts →
      text = before ++ String.ofList (quoted parts) ++ after →
      tokenize text = .error (.unterminatedPhrase
        ⟨byteLength before.toList,
          byteLength before.toList + byteLength (quoted parts) + byteLength after.toList⟩)) ∧
    ∀ s, tokenize text = .error (.unterminatedPhrase s) ↔ ∃ before rest ts,
      text.toList = before ++ Quoted.doubleQuote :: rest ∧ tokenize (String.ofList before) = .ok ts ∧
      s = ⟨byteLength before, byteLength text.toList⟩ ∧
      ∀ parts after, rest = written parts ++ Quoted.doubleQuote :: after → .pair '\n' ∈ parts := by
  refine ⟨?_, ?_, fun s => tokenize_eq_unterminated_iff⟩
  · rintro before ts parts after h hparts rfl
    have hitems := Lexer.items_of_phrase h hparts after.toList
    rw [Lexer.ofText, String.toList_append, String.toList_append, String.toList_ofList,
      List.append_assoc]
    exact hitems
  · rintro before ts parts after h hparts rfl
    exact tokenize_of_broken h hparts after

/-- The inside of a phrase with a quote in it and a character of two bytes. -/
def withQuote : List PhrasePart :=
  [.plain 'a' (by decide) (by decide), .pair Quoted.doubleQuote, .plain 'ß' (by decide) (by decide)]

/-- It is taken behind a symbol that no blank separates from it; the same with a backslash at the end of a line is
not. -/
theorem withQuote_taken :
    (Lexer.ofText "x=\"a\\\"ß\" b").items =
      [.ok ⟨.word "x", ⟨0, 1⟩⟩, .ok ⟨.relation .word, ⟨1, 2⟩⟩, .ok ⟨.phrase "a\"ß", ⟨2, 9⟩⟩] ++
        (Lexer.mk [' ', 'b'] 9).items ∧
    tokenize "x=\"a\\\"ß\\\n\" b" = .error (.unterminatedPhrase ⟨2, 13⟩) ∧
    ∃ before rest ts, "x=\"".toList = before ++ Quoted.doubleQuote :: rest ∧
      tokenize (String.ofList before) = .ok ts ∧ Span.mk 2 3 = ⟨byteLength before, 3⟩ ∧
      ∀ parts after, rest = written parts ++ Quoted.doubleQuote :: after → .pair '\n' ∈ parts := by
  have hbefore : tokenize "x=" = .ok [⟨.word "x", ⟨0, 1⟩⟩, ⟨.relation .word, ⟨1, 2⟩⟩] :=
    toOption_eq_some_iff.mp (by decide +kernel)
  refine ⟨?_, ?_, ?_⟩
  · exact (closed_phrases_taken "x=\"a\\\"ß\" b").1 "x=" _ withQuote " b" hbefore (by decide) (by decide)
  · exact (closed_phrases_taken "x=\"a\\\"ß\\\n\" b").2.1 "x=" _ (withQuote ++ [.pair '\n']) " b"
      hbefore (by decide) (by decide)
  · exact ((closed_phrases_taken "x=\"").2.2 ⟨2, 3⟩).mp (fault?_eq_some_iff.mp (by decide +kernel))

/-- A closed phrase that is not taken: two letters with a backslash and a line feed between them. -/
theorem not_taken_broken :
    ∃ parts, "\"a\\\nb\"" = String.ofList (quoted parts) ∧ "a\\\nb" = String.ofList (content parts) ∧
      tokenize "\"a\\\nb\"" = .error (.unterminatedPhrase ⟨0, 6⟩) ∧
      ∀ t s, tokenize "\"a\\\nb\"" ≠ .ok [⟨.phrase t, s⟩] := by
  have hfault : tokenize "\"a\\\nb\"" = .error (.unterminatedPhrase ⟨0, 6⟩) :=
    fault?_eq_some_iff.mp (by decide +kernel)
  refine ⟨[.plain 'a' (by decide) (by decide), .pair '\n', .plain 'b' (by decide) (by decide)],
    by decide, by decide, hfault, fun t s => ?_⟩
  rw [hfault]
  exact nofun

end ContextualQuery
