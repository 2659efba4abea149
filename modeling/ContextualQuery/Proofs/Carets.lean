import ContextualQuery.Proofs.Places
import ContextualQuery.Text.Diagnostic
import Mathlib.Data.List.Induction
/-!
# Where the caret stands

A picture of a span shows the line on which the span starts, and marks under it: a caret and tildes. Columns are
counted in characters, but the marks are counted in bytes, and a line number takes three characters only as long as
it has no more digits.

* `Span.Cuts`: a text cut up for a span, and `Span.exists_cuts`: every span between characters cuts a text so;
* `Span.Cuts.position`: line and column of the span, read off what is cut;
* `Shows`: what is shown of a line, `Shows.head?_linesFrom` and `Span.Cuts.getElem?_lines`: this is what the picture
  has, and `Shows.split`: what of it stands before the span;
* `Diagnostic.render_eq`: the picture in its parts, and `Diagnostic.length_label`: how wide the numbers of lines are;
* `Diagnostic.marks_eq_iff`: when there are as many marks as characters;
* `Diagnostic.caret_under_start` puts these together. Pictures in which the caret or the tildes go astray are in
  `Diagnostic.marks_astray`.
-/

namespace ContextualQuery

/-! ## 1. Texts cut up for spans -/

/-- A text cut up for a span: the lines above it with their ends, what stands before it on the line where it
starts, the characters that it covers, and what stands behind it. -/
structure Span.Cuts (span : Span) (text above left covered behind : List Char) : Prop where
  text_eq : text = above ++ (left ++ (covered ++ behind))
  start_eq : byteLength (above ++ left) = span.start
  length_eq : byteLength covered = span.length
  above : above = [] ∨ ∃ lines, above = lines ++ ['\n']
  left : '\n' ∉ left

/-- A text is whole lines, and what stands behind their last end. -/
theorem exists_last_line (cs : List Char) : ∃ above left, cs = above ++ left ∧
    (above = [] ∨ ∃ lines, above = lines ++ ['\n']) ∧ '\n' ∉ left := by
  induction cs using List.reverseRecOn with
  | nil => exact ⟨[], [], rfl, .inl rfl, List.not_mem_nil⟩
  | append_singleton cs c ih =>
    by_cases hc : c = '\n'
    · subst hc
      exact ⟨cs ++ ['\n'], [], (List.append_nil _).symm, .inr ⟨cs, rfl⟩, List.not_mem_nil⟩
    · obtain ⟨above, left, rfl, habove, hleft⟩ := ih
      refine ⟨above, left ++ [c], List.append_assoc _ _ _, habove, ?_⟩
      rw [List.mem_append, List.mem_singleton, not_or]
      exact ⟨hleft, fun h => hc h.symm⟩

/-- **Every span that starts and stops between characters cuts the text up.** A span that stops before it starts
covers nothing. -/
theorem Span.exists_cuts {span : Span} {text : List Char} (hstart : IsBoundary text span.start)
    (hstop : IsBoundary text span.stop) : ∃ above left covered behind, span.Cuts text above left covered behind := by
  have hparts : ∃ before covered behind, text = before ++ (covered ++ behind) ∧
      byteLength before = span.start ∧ byteLength covered = span.length := by
    rcases Nat.le_total span.start span.stop with hle | hle
    · obtain ⟨before, covered, behind, htext, hbefore, hcovered⟩ := hstart.between hstop hle
      exact ⟨before, covered, behind, htext, hbefore, by rw [Span.length]; omega⟩
    · obtain ⟨before, behind, htext, hbefore⟩ := hstart
      exact ⟨before, [], behind, htext, hbefore, by rw [Span.length, byteLength_nil]; omega⟩
  obtain ⟨before, covered, behind, htext, hbefore, hcovered⟩ := hparts
  obtain ⟨above, left, rfl, habove, hleft⟩ := exists_last_line before
  rw [List.append_assoc] at htext
  exact ⟨above, left, covered, behind, htext, hbefore, hcovered, habove, hleft⟩

/-! ## 2. Lines and columns -/

namespace Position

/-- Up to an offset between characters every character before it is walked. -/
theorem walk_append (before after : List Char) (p : Position) :
    walk (before ++ after) (byteLength before) p = before.foldl advance p := by
  induction before generalizing p with
  | nil => cases after <;> rfl
  | cons c before ih =>
    have hc := c.utf8Size_pos
    rw [List.cons_append, walk, byteLength_cons, if_neg (by omega), Nat.add_sub_cancel_left, ih, List.foldl_cons]

theorem line_foldl_advance (cs : List Char) (p : Position) :
    (cs.foldl advance p).line = p.line + cs.count '\n' := by
  induction cs generalizing p with
  | nil => rfl
  | cons c cs ih =>
    rw [List.foldl_cons, ih, advance]
    by_cases hc : c = '\n'
    · subst hc
      rw [if_pos rfl, List.count_cons_self]
      simp only
      omega
    · rw [if_neg hc, List.count_cons_of_ne hc]

/-- On one line every character is a column. -/
theorem foldl_advance_of_not_mem {cs : List Char} (h : '\n' ∉ cs) (p : Position) :
    cs.foldl advance p = ⟨p.line, p.column + cs.length⟩ := by
  induction cs generalizing p with
  | nil => rfl
  | cons c cs ih =>
    obtain ⟨hc, hcs⟩ := not_or.mp (mt List.mem_cons.mpr h)
    rw [List.foldl_cons, ih hcs, advance, if_neg (Ne.symm hc), List.length_cons]
    simp only [Nat.add_assoc, Nat.add_comm 1]

end Position

/-- **The line of a span is counted by the lines above, its column by the characters before it.** -/
theorem Span.Cuts.position {span : Span} {text : String} {above left covered behind : List Char}
    (h : span.Cuts text.toList above left covered behind) :
    Position.ofOffset text span.start = ⟨above.count '\n' + 1, left.length + 1⟩ := by
  have habove : above.foldl Position.advance .origin = ⟨above.count '\n' + 1, 1⟩ := by
    rcases h.above with rfl | ⟨lines, rfl⟩
    · rfl
    · have hline := Position.line_foldl_advance (lines ++ ['\n']) .origin
      rw [List.foldl_append] at hline ⊢
      rw [Position.mk.injEq]
      exact ⟨hline.trans (Nat.add_comm _ _), rfl⟩
  rw [Position.ofOffset, h.text_eq, ← List.append_assoc, ← h.start_eq, Position.walk_append,
    List.foldl_append, habove, Position.foldl_advance_of_not_mem h.left, Nat.add_comm 1]

/-! ## 3. Lines that are shown -/

/-- What is shown of the line with which a text begins: what stands before the line feed, less a carriage return
before this; and where no line feed follows all of it, if there is anything. -/
inductive Shows : List Char → List Char → Prop
  | ended {line rest : List Char} (inside : '\n' ∉ line) (noReturn : line.getLast? ≠ some '\r') :
      Shows (line ++ '\n' :: rest) line
  | endedByTwo {line rest : List Char} (inside : '\n' ∉ line) : Shows (line ++ '\r' :: '\n' :: rest) line
  | last {line : List Char} (inside : '\n' ∉ line) (nonempty : line ≠ []) : Shows line line

theorem dropCarriageReturn_append (line : List Char) : dropCarriageReturn (line ++ ['\r']) = line := by
  induction line with
  | nil => rfl
  | cons c line ih =>
    cases line with
    | nil => rfl
    | cons d line => exact congrArg (c :: ·) ih

theorem dropCarriageReturn_of_getLast? {line : List Char} (h : line.getLast? ≠ some '\r') :
    dropCarriageReturn line = line := by
  induction line with
  | nil => rfl
  | cons c line ih =>
    cases line with
    | nil => exact if_neg fun hc => h (congrArg some hc)
    | cons d line =>
      rw [List.getLast?_cons_cons] at h
      exact congrArg (c :: ·) (ih h)

theorem linesFrom_ended {line : List Char} (h : '\n' ∉ line) (rest current : List Char) :
    linesFrom (line ++ '\n' :: rest) current =
      dropCarriageReturn (current.reverse ++ line) :: linesFrom rest [] := by
  induction line generalizing current with
  | nil => rw [List.nil_append, linesFrom, if_pos rfl, List.append_nil]
  | cons c line ih =>
    obtain ⟨hc, hline⟩ := not_or.mp (mt List.mem_cons.mpr h)
    rw [List.cons_append, linesFrom, if_neg (Ne.symm hc), ih hline, List.reverse_cons, List.append_assoc]
    rfl

theorem linesFrom_last {line current : List Char} (h : '\n' ∉ line) (hne : current.reverse ++ line ≠ []) :
    linesFrom line current = [current.reverse ++ line] := by
  induction line generalizing current with
  | nil =>
    cases current with
    | nil => exact absurd rfl hne
    | cons c current => rw [linesFrom, List.append_nil]; nofun
  | cons c line ih =>
    obtain ⟨hc, hline⟩ := not_or.mp (mt List.mem_cons.mpr h)
    have hmove : (c :: current).reverse ++ line = current.reverse ++ c :: line := by
      rw [List.reverse_cons, List.append_assoc]
      rfl
    rw [linesFrom, if_neg (Ne.symm hc), ih hline (hmove ▸ hne), hmove]

/-- Behind whole lines the lines are counted on. -/
theorem getElem?_linesFrom (lines rest current : List Char) :
    (linesFrom (lines ++ '\n' :: rest) current)[lines.count '\n' + 1]? = (linesFrom rest [])[0]? := by
  induction lines generalizing current with
  | nil => rw [List.nil_append, linesFrom, if_pos rfl, List.count_nil, List.getElem?_cons_succ]
  | cons c lines ih =>
    rw [List.cons_append, linesFrom]
    by_cases hc : c = '\n'
    · subst hc
      rw [if_pos rfl, List.count_cons_self, List.getElem?_cons_succ, ih]
    · rw [if_neg hc, List.count_cons_of_ne hc, ih]

/-- **The line of a span is the first one of what stands behind the lines above.** -/
theorem Span.Cuts.getElem?_lines {span : Span} {text : String} {above left covered behind : List Char}
    (h : span.Cuts text.toList above left covered behind) :
    (lines text)[above.count '\n']? = (linesFrom (left ++ (covered ++ behind)) [])[0]? := by
  rw [lines, h.text_eq]
  rcases h.above with rfl | ⟨ended, rfl⟩
  · rfl
  · rw [List.append_assoc, List.count_append]
    exact getElem?_linesFrom ended _ []

namespace Shows

/-- What is shown is the first line. -/
theorem head?_linesFrom {rest line : List Char} (h : Shows rest line) : (linesFrom rest [])[0]? = some line := by
  cases h with
  | ended inside noReturn =>
    rw [linesFrom_ended inside, List.reverse_nil, List.nil_append, dropCarriageReturn_of_getLast? noReturn]
    rfl
  | @endedByTwo _ more inside =>
    have hinside : '\n' ∉ line ++ ['\r'] := by
      rw [List.mem_append, not_or]
      exact ⟨inside, by decide⟩
    have hlines := linesFrom_ended hinside more []
    rw [List.append_assoc, List.reverse_nil, List.nil_append, dropCarriageReturn_append] at hlines
    rw [show line ++ '\r' :: '\n' :: more = line ++ (['\r'] ++ '\n' :: more) from rfl, hlines]
    rfl
  | last inside nonempty =>
    rw [@linesFrom_last _ [] inside nonempty]
    rfl

/-- A line is shown unless nothing follows. -/
theorem exists_of_ne_nil {rest : List Char} (h : rest ≠ []) : ∃ line, Shows rest line := by
  by_cases hmem : '\n' ∈ rest
  · obtain ⟨line, more, rfl, hline⟩ := List.eq_append_cons_of_mem hmem
    by_cases hreturn : line.getLast? = some '\r'
    · obtain ⟨shown, rfl⟩ := List.getLast?_eq_some_iff.mp hreturn
      rw [List.mem_append, not_or] at hline
      exact ⟨shown, by rw [List.append_assoc]; exact .endedByTwo hline.1⟩
    · exact ⟨line, .ended hline hreturn⟩
  · exact ⟨rest, .last hmem h⟩

/-- What is shown is what stands before a place on the line and some of what follows; only between a carriage
return and its line feed the place is behind what is shown. -/
theorem split {left right line : List Char} (h : Shows (left ++ right) line) (hleft : '\n' ∉ left) :
    (∃ onLine rest, line = left ++ onLine ∧ right = onLine ++ rest) ∨
      left = line ++ ['\r'] ∧ ∃ rest, right = '\n' :: rest := by
  generalize htext : left ++ right = text at h
  cases h with
  | @ended _ rest inside noReturn =>
    rcases List.append_eq_append_iff.mp htext with ⟨x, hline, hright⟩ | ⟨x, hl, hx⟩
    · exact .inl ⟨x, _, hline, hright⟩
    · cases x with
      | nil => exact .inl ⟨[], _, by rw [hl, List.append_nil, List.append_nil], hx.symm⟩
      | cons c x =>
        obtain ⟨rfl, -⟩ := List.cons.inj hx
        exact absurd (hl ▸ List.mem_append_right _ List.mem_cons_self) hleft
  | @endedByTwo _ rest inside =>
    rcases List.append_eq_append_iff.mp htext with ⟨x, hline, hright⟩ | ⟨x, hl, hx⟩
    · exact .inl ⟨x, _, hline, hright⟩
    · rcases List.cons_eq_append_iff.mp hx with ⟨rfl, hright⟩ | ⟨y, rfl, hy⟩
      · exact .inl ⟨[], _, by rw [hl, List.append_nil, List.append_nil], hright⟩
      · cases y with
        | nil => exact .inr ⟨hl, rest, hy.symm⟩
        | cons c y =>
          obtain ⟨rfl, -⟩ := List.cons.inj hy
          refine absurd ?_ hleft
          rw [hl]
          exact List.mem_append_right _ (List.mem_cons_of_mem _ List.mem_cons_self)
  | last inside nonempty => exact .inl ⟨right, [], htext.symm, (List.append_nil _).symm⟩

end Shows

/-! ## 4. Characters and bytes -/

theorem length_le_byteLength (cs : List Char) : cs.length ≤ byteLength cs := by
  induction cs with
  | nil => exact Nat.le_refl 0
  | cons c cs ih =>
    have hc := c.utf8Size_pos
    rw [List.length_cons, byteLength_cons]
    omega

/-- There are as many bytes as characters exactly if each has one byte. -/
theorem forall_utf8Size_eq_one_iff {cs : List Char} :
    (∀ c ∈ cs, c.utf8Size = 1) ↔ byteLength cs = cs.length := by
  induction cs with
  | nil => exact iff_of_true nofun rfl
  | cons c cs ih =>
    have hc := c.utf8Size_pos
    have hcs := length_le_byteLength cs
    rw [List.forall_mem_cons, ih, byteLength_cons, List.length_cons]
    omega

namespace Diagnostic

/-! ## 5. Pictures -/

/-- What stands in a picture above the line: the header, and where the span starts. -/
def heading (header : String) (line column : Nat) : String :=
  header ++ "\n  --> line " ++ toString line ++ ":" ++ toString column ++ "\n   |\n"

/-- What stands before the line. -/
def label (line : Nat) : String := lineNumber line ++ "| "

/-- What stands before the caret. -/
def gutter (column : Nat) : String := "   |" ++ run ' ' column

/-- What stands below the marks. -/
def footing : Option String → String
  | some hint => "   = hint: " ++ hint ++ "\n"
  | none => ""

variable {span : Span} {text : String} {above left covered behind line : List Char}

/-- **A picture in its parts.** -/
theorem render_eq (hcuts : span.Cuts text.toList above left covered behind)
    (hline : Shows (left ++ (covered ++ behind)) line) (header : String) (hint : Option String) :
    render text span header hint = heading header (above.count '\n' + 1) (left.length + 1) ++
      label (above.count '\n' + 1) ++ String.ofList line ++ "\n" ++ gutter (left.length + 1) ++ "^" ++
      run '~' (tildes line span (left.length + 1)) ++ "\n" ++ footing hint := by
  have hshown : (lines text)[above.count '\n' + 1 - 1]? = some line :=
    hcuts.getElem?_lines.trans hline.head?_linesFrom
  unfold render
  simp only [hcuts.position, hshown, picture, heading, label, gutter, String.append_assoc]
  cases hint <;> rfl

theorem toList_run (c : Char) (n : Nat) : (run c n).toList = List.replicate n c := String.toList_ofList

theorem length_run (c : Char) (n : Nat) : (run c n).length = n := by
  rw [run, String.length_ofList, List.length_replicate]

/-- A number has three digits at most as long as it is less than a thousand. -/
theorem length_toString_le_iff (n : Nat) : (toString n).length ≤ 3 ↔ n < 1000 := by
  rw [show (toString n).length = (Nat.toDigits 10 n).length from String.length_ofList]
  exact Nat.length_toDigits_le_iff (by decide) (by decide)

/-- A line number is filled up to three characters, but not cut. -/
theorem length_label (n : Nat) : (label n).length = max 3 (toString n).length + 2 := by
  have hbar : "| ".length = 2 := rfl
  rw [label, lineNumber, String.length_append, String.length_append, length_run, hbar]
  omega

theorem length_gutter (column : Nat) : (gutter column).length = 4 + column := by
  rw [gutter, String.length_append, length_run]
  rfl

/-- The caret stands in the column of a character exactly if the line number is less than a thousand. -/
theorem length_gutter_eq_iff (n column : Nat) :
    (gutter (column + 1)).length = (label n).length + column ↔ n < 1000 := by
  have hdigits := length_toString_le_iff n
  rw [length_gutter, length_label]
  omega

/-! ## 6. Marks -/

/-- The number of marks that a span should have: one for each of its characters on the line, and at least one. -/
def marksDue (left covered line : List Char) : Nat := max 1 (min covered.length (line.length - left.length))

/-- There are never fewer marks than there should be. -/
theorem marksDue_le (hcuts : span.Cuts text.toList above left covered behind)
    (hline : Shows (left ++ (covered ++ behind)) line) :
    marksDue left covered line ≤ tildes line span (left.length + 1) + 1 := by
  have hcovered := length_le_byteLength covered
  have hleft := length_le_byteLength left
  rw [marksDue, tildes, ← hcuts.length_eq]
  rcases hline.split hcuts.left with ⟨onLine, rest, rfl, _⟩ | ⟨rfl, _⟩
  · have honLine := length_le_byteLength onLine
    rw [List.length_append, byteLength_append]
    omega
  · rw [List.length_append, List.length_singleton]
    omega

/-- **There are as many marks as there should be exactly if** there is one only, or if every character that is
marked has one byte, and so has, where the span goes on behind the line, every character before it. -/
theorem marks_eq_iff (hcuts : span.Cuts text.toList above left covered behind)
    (hline : Shows (left ++ (covered ++ behind)) line) :
    tildes line span (left.length + 1) + 1 = marksDue left covered line ↔
      tildes line span (left.length + 1) = 0 ∨
        (∀ c ∈ covered.take (line.length - left.length), c.utf8Size = 1) ∧
          (covered.length ≤ line.length - left.length ∨ ∀ c ∈ left, c.utf8Size = 1) := by
  have hleft := length_le_byteLength left
  rw [marksDue, tildes, ← hcuts.length_eq, forall_utf8Size_eq_one_iff, forall_utf8Size_eq_one_iff]
  rcases hline.split hcuts.left with ⟨onLine, rest, rfl, hright⟩ | ⟨rfl, _⟩
  · rw [List.length_append, byteLength_append, Nat.add_sub_cancel_left]
    -- the span ends on the line, or goes on behind it
    rcases List.append_eq_append_iff.mp hright with ⟨x, rfl, _⟩ | ⟨x, rfl, _⟩
    · have hcovered := length_le_byteLength covered
      rw [List.length_append, byteLength_append, List.take_of_length_le (Nat.le_add_right _ _)]
      omega
    · have honLine := length_le_byteLength onLine
      have hx := length_le_byteLength x
      have hnil : x.length = 0 → byteLength x = 0 := fun h => by rw [List.length_eq_zero_iff.mp h, byteLength_nil]
      rw [List.length_append, byteLength_append, List.take_left']
      · omega
      · rfl
  · have hcovered := length_le_byteLength covered
    have hnil : covered.length = 0 → byteLength covered = 0 := fun h => by
      rw [List.length_eq_zero_iff.mp h, byteLength_nil]
    have hlength : (line ++ ['\r']).length = line.length + 1 := List.length_append
    have hbytes : byteLength (line ++ ['\r']) = byteLength line + 1 := byteLength_append _ _
    rw [hlength, hbytes] at hleft ⊢
    rw [Nat.sub_eq_zero_of_le (Nat.le_succ _), List.take_zero]
    simp only [byteLength_nil, List.length_nil, true_and]
    omega

theorem newline_notMem_label (n : Nat) : '\n' ∉ (label n).toList := by
  have hdigits : '\n' ∉ (toString n).toList := by
    intro h
    have htoList : (toString n).toList = Nat.toDigits 10 n := String.toList_ofList
    rw [htoList] at h
    exact absurd (Nat.isDigit_of_mem_toDigits (by decide) (by decide) h) (by decide)
  rw [label, lineNumber, String.toList_append, String.toList_append, List.mem_append, List.mem_append, not_or, not_or,
    toList_run]
  exact ⟨⟨fun h => absurd (List.eq_of_mem_replicate h) (by decide), hdigits⟩, by decide⟩

theorem notMem_gutter {c : Char} (hc : c ∉ "   |".toList) (column : Nat) : c ∉ (gutter column).toList := by
  rw [gutter, String.toList_append, List.mem_append, not_or, toList_run]
  refine ⟨hc, fun h => hc ?_⟩
  have hblank : c = ' ' := List.eq_of_mem_replicate h
  rw [hblank]
  decide

/-- **Where the caret stands, and how many marks there are.** Every span that starts and stops between characters
cuts the text up, and unless nothing follows the lines above, the line on which it starts is shown. The picture has
this line behind a label and under it the marks behind a gutter. The caret stands in the column in which the span
starts exactly if the line number is less than a thousand. There are never fewer marks than characters of the span
on the line, and at least one; there are exactly as many if and only if there is one mark, or the characters that
are marked have one byte each, and so have those before them where the span goes on behind the line. -/
theorem caret_under_start (text : String) (span : Span) (header : String) (hint : Option String)
    (hstart : IsBoundary text.toList span.start) (hstop : IsBoundary text.toList span.stop) :
    (∃ above left covered behind, span.Cuts text.toList above left covered behind) ∧
    ∀ above left covered behind, span.Cuts text.toList above left covered behind →
      (left ++ (covered ++ behind) = [] ∧ (lines text)[above.count '\n']? = none ∨
        ∃ line, Shows (left ++ (covered ++ behind)) line) ∧
      ∀ line, Shows (left ++ (covered ++ behind)) line →
        render text span header hint = heading header (above.count '\n' + 1) (left.length + 1) ++
          label (above.count '\n' + 1) ++ String.ofList line ++ "\n" ++ gutter (left.length + 1) ++ "^" ++
          run '~' (tildes line span (left.length + 1)) ++ "\n" ++ footing hint ∧
        '\n' ∉ (label (above.count '\n' + 1)).toList ∧ '\n' ∉ (gutter (left.length + 1)).toList ∧
        '^' ∉ (gutter (left.length + 1)).toList ∧
        ((gutter (left.length + 1)).length = (label (above.count '\n' + 1)).length + left.length ↔
          above.count '\n' + 1 < 1000) ∧
        marksDue left covered line ≤ tildes line span (left.length + 1) + 1 ∧
        (tildes line span (left.length + 1) + 1 = marksDue left covered line ↔
          tildes line span (left.length + 1) = 0 ∨
            (∀ c ∈ covered.take (line.length - left.length), c.utf8Size = 1) ∧
              (covered.length ≤ line.length - left.length ∨ ∀ c ∈ left, c.utf8Size = 1)) := by
  refine ⟨Span.exists_cuts hstart hstop, fun above left covered behind hcuts => ⟨?_, fun line hline => ?_⟩⟩
  · by_cases hempty : left ++ (covered ++ behind) = []
    · refine .inl ⟨hempty, ?_⟩
      rw [hcuts.getElem?_lines, hempty]
      rfl
    · exact .inr (Shows.exists_of_ne_nil hempty)
  · exact ⟨render_eq hcuts hline header hint, newline_notMem_label _, notMem_gutter (by decide) _,
      notMem_gutter (by decide) _, length_gutter_eq_iff _ _, marksDue_le hcuts hline, marks_eq_iff hcuts hline⟩

/-- On the second line, behind an umlaut and before a carriage return, the caret stands under the start of the span,
and there are three marks for three characters. -/
theorem caret_under_age :
    IsBoundary "name=Bo\r\nä age\r\n".toList 12 ∧ IsBoundary "name=Bo\r\nä age\r\n".toList 15 ∧
      (gutter 3).length = (label 2).length + 2 ∧ tildes "ä age".toList ⟨12, 15⟩ 3 + 1 = 3 := by
  have hstart : IsBoundary "name=Bo\r\nä age\r\n".toList 12 := by decide
  have hstop : IsBoundary "name=Bo\r\nä age\r\n".toList 15 := by decide
  have hcuts : (Span.mk 12 15).Cuts "name=Bo\r\nä age\r\n".toList "name=Bo\r\n".toList "ä ".toList "age".toList
      "\r\n".toList := ⟨by decide, by decide, by decide, .inr ⟨"name=Bo\r".toList, by decide⟩, by decide⟩
  have hline : Shows ("ä ".toList ++ ("age".toList ++ "\r\n".toList)) "ä age".toList :=
    @Shows.endedByTwo "ä age".toList [] (by decide)
  obtain ⟨_, _, _, _, hcaret, _, hmarks⟩ :=
    ((caret_under_start _ _ "fault" none hstart hstop).2 _ _ _ _ hcuts).2 _ hline
  have hbytes := forall_utf8Size_eq_one_iff.mpr (show byteLength "age".toList = 3 by decide)
  exact ⟨hstart, hstop, hcaret.mpr (by decide), hmarks.mpr (.inr ⟨hbytes, .inl (by decide)⟩)⟩

/-- The cut before a letter that stands behind empty lines. -/
theorem cuts_behind_empty_lines (n : Nat) (c : Char) :
    (Span.mk n (n + c.utf8Size)).Cuts (List.replicate n '\n' ++ [c]) (List.replicate n '\n') [] [c] [] where
  text_eq := rfl
  start_eq := by
    rw [List.append_nil]
    induction n with
    | zero => rfl
    | succ n ih => rw [List.replicate_succ, byteLength_cons, ih, Nat.add_comm]; rfl
  length_eq := by simp [Span.length]
  above := by
    cases n with
    | zero => exact .inl rfl
    | succ n => exact .inr ⟨_, List.replicate_succ'⟩
  left := List.not_mem_nil

/-- An umlaut has two marks, and on the thousandth line the caret stands before the character that it points at. -/
theorem marks_astray :
    ((Span.mk 0 2).Cuts "ä".toList [] [] ['ä'] [] ∧ Shows ['ä'] ['ä'] ∧ marksDue [] ['ä'] ['ä'] = 1 ∧
      render "ä" ⟨0, 2⟩ "fault" none = "fault\n  --> line 1:1\n   |\n  1| ä\n   | ^~\n") ∧
    render (String.ofList (List.replicate 999 '\n' ++ ['a'])) ⟨999, 1000⟩ "fault" none =
      "fault\n  --> line 1000:1\n   |\n1000| a\n   | ^\n" := by
  refine ⟨⟨⟨by decide, rfl, rfl, .inl rfl, by decide⟩, .last (by decide) (by decide), rfl, ?_⟩, ?_⟩
  · decide +kernel
  · have hcuts := cuts_behind_empty_lines 999 'a'
    rw [← String.toList_ofList (l := List.replicate 999 '\n' ++ ['a'])] at hcuts
    have hline : Shows ([] ++ (['a'] ++ [])) ['a'] := .last (by decide) (by decide)
    rw [show (⟨999, 1000⟩ : Span) = ⟨999, 999 + 'a'.utf8Size⟩ from rfl, render_eq hcuts hline,
      List.count_replicate_self]
    decide +kernel

end Diagnostic

end ContextualQuery
