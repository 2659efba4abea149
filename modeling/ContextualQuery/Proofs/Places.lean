import ContextualQuery.Proofs.Lexing
/-!
# Places that can be shown

A span can be cut out of a text if it starts and stops where a character starts or the text ends, and does
not stop before it starts.

* `IsBoundary`: such an offset, and `cutAt?`, which cuts a text there;
* `Span.slice?`: what is cut out, and `Span.Marks`, `Span.Within`: a span marks these characters, or any;
  `Span.slice?_eq_some_iff` and `Span.within_iff` relate the three;
* `Span.Within.merge`: a span that covers two that can be cut out can be cut out too;
* `Span.Between`, `InOrder`: a span lies between two offsets, and the spans of several values lie there one
  behind the other;
* `Lexer.Stands.items`: every token and every fault that the lexer takes has such a span, that of a word marks
  the word, and they stand one behind the other; one step of the lexer keeps track of its place, and so does
  a run.
-/

namespace ContextualQuery

/-! ## 1. Boundaries -/

/-- A character starts at the offset, or the text ends there. -/
def IsBoundary (text : List Char) (n : Nat) : Prop :=
  ∃ before after, text = before ++ after ∧ byteLength before = n

/-- A text in two parts, of which the first has so many bytes. -/
def cutAt? : List Char → Nat → Option (List Char × List Char)
  | cs, 0 => some ([], cs)
  | [], _ + 1 => none
  | c :: cs, n + 1 =>
    if c.utf8Size ≤ n + 1 then (cutAt? cs (n + 1 - c.utf8Size)).map fun r => (c :: r.1, r.2) else none

theorem byteLength_eq_zero_iff {cs : List Char} : byteLength cs = 0 ↔ cs = [] := by
  cases cs with
  | nil => exact ⟨fun _ => rfl, fun _ => rfl⟩
  | cons c cs =>
    have hc := c.utf8Size_pos
    rw [byteLength_cons]
    exact ⟨fun h => by omega, nofun⟩

theorem cutAt?_eq_some_iff {text before after : List Char} {n : Nat} :
    cutAt? text n = some (before, after) ↔ text = before ++ after ∧ byteLength before = n := by
  induction text generalizing n before with
  | nil =>
    cases n with
    | zero =>
      rw [cutAt?, byteLength_eq_zero_iff]
      grind
    | succ n =>
      rw [cutAt?]
      constructor
      · nofun
      · intro h
        obtain ⟨h, hn⟩ := h
        obtain ⟨rfl, rfl⟩ := List.append_eq_nil_iff.mp h.symm
        cases hn
  | cons c cs ih =>
    cases n with
    | zero =>
      rw [cutAt?, byteLength_eq_zero_iff]
      grind
    | succ n =>
      have hc := c.utf8Size_pos
      rw [cutAt?]
      constructor
      · intro h
        split at h
        · obtain ⟨⟨b, a⟩, hcut, he⟩ := Option.map_eq_some_iff.mp h
          cases he
          obtain ⟨rfl, hn⟩ := ih.mp hcut
          refine ⟨rfl, ?_⟩
          rw [byteLength_cons, hn]
          omega
        · cases h
      · intro h
        obtain ⟨h, hn⟩ := h
        cases before with
        | nil => cases hn
        | cons d before =>
          cases h
          rw [byteLength_cons] at hn
          have hcut : cutAt? (before ++ after) (n + 1 - c.utf8Size) = some (before, after) :=
            ih.mpr ⟨rfl, by omega⟩
          rw [if_pos (by omega)]
          show (cutAt? (before ++ after) _).map _ = _
          rw [hcut]
          rfl

theorem isBoundary_iff {text : List Char} {n : Nat} :
    IsBoundary text n ↔ (cutAt? text n).isSome = true := by
  rw [Option.isSome_iff_exists]
  constructor
  · intro h
    obtain ⟨before, after, h⟩ := h
    exact ⟨(before, after), cutAt?_eq_some_iff.mpr h⟩
  · intro h
    obtain ⟨⟨before, after⟩, h⟩ := h
    exact ⟨before, after, cutAt?_eq_some_iff.mp h⟩

instance (text : List Char) (n : Nat) : Decidable (IsBoundary text n) :=
  decidable_of_iff _ isBoundary_iff.symm

theorem IsBoundary.le {text : List Char} {n : Nat} (h : IsBoundary text n) : n ≤ byteLength text := by
  obtain ⟨before, after, rfl, rfl⟩ := h
  rw [byteLength_append]
  omega

/-- The characters between two boundaries. -/
theorem IsBoundary.between {text : List Char} {m n : Nat} (hm : IsBoundary text m)
    (hn : IsBoundary text n) (h : m ≤ n) : ∃ before mid after, text = before ++ (mid ++ after) ∧
      byteLength before = m ∧ m + byteLength mid = n := by
  obtain ⟨before, rest, rfl, rfl⟩ := hm
  obtain ⟨all, after, he, rfl⟩ := hn
  rcases List.append_eq_append_iff.mp he with ⟨mid, rfl, rfl⟩ | ⟨more, rfl, rfl⟩
  · exact ⟨before, mid, after, rfl, rfl, by rw [byteLength_append]⟩
  · rw [byteLength_append] at h
    have hmore : more = [] := byteLength_eq_zero_iff.mp (by omega)
    subst hmore
    exact ⟨all, [], rest, by simp, by simp, by simp⟩

theorem utf8ByteSize_eq (text : String) : text.utf8ByteSize = byteLength text.toList := by
  have hlist (cs : List Char) : (String.ofList cs).utf8ByteSize = byteLength cs := by
    induction cs with
    | nil => rfl
    | cons c cs ih =>
      have hcons : String.ofList (c :: cs) = String.singleton c ++ String.ofList cs :=
        String.toList_inj.mp (by simp)
      rw [hcons, String.utf8ByteSize_append, String.utf8ByteSize_singleton, ih, byteLength_cons]
  rw [← hlist, String.ofList_toList]

/-! ## 2. Spans -/

namespace Span

/-- The characters that a span marks in a text. -/
def Marks (s : Span) (text x : List Char) : Prop :=
  ∃ before after, text = before ++ (x ++ after) ∧
    s = ⟨byteLength before, byteLength before + byteLength x⟩

/-- The span marks some characters of the text. -/
def Within (s : Span) (text : List Char) : Prop := ∃ x, s.Marks text x

/-- What a span cuts out of a text, if it can be cut out. -/
def slice? (s : Span) (text : String) : Option String :=
  (cutAt? text.toList s.start).bind fun r =>
    if s.start ≤ s.stop then (cutAt? r.2 (s.stop - s.start)).map fun m => String.ofList m.1 else none

/-- The span marks something, and stops before another one starts. -/
def Before (s t : Span) : Prop := s.start < s.stop ∧ s.stop ≤ t.start

variable {s t : Span} {text x : List Char}

/-- **A span can be cut out exactly if it marks some characters, and gives them.** -/
theorem slice?_eq_some_iff {text x : String} :
    s.slice? text = some x ↔ s.Marks text.toList x.toList := by
  unfold slice?
  rw [Option.bind_eq_some_iff]
  constructor
  · intro h
    obtain ⟨⟨before, rest⟩, hcut, h⟩ := h
    obtain ⟨htext, hstart⟩ := cutAt?_eq_some_iff.mp hcut
    split at h
    · obtain ⟨⟨mid, after⟩, hcut, rfl⟩ := Option.map_eq_some_iff.mp h
      obtain ⟨rfl, hstop⟩ := cutAt?_eq_some_iff.mp hcut
      refine ⟨before, after, by rw [String.toList_ofList]; exact htext, ?_⟩
      rw [String.toList_ofList, hstart, hstop, Nat.add_sub_cancel' ‹_›]
    · cases h
  · intro h
    obtain ⟨before, after, htext, rfl⟩ := h
    refine ⟨(before, x.toList ++ after), cutAt?_eq_some_iff.mpr ⟨htext, rfl⟩, ?_⟩
    have hcut : cutAt? (x.toList ++ after) (byteLength before + byteLength x.toList - byteLength before) =
        some (x.toList, after) := cutAt?_eq_some_iff.mpr ⟨rfl, by omega⟩
    rw [if_pos (by simp), hcut, Option.map_some, String.ofList_toList]

theorem within_iff : s.Within text ↔
    s.start ≤ s.stop ∧ IsBoundary text s.start ∧ IsBoundary text s.stop := by
  constructor
  · intro h
    obtain ⟨x, before, after, rfl, rfl⟩ := h
    refine ⟨by simp, ⟨before, x ++ after, rfl, rfl⟩, before ++ x, after, ?_, ?_⟩
    · rw [List.append_assoc]
    · rw [byteLength_append]
  · intro h
    obtain ⟨hle, hstart, hstop⟩ := h
    obtain ⟨before, mid, after, htext, hbefore, hmid⟩ := hstart.between hstop hle
    refine ⟨mid, before, after, htext, ?_⟩
    rw [hbefore, hmid]

theorem isSome_slice?_iff {text : String} : (s.slice? text).isSome = true ↔ s.Within text.toList := by
  rw [Option.isSome_iff_exists]
  constructor
  · intro h
    obtain ⟨x, hx⟩ := h
    exact ⟨x.toList, slice?_eq_some_iff.mp hx⟩
  · intro h
    obtain ⟨x, hx⟩ := h
    refine ⟨String.ofList x, slice?_eq_some_iff.mpr ?_⟩
    rw [String.toList_ofList]
    exact hx

theorem Marks.within (h : s.Marks text x) : s.Within text := ⟨x, h⟩

/-- **A span that covers two that can be cut out can be cut out.** -/
theorem Within.merge (hs : s.Within text) (ht : t.Within text) : (s.merge t).Within text := by
  obtain ⟨hsle, hsstart, hsstop⟩ := within_iff.mp hs
  obtain ⟨htle, htstart, htstop⟩ := within_iff.mp ht
  refine within_iff.mpr ⟨?_, ?_, ?_⟩
  · show min s.start t.start ≤ max s.stop t.stop
    omega
  · show IsBoundary text (min s.start t.start)
    rcases Nat.le_total s.start t.start with h | h
    · rwa [Nat.min_eq_left h]
    · rwa [Nat.min_eq_right h]
  · show IsBoundary text (max s.stop t.stop)
    rcases Nat.le_total s.stop t.stop with h | h
    · rwa [Nat.max_eq_right h]
    · rwa [Nat.max_eq_left h]

/-- The end of a text can be cut out, and is empty. -/
theorem within_end (text : String) : (Span.mk text.utf8ByteSize text.utf8ByteSize).Within text.toList := by
  have hsize := utf8ByteSize_eq text
  refine ⟨[], text.toList, [], by simp, ?_⟩
  rw [hsize]
  rfl

end Span

/-- The span marks something between two offsets. -/
structure Span.Between (s : Span) (m n : Nat) : Prop where
  start : m ≤ s.start
  nonempty : s.start < s.stop
  stop : s.stop ≤ n

namespace Span.Between

variable {s t : Span} {m n k : Nat}

theorem lt (h : s.Between m n) : m < n := by
  obtain ⟨hstart, hnonempty, hstop⟩ := h
  omega

/-- A span that covers two of which one is behind the other. -/
theorem merge (hs : s.Between m n) (ht : t.Between n k) : (s.merge t).Between m k := by
  obtain ⟨hsstart, hs, hsstop⟩ := hs
  obtain ⟨htstart, ht, htstop⟩ := ht
  refine ⟨?_, ?_, ?_⟩
  · show m ≤ min s.start t.start
    omega
  · show min s.start t.start < max s.stop t.stop
    omega
  · show max s.stop t.stop ≤ k
    omega

end Span.Between

/-! ## 3. One behind the other -/

/-- Values with a property whose spans lie one behind the other between two offsets. -/
inductive InOrder {α : Type} (good : α → Prop) (span : α → Span) : Nat → List α → Nat → Prop
  | nil {m n : Nat} (h : m ≤ n) : InOrder good span m [] n
  | cons {m k n : Nat} {a : α} {as : List α} (ha : good a) (hspan : (span a).Between m k)
      (has : InOrder good span k as n) : InOrder good span m (a :: as) n

namespace InOrder

variable {α : Type} {good : α → Prop} {span : α → Span} {m n k : Nat} {a : α} {as bs : List α}

theorem le (h : InOrder good span m as n) : m ≤ n := by
  induction h with
  | nil h => exact h
  | cons _ hspan _ ih => exact Nat.le_trans (Nat.le_of_lt hspan.lt) ih

theorem from_earlier (h : InOrder good span m as n) (hk : k ≤ m) : InOrder good span k as n := by
  cases h with
  | nil h => exact .nil (Nat.le_trans hk h)
  | cons ha hspan has => exact .cons ha ⟨Nat.le_trans hk hspan.start, hspan.nonempty, hspan.stop⟩ has

theorem append (has : InOrder good span m as n) (hbs : InOrder good span n bs k) :
    InOrder good span m (as ++ bs) k := by
  induction has with
  | nil h => exact hbs.from_earlier h
  | cons ha hspan _ ih => exact .cons ha hspan (ih hbs)

theorem to_later (h : InOrder good span m as n) (hk : n ≤ k) : InOrder good span m as k := by
  have happend := h.append (.nil hk)
  rwa [List.append_nil] at happend

theorem singleton (ha : good a) (hspan : (span a).Between m n) : InOrder good span m [a] n :=
  .cons ha hspan (.nil (Nat.le_refl n))

theorem of_mem (h : InOrder good span m as n) (ha : a ∈ as) : good a ∧ (span a).Between m n := by
  induction h with
  | nil _ => cases ha
  | cons hb hspan hrest ih =>
    rcases List.mem_cons.mp ha with rfl | ha
    · exact ⟨hb, hspan.start, hspan.nonempty, Nat.le_trans hspan.stop hrest.le⟩
    · obtain ⟨hgood, hstart, hnonempty, hstop⟩ := ih ha
      exact ⟨hgood, Nat.le_trans (Nat.le_of_lt hspan.lt) hstart, hnonempty, hstop⟩

/-- **What stands in order comes in pairs of which one is before the other.** -/
theorem pairwise (h : InOrder good span m as n) :
    as.Pairwise fun a b => (span a).Before (span b) := by
  induction h with
  | nil _ => exact .nil
  | cons _ hspan hrest ih =>
    refine .cons (fun b hb => ⟨hspan.nonempty, ?_⟩) ih
    exact Nat.le_trans hspan.stop (hrest.of_mem hb).2.start

end InOrder

/-! ## 4. Items -/

/-- The span of an item. -/
def Item.span : Item → Span
  | .error f => f.span
  | .ok t => t.span

/-- The span of an item can be cut out of the text, and gives the word if the item is one. -/
def Item.Placed (text : List Char) : Item → Prop
  | .error f => f.span.Within text
  | .ok t => t.span.Within text ∧ ∀ w, t.value = .word w → t.span.Marks text w.toList

namespace Lexer

variable {text : List Char} {l l' : Lexer} {i : Item}

/-- The lexer stands in the text: what follows is its rest, and the bytes before are counted. -/
def Stands (text : List Char) (l : Lexer) : Prop :=
  ∃ before, text = before ++ l.rest ∧ l.offset = byteLength before

theorem stands_ofText (text : String) : (ofText text).Stands text.toList := ⟨[], rfl, rfl⟩

theorem Stands.skipSeparators (h : l.Stands text) : l.skipSeparators.Stands text := by
  obtain ⟨before, rfl, hoffset⟩ := h
  refine ⟨before ++ l.rest.takeWhile isSeparator, ?_, ?_⟩
  · show _ = _ ++ l.rest.dropWhile isSeparator
    rw [List.append_assoc, List.takeWhile_append_dropWhile]
  · show l.offset + _ = _
    rw [hoffset, byteLength_append]

theorem Stands.offset_le (h : l.Stands text) : l.offset ≤ byteLength text := by
  obtain ⟨before, rfl, hoffset⟩ := h
  rw [byteLength_append]
  omega

/-- The fault at a place can be shown, and marks something. -/
theorem Stands.faultAt (h : l.Stands text) {c : Char} {cs : List Char} (hc : l.rest = c :: cs) :
    (l.faultAt c).span.Within text ∧ (l.faultAt c).span.Between l.offset (byteLength text) := by
  obtain ⟨before, rfl, hoffset⟩ := h
  have hsize := c.utf8Size_pos
  have hrest : byteLength l.rest = c.utf8Size + byteLength cs := by rw [hc, byteLength_cons]
  have htext : byteLength (before ++ l.rest) = l.offset + byteLength l.rest := by
    rw [byteLength_append, hoffset]
  unfold Lexer.faultAt
  split
  · refine ⟨⟨l.rest, before, [], by simp, ?_⟩, Nat.le_refl _, ?_, Nat.le_of_eq htext.symm⟩
    · show Span.mk l.offset (l.offset + byteLength l.rest) = _
      rw [hoffset]
    · show l.offset < l.offset + byteLength l.rest
      omega
  · refine ⟨⟨[c], before, cs, by rw [hc]; rfl, ?_⟩, Nat.le_refl _, ?_, ?_⟩
    · show Span.mk l.offset (l.offset + c.utf8Size) = _
      rw [hoffset]
      rfl
    · show l.offset < l.offset + c.utf8Size
      omega
    · show l.offset + c.utf8Size ≤ _
      omega

/-- **What is taken next has its place, and the lexer stands behind it.** -/
theorem Stands.next (h : l.Stands text) (hn : l.next = some (i, l')) :
    i.Placed text ∧ i.span.Between l.offset l'.offset ∧ l'.Stands text := by
  have hskip := h.skipSeparators
  have hlater : l.offset ≤ l.skipSeparators.offset := Nat.le_add_right _ _
  unfold Lexer.next at hn
  simp only at hn
  split at hn
  · cases hn
  · rename_i c cs hc
    split at hn
    · rename_i t lexeme rest hs
      cases hn
      obtain ⟨hcat, hlexeme⟩ := scan_append hs
      obtain ⟨before, htext, hoffset⟩ := hskip
      have hmarks : (Span.mk l.skipSeparators.offset
          (l.skipSeparators.offset + byteLength lexeme)).Marks text lexeme := by
        refine ⟨before, rest, ?_, by rw [hoffset]⟩
        rw [htext, hcat]
      refine ⟨⟨hmarks.within, fun w hw => ?_⟩, ⟨hlater, ?_, Nat.le_refl _⟩, before ++ lexeme, ?_, ?_⟩
      · have hword : scan l.skipSeparators.rest = some (.word w, lexeme, rest) := by
          rw [hs]
          exact congrArg (fun v => some (v, lexeme, rest)) hw
        rw [(of_scan_word hword).1]
        exact hmarks
      · have hsize : byteLength lexeme ≠ 0 := fun h => hlexeme (byteLength_eq_zero_iff.mp h)
        show l.skipSeparators.offset < l.skipSeparators.offset + byteLength lexeme
        omega
      · rw [htext, hcat, List.append_assoc]
      · show l.skipSeparators.offset + _ = _
        rw [hoffset, byteLength_append]
    · cases hn
      have hend : l.skipSeparators.atEnd.offset = byteLength text := by
        obtain ⟨before, htext, hoffset⟩ := hskip
        show l.skipSeparators.offset + byteLength l.skipSeparators.rest = _
        rw [hoffset, htext, byteLength_append]
      obtain ⟨hwithin, hstart, hnonempty, hstop⟩ := hskip.faultAt hc
      refine ⟨hwithin, ⟨Nat.le_trans hlater hstart, hnonempty, hend ▸ hstop⟩, text, ?_, hend⟩
      exact (List.append_nil text).symm

/-- **Everything that is taken has its place, one behind the other.** -/
theorem Stands.items (h : l.Stands text) :
    InOrder (Item.Placed text) Item.span l.offset l.items (byteLength text) := by
  induction l using Lexer.items.induct with
  | case1 l hn =>
    rw [items_of_next_none hn]
    exact .nil h.offset_le
  | case2 l i l' hn ih =>
    obtain ⟨hi, hspan, hl'⟩ := h.next hn
    rw [items_of_next_some hn]
    exact .cons hi hspan (ih hl')

end Lexer

end ContextualQuery
