import ContextualQuery.Json.Reading
import ContextualQuery.Json.Writing
import ContextualQuery.Proofs.Instants
import Mathlib.Data.List.DropRight
/-!
# JSON texts that are written and read again

A document that is written over several lines is read again, as far as a shape looks at it: if the shape
names every member, if the numbers are natural and of 64 bits, and if arrays and objects nest no deeper than
the reader goes.

* `characters?_writeChar`, `characters?_flatMap`: characters inside a text, escaped or not;
* `numeral?_toDigits`, `scalar?_natural`: natural numbers, up to what is no part of a number;
* `Takes`, with one rule for each step that a reader makes of arrays, objects and their parts;
* `Fits`: what is read in full under a shape, and `Reads`: a reader takes a value from its text;
* `reads_array`, `reads_object` and, by induction on the depth, `reads_writeLines`;
* `readAs?_pretty`.
-/

namespace ContextualQuery.Json

/-! ## 1. Texts -/

theorem hexValue?_digitChar : ∀ n < 16, hexValue? (Nat.digitChar n) = some n := by decide

/-- A control character is read from its code. -/
theorem escape?_code {c : Char} (h : c.toNat < 0x20) (input : List Char) :
    escape? ('u' :: '0' :: '0' :: Nat.digitChar (c.toNat / 16) :: Nat.digitChar (c.toNat % 16) ::
      input) = some (c, input) := by
  have hhex : hex4? '0' '0' (Nat.digitChar (c.toNat / 16)) (Nat.digitChar (c.toNat % 16)) =
      some c.toNat := by
    have hzero : hexValue? '0' = some 0 := by decide
    unfold hex4?
    rw [hzero, hexValue?_digitChar _ (by omega), hexValue?_digitChar _ (by omega)]
    show some (4096 * 0 + 256 * 0 + 16 * (c.toNat / 16) + c.toNat % 16) = some c.toNat
    rw [show 4096 * 0 + 256 * 0 + 16 * (c.toNat / 16) + c.toNat % 16 = c.toNat by omega]
  have hunit : ofUnit? c.toNat input = some (c, input) := by
    unfold ofUnit?
    rw [if_neg (by omega), if_neg (by omega), Char.ofNat_toNat]
  show (hex4? _ _ _ _).bind _ = _
  rw [hhex]
  exact hunit

theorem characters?_quote (input : List Char) :
    characters? (Char.ofNat 0x22 :: input) = some ([], input) := by
  rw [characters?, if_pos rfl]

theorem characters?_escape {c : Char} {escape input cs rest : List Char}
    (he : escape? escape = some (c, input)) (h : characters? input = some (cs, rest)) :
    characters? ('\\' :: escape) = some (c :: cs, rest) := by
  rw [characters?, if_neg (by decide), if_pos rfl]
  split
  · rename_i hnone
    cases hnone.symm.trans he
  · rename_i e after hsome
    cases hsome.symm.trans he
    rw [h]
    rfl

theorem characters?_plain {c : Char} {input cs rest : List Char} (hquote : c ≠ Char.ofNat 0x22)
    (hslash : c ≠ '\\') (hcontrol : ¬ c.toNat < 0x20) (h : characters? input = some (cs, rest)) :
    characters? (c :: input) = some (c :: cs, rest) := by
  rw [characters?, if_neg hquote, if_neg hslash, if_neg hcontrol, h]
  rfl

/-- A character inside a text is read again, escaped or not. -/
theorem characters?_writeChar (c : Char) {input cs rest : List Char}
    (h : characters? input = some (cs, rest)) :
    characters? (writeChar c ++ input) = some (c :: cs, rest) := by
  unfold writeChar
  by_cases hmark : c = Char.ofNat 0x22 ∨ c = '\\'
  · rw [if_pos hmark]
    refine characters?_escape ?_ h
    rcases hmark with rfl | rfl <;> rfl
  · rw [if_neg hmark]
    by_cases hb : c = '\x08'
    · subst hb
      exact characters?_escape rfl h
    by_cases hf : c = '\x0c'
    · subst hf
      exact characters?_escape rfl h
    by_cases hn : c = '\n'
    · subst hn
      exact characters?_escape rfl h
    by_cases hr : c = '\r'
    · subst hr
      exact characters?_escape rfl h
    by_cases ht : c = '\t'
    · subst ht
      exact characters?_escape rfl h
    rw [if_neg hb, if_neg hf, if_neg hn, if_neg hr, if_neg ht]
    by_cases hcontrol : c.toNat < 0x20
    · rw [if_pos hcontrol]
      exact characters?_escape (escape?_code hcontrol input) h
    · rw [if_neg hcontrol]
      exact characters?_plain (fun h => hmark (.inl h)) (fun h => hmark (.inr h)) hcontrol h

/-- **A text is read up to its closing quote.** -/
theorem characters?_flatMap (cs rest : List Char) :
    characters? (cs.flatMap writeChar ++ Char.ofNat 0x22 :: rest) = some (cs, rest) := by
  induction cs with
  | nil => exact characters?_quote rest
  | cons c cs ih =>
    rw [List.flatMap_cons, List.append_assoc]
    exact characters?_writeChar c ih

/-! ## 2. Natural numbers -/

/-- What may follow a number: nothing that could be a part of it. -/
def AfterNumber (cs : List Char) : Prop :=
  ∀ c rest, cs = c :: rest → c.isDigit = false ∧ c ≠ '.' ∧ c ≠ 'e' ∧ c ≠ 'E'

theorem AfterNumber.afterDigits {cs : List Char} (h : AfterNumber cs) : AfterDigits cs :=
  fun c rest hc => (h c rest hc).1

theorem takeDigits_append {ds rest : List Char} (h : AreDigits ds) (hafter : AfterDigits rest) :
    takeDigits (ds ++ rest) = (ds, rest) := by
  have hnone := takeWhile_afterDigits hafter
  have hall := List.takeWhile_append_dropWhile (p := Char.isDigit) (l := rest)
  rw [hnone, List.nil_append] at hall
  unfold takeDigits
  rw [List.takeWhile_append_of_pos h.digit, hnone, List.append_nil,
    List.dropWhile_append_of_pos h.digit, hall]

theorem takeFraction?_none {cs : List Char} (h : AfterNumber cs) : takeFraction? cs = some (none, cs) := by
  unfold takeFraction?
  split
  · rename_i more
    exact absurd rfl (h '.' more rfl).2.1
  · rfl

theorem takeExponent?_none {cs : List Char} (h : AfterNumber cs) : takeExponent? cs = some (none, cs) := by
  cases cs with
  | nil => rfl
  | cons c rest =>
    obtain ⟨_, _, hlower, hupper⟩ := h c rest rfl
    rw [takeExponent?, if_neg (fun h => h.elim hlower hupper)]

theorem le_ofDigitChars (ds : List Char) (n : Nat) : n ≤ Nat.ofDigitChars 10 ds n := by
  induction ds generalizing n with
  | nil => exact Nat.le_refl n
  | cons d ds ih =>
    rw [Nat.ofDigitChars_cons]
    exact Nat.le_trans (by omega) (ih _)

/-- All digits are gathered if the number fits. -/
theorem gather_eq {ds : List Char} {n : Nat} (h : Nat.ofDigitChars 10 ds n < UInt64.size) :
    gather n ds = (Nat.ofDigitChars 10 ds n, []) := by
  induction ds generalizing n with
  | nil => rfl
  | cons d ds ih =>
    rw [Nat.ofDigitChars_cons] at h ⊢
    have hnext : 10 * n + digitValue d < UInt64.size := Nat.lt_of_le_of_lt (le_ofDigitChars ds _) h
    rw [gather, if_pos hnext]
    exact ih h

/-- No number but zero begins with a zero. -/
theorem head_toDigits {n : Nat} (h : 0 < n) : (Nat.toDigits 10 n).head? ≠ some '0' := by
  induction n using Nat.strongRecOn with
  | ind n ih =>
    by_cases hn : n < 10
    · rw [Nat.toDigits_of_lt_base hn]
      have hdigits : ∀ n < 10, 0 < n → [Nat.digitChar n].head? ≠ some '0' := by decide
      exact hdigits n hn h
    · have hhead := ih (n / 10) (by omega) (by omega)
      rw [Nat.toDigits_of_base_le (by omega) (by omega), List.head?_append]
      cases hd : (Nat.toDigits 10 (n / 10)).head? with
      | none => exact absurd (List.head?_eq_none_iff.mp hd) Nat.toDigits_ne_nil
      | some d => rwa [hd] at hhead

theorem areDigits_toDigits (n : Nat) : AreDigits (Nat.toDigits 10 n) :=
  ⟨fun _ hc => Nat.isDigit_of_mem_toDigits (by omega) (by omega) hc, Nat.toDigits_ne_nil⟩

/-- The digits of a number are a numeral. -/
theorem numeral?_toDigits (n : Nat) {rest : List Char} (h : AfterNumber rest) :
    numeral? (Nat.toDigits 10 n ++ rest) = some (⟨false, Nat.toDigits 10 n, none, none⟩, rest) := by
  have hdigits := areDigits_toDigits n
  have hsign : takeSign (Nat.toDigits 10 n ++ rest) = (false, Nat.toDigits 10 n ++ rest) := by
    unfold takeSign
    split
    · rename_i more he
      cases hd : Nat.toDigits 10 n with
      | nil => exact absurd hd hdigits.ne_nil
      | cons d ds =>
        rw [hd] at he
        cases he
        have hd' := hdigits.digit '-' (hd ▸ List.mem_cons_self)
        cases hd'
    · rfl
  have hempty : (Nat.toDigits 10 n).isEmpty = false := List.isEmpty_eq_false_iff.mpr hdigits.ne_nil
  have hzero : (1 < (Nat.toDigits 10 n).length && (Nat.toDigits 10 n).head? == some '0') = false := by
    by_cases hn : n = 0
    · subst hn
      rfl
    · rw [Bool.and_eq_false_iff]
      exact .inr (beq_eq_false_iff_ne.mpr (head_toDigits (by omega)))
  unfold numeral?
  rw [hsign]
  simp only [takeDigits_append hdigits h.afterDigits]
  rw [hempty, hzero, takeFraction?_none h]
  show (takeExponent? rest).bind _ = _
  rw [takeExponent?_none h]
  rfl

theorem toList_natural (n : Nat) : (toString (n : Int)).toList = Nat.toDigits 10 n := by
  show (Nat.repr n).toList = _
  rw [Nat.repr_eq_ofList_toDigits, String.toList_ofList]

/-- **A natural number of 64 bits is read again.** -/
theorem scalar?_natural {n : Nat} (h : n < UInt64.size) {rest : List Char} (hafter : AfterNumber rest) :
    scalar? ((toString (n : Int)).toList ++ rest) = some (.integer n, rest) := by
  have hdigits := areDigits_toDigits n
  have hgather : gather 0 (Nat.toDigits 10 n) = (n, []) := by
    have hn : Nat.ofDigitChars 10 (Nat.toDigits 10 n) 0 = n := Nat.ofDigitChars_ten_toDigits
    rw [gather_eq (by rw [hn]; exact h), hn]
  have hvalue : Numeral.value? ⟨false, Nat.toDigits 10 n, none, none⟩ = some (.integer n) := by
    unfold Numeral.value?
    simp only [hgather]
    rfl
  have hnumeral := numeral?_toDigits n hafter
  rw [toList_natural]
  cases hd : Nat.toDigits 10 n with
  | nil => exact absurd hd hdigits.ne_nil
  | cons d ds =>
    have hdigit : d.isDigit = true := hdigits.digit d (hd ▸ List.mem_cons_self)
    have hquote : d ≠ Char.ofNat 0x22 := fun hq => by
      subst hq
      cases hdigit
    rw [hd] at hnumeral hvalue
    rw [List.cons_append, scalar?, if_neg hquote, if_pos (.inr hdigit), ← List.cons_append, hnumeral]
    show (Numeral.value? _).bind _ = _
    rw [hvalue]
    rfl

/-! ## 3. One step of reading -/

/-- A reader takes a value off an input and leaves a rest. -/
def Takes {α : Type} (read : Reader α) (input : List Char) (a : α) (rest : List Char) : Prop :=
  ∃ p, read input = some p ∧ p.value = a ∧ p.rest = rest

section Steps

variable {input rest more left : List Char} {b c : Char} {depth : Nat} {shape : Shape}

theorem takes_leaf? {j : Json} (h : scalar? (skipBlanks input) = some (j, rest)) :
    Takes leaf? input j rest := by
  unfold Takes leaf?
  split
  · rename_i hnone
    cases hnone.symm.trans h
  · rename_i hsome
    cases hsome.symm.trans h
    exact ⟨_, rfl, rfl, rfl⟩

/-- What does not begin with a bracket holds no other value. -/
theorem value?_eq_leaf? (h : skipBlanks input = c :: more) (harray : c ≠ '[') (hobject : c ≠ '\x7b') :
    value? depth shape input = leaf? input := by
  cases depth with
  | zero => rfl
  | succ depth =>
    rw [value?]
    split
    · rename_i hb
      cases hb.symm.trans h
    · rename_i b after hb
      cases hb.symm.trans h
      split
      · rfl
      · rw [if_neg harray, if_neg hobject]

/-- What is behind a bracket tells an empty array or object from the others. -/
theorem value?_bracket (h : skipBlanks input = b :: rest) (hrest : skipBlanks rest = c :: more) :
    ∃ hshorter : (c :: more).length < input.length, value? (depth + 1) shape input =
      if b = '[' then
        if c = ']' then some ⟨.array [], more, Nat.lt_of_succ_lt hshorter⟩
        else (arrayItems? (fun i => value? depth (shape.item i)) 0 (c :: more)).map fun p =>
          ⟨.array p.value, p.rest, p.shorter.trans hshorter⟩
      else if b = '\x7b' then
        if c = '\x7d' then some ⟨.object [], more, Nat.lt_of_succ_lt hshorter⟩
        else (objectMembers? (content (value? depth) shape) (c :: more)).map fun p =>
          ⟨.object p.value, p.rest, p.shorter.trans hshorter⟩
      else leaf? input := by
  have hinput := length_of_skipBlanks h
  have hmore := length_of_skipBlanks hrest
  refine ⟨by rw [List.length_cons]; omega, ?_⟩
  rw [value?]
  split
  · rename_i hb
    cases hb.symm.trans h
  · rename_i hb
    cases hb.symm.trans h
    split
    · rename_i hc
      cases hc.symm.trans hrest
    · rename_i hc
      cases hc.symm.trans hrest
      cases arrayItems? (fun i => value? depth (shape.item i)) 0 (c :: more) <;>
        cases objectMembers? (content (value? depth) shape) (c :: more) <;> rfl

theorem takes_array_nil (h : skipBlanks input = '[' :: rest) (hrest : skipBlanks rest = ']' :: left) :
    Takes (value? (depth + 1) shape) input (.array []) left := by
  obtain ⟨_, hvalue⟩ := value?_bracket h hrest
  exact ⟨_, hvalue, rfl, rfl⟩

theorem takes_array {items : List Json} (h : skipBlanks input = '[' :: rest)
    (hrest : skipBlanks rest = c :: more) (hc : c ≠ ']')
    (hitems : Takes (arrayItems? (fun i => value? depth (shape.item i)) 0) (c :: more) items left) :
    Takes (value? (depth + 1) shape) input (.array items) left := by
  obtain ⟨p, hitems, rfl, rfl⟩ := hitems
  obtain ⟨_, hvalue⟩ := value?_bracket h hrest
  rw [if_pos rfl, if_neg hc, hitems] at hvalue
  exact ⟨_, hvalue, rfl, rfl⟩

theorem takes_object_nil (h : skipBlanks input = '\x7b' :: rest)
    (hrest : skipBlanks rest = '\x7d' :: left) :
    Takes (value? (depth + 1) shape) input (.object []) left := by
  obtain ⟨_, hvalue⟩ := value?_bracket h hrest
  exact ⟨_, hvalue, rfl, rfl⟩

theorem takes_object {members : List (String × Json)} (h : skipBlanks input = '\x7b' :: rest)
    (hrest : skipBlanks rest = c :: more) (hc : c ≠ '\x7d')
    (hmembers : Takes (objectMembers? (content (value? depth) shape)) (c :: more) members left) :
    Takes (value? (depth + 1) shape) input (.object members) left := by
  obtain ⟨p, hmembers, rfl, rfl⟩ := hmembers
  obtain ⟨_, hvalue⟩ := value?_bracket h hrest
  rw [if_neg (by decide), if_pos rfl, if_neg hc, hmembers] at hvalue
  exact ⟨_, hvalue, rfl, rfl⟩

variable {value : Nat → Reader Json} {position : Nat} {j : Json}

theorem takes_last_item (hvalue : Takes (value position) input j rest)
    (hrest : skipBlanks rest = ']' :: left) : Takes (arrayItems? value position) input [j] left := by
  obtain ⟨⟨j, rest, hs⟩, hvalue, rfl, rfl⟩ := hvalue
  unfold Takes
  rw [arrayItems?, hvalue]
  simp only [Option.bind_eq_bind, Option.bind_some]
  split
  · rename_i hb
    cases hb.symm.trans hrest
  · rename_i hb
    cases hb.symm.trans hrest
    exact ⟨_, rfl, rfl, rfl⟩

theorem takes_item {items : List Json} (hvalue : Takes (value position) input j rest)
    (hrest : skipBlanks rest = ',' :: more)
    (hitems : Takes (arrayItems? value (position + 1)) more items left) :
    Takes (arrayItems? value position) input (j :: items) left := by
  obtain ⟨⟨j, rest, hs⟩, hvalue, rfl, rfl⟩ := hvalue
  obtain ⟨⟨items, left, hs'⟩, hitems, rfl, rfl⟩ := hitems
  unfold Takes
  rw [arrayItems?, hvalue]
  simp only [Option.bind_eq_bind, Option.bind_some]
  split
  · rename_i hb
    cases hb.symm.trans hrest
  · rename_i hb
    cases hb.symm.trans hrest
    rw [if_pos rfl, hitems]
    exact ⟨_, rfl, rfl, rfl⟩

variable {read : String → Reader Json} {name : List Char} {after start : List Char}

theorem takes_member (hquote : skipBlanks input = Char.ofNat 0x22 :: rest)
    (hname : characters? rest = some (name, after)) (hcolon : skipBlanks after = ':' :: start)
    (hread : Takes (read (String.ofList name)) start j left) :
    Takes (objectMember? read) input (String.ofList name, j) left := by
  obtain ⟨⟨j, left, hs⟩, hread, rfl, rfl⟩ := hread
  unfold Takes objectMember?
  split
  · rename_i hq
    cases hq.symm.trans hquote
  · rename_i hq
    cases hq.symm.trans hquote
    rw [if_pos rfl]
    split
    · rename_i hn
      cases hn.symm.trans hname
    · rename_i hn
      cases hn.symm.trans hname
      simp only
      split
      · rename_i hc
        cases hc.symm.trans hcolon
      · rename_i hc
        cases hc.symm.trans hcolon
        rw [if_pos rfl, hread]
        exact ⟨_, rfl, rfl, rfl⟩

theorem takes_last_member {m : String × Json} (hmember : Takes (objectMember? read) input m rest)
    (hrest : skipBlanks rest = '\x7d' :: left) : Takes (objectMembers? read) input [m] left := by
  obtain ⟨⟨m, rest, hs⟩, hmember, rfl, rfl⟩ := hmember
  unfold Takes
  rw [objectMembers?, hmember]
  simp only [Option.bind_eq_bind, Option.bind_some]
  split
  · rename_i hb
    cases hb.symm.trans hrest
  · rename_i hb
    cases hb.symm.trans hrest
    exact ⟨_, rfl, rfl, rfl⟩

theorem takes_members {m : String × Json} {members : List (String × Json)}
    (hmember : Takes (objectMember? read) input m rest) (hrest : skipBlanks rest = ',' :: more)
    (hmembers : Takes (objectMembers? read) more members left) :
    Takes (objectMembers? read) input (m :: members) left := by
  obtain ⟨⟨m, rest, hs⟩, hmember, rfl, rfl⟩ := hmember
  obtain ⟨⟨members, left, hs'⟩, hmembers, rfl, rfl⟩ := hmembers
  unfold Takes
  rw [objectMembers?, hmember]
  simp only [Option.bind_eq_bind, Option.bind_some]
  split
  · rename_i hb
    cases hb.symm.trans hrest
  · rename_i hb
    cases hb.symm.trans hrest
    rw [if_pos rfl, hmembers]
    exact ⟨_, rfl, rfl, rfl⟩

end Steps

/-! ## 4. What is written -/

/-- A value without parts that is written as it is: a word, a text, or a natural number of 64 bits. -/
def IsPlain : Json → Prop
  | .null | .bool _ | .text _ => True
  | .integer n => ∃ m : Nat, m < UInt64.size ∧ n = m
  | _ => False

/-- All of a value is looked at under a shape, and it nests at most so deep. -/
def Fits : (depth : Nat) → Shape → Json → Prop
  | depth + 1, shape, .array items => ∀ i j, items[i]? = some j → Fits depth (shape.item i) j
  | depth + 1, shape, .object members =>
    ∀ m ∈ members, ∃ s, shape.member? m.1 = some s ∧ Fits depth s m.2
  | _, _, j => j.IsPlain

/-- How the text of a value begins. -/
def Opens (text : List Char) : Prop :=
  ∃ c cs, text = c :: cs ∧ isBlank c = false ∧ c ≠ ']'

/-- A reader takes a value from what follows the blanks, unless a number goes on. -/
def Reads {α : Type} (read : Reader α) (text : List Char) (a : α) : Prop :=
  ∀ input rest, skipBlanks input = text ++ rest → AfterNumber rest → Takes read input a rest

theorem afterNumber_nil : AfterNumber [] := nofun

theorem afterNumber_comma (rest : List Char) : AfterNumber (',' :: rest) := by
  intro c more h
  cases h
  decide

theorem toList_newLine (level : Nat) :
    (newLine level).toList = '\n' :: List.replicate (2 * level) ' ' := by
  simp [newLine]

theorem afterNumber_newLine (level : Nat) (rest : List Char) :
    AfterNumber ((newLine level).toList ++ rest) := by
  intro c more h
  rw [toList_newLine] at h
  cases h
  decide

theorem skipBlanks_cons {c : Char} (h : isBlank c = false) (cs : List Char) :
    skipBlanks (c :: cs) = c :: cs :=
  List.dropWhile_cons_of_neg (by rw [h]; decide)

theorem skipBlanks_idem (cs : List Char) : skipBlanks (skipBlanks cs) = skipBlanks cs :=
  List.dropWhile_idempotent _ cs

theorem skipBlanks_newLine (level : Nat) (cs : List Char) :
    skipBlanks ((newLine level).toList ++ cs) = skipBlanks cs := by
  have hblank : ∀ c ∈ (newLine level).toList, isBlank c = true := by
    intro c hc
    rw [toList_newLine] at hc
    rcases List.mem_cons.mp hc with rfl | hc
    · rfl
    · rw [List.eq_of_mem_replicate hc]
      rfl
  exact List.dropWhile_append_of_pos hblank

theorem Opens.skipBlanks {text : List Char} (h : Opens text) (rest : List Char) :
    skipBlanks (text ++ rest) = text ++ rest := by
  obtain ⟨c, cs, rfl, hc, _⟩ := h
  exact skipBlanks_cons hc _

theorem toList_writeText (name : String) : (writeText name).toList =
    Char.ofNat 0x22 :: (name.toList.flatMap writeChar ++ [Char.ofNat 0x22]) := by
  unfold writeText
  exact String.toList_ofList

/-- The text of a plain value. -/
theorem scalar?_writeScalar {j : Json} (h : j.IsPlain) {rest : List Char} (hafter : AfterNumber rest) :
    scalar? ((writeScalar j).toList ++ rest) = some (j, rest) := by
  cases j with
  | null => rfl
  | bool b => cases b <;> rfl
  | integer n =>
    obtain ⟨m, hm, rfl⟩ := h
    exact scalar?_natural hm hafter
  | text s =>
    show scalar? ((writeText s).toList ++ rest) = _
    rw [toList_writeText, List.cons_append, List.append_assoc, scalar?, if_pos rfl]
    show (characters? (_ ++ Char.ofNat 0x22 :: rest)).map _ = _
    rw [characters?_flatMap, Option.map_some, String.ofList_toList]
  | double x => cases h
  | array items => cases h
  | object members => cases h

/-- The text of a plain value begins neither with a blank nor with a bracket. -/
theorem writeScalar_start {j : Json} (h : j.IsPlain) : ∃ c cs, (writeScalar j).toList = c :: cs ∧
    isBlank c = false ∧ c ≠ ']' ∧ c ≠ '[' ∧ c ≠ '\x7b' := by
  cases j with
  | null => exact ⟨_, _, rfl, by decide⟩
  | bool b => cases b <;> exact ⟨_, _, rfl, by decide⟩
  | integer n =>
    obtain ⟨m, hm, rfl⟩ := h
    have hdigits := areDigits_toDigits m
    show ∃ c cs, (toString (m : Int)).toList = c :: cs ∧ _
    rw [toList_natural]
    obtain ⟨d, ds, hd⟩ := List.exists_cons_of_ne_nil hdigits.ne_nil
    have hdigit : d.isDigit = true := hdigits.digit d (hd ▸ List.mem_cons_self)
    have hne {c : Char} (hc : c.isDigit = false) : d ≠ c := fun he => by
      rw [he, hc] at hdigit
      cases hdigit
    refine ⟨d, ds, hd, ?_, hne rfl, hne rfl, hne rfl⟩
    simp [isBlank, hne (c := ' ') rfl, hne (c := '\n') rfl, hne (c := '\t') rfl, hne (c := '\r') rfl]
  | text s => exact ⟨_, _, toList_writeText s, by decide⟩
  | double x => cases h
  | array items => cases h
  | object members => cases h

theorem writeLines_plain {j : Json} (h : j.IsPlain) (level : Nat) : writeLines level j = writeScalar j := by
  cases j with
  | array items => cases h
  | object members => cases h
  | _ => simp only [writeLines]

/-- What fits is plain, or has parts that fit. -/
theorem Fits.cases {depth : Nat} {shape : Shape} {j : Json} (h : Fits depth shape j) :
    j.IsPlain ∨
      (∃ d items, depth = d + 1 ∧ j = .array items ∧
        ∀ i k, items[i]? = some k → Fits d (shape.item i) k) ∨
      ∃ d members, depth = d + 1 ∧ j = .object members ∧
        ∀ m ∈ members, ∃ s, shape.member? m.1 = some s ∧ Fits d s m.2 := by
  unfold Fits at h
  split at h
  · exact .inr (.inl ⟨_, _, rfl, rfl, h⟩)
  · exact .inr (.inr ⟨_, _, rfl, rfl, h⟩)
  · exact .inl h

theorem opens_writeLines {depth : Nat} {shape : Shape} {j : Json} (h : Fits depth shape j) (level : Nat) :
    Opens (writeLines level j).toList := by
  rcases h.cases with hplain | ⟨d, items, _, rfl, _⟩ | ⟨d, members, _, rfl, _⟩
  · obtain ⟨c, cs, htext, hblank, hbracket, _⟩ := writeScalar_start hplain
    rw [writeLines_plain hplain]
    exact ⟨c, cs, htext, hblank, hbracket⟩
  · cases items with
    | nil => exact ⟨'[', _, by rw [writeLines]; rfl, by decide⟩
    | cons j js =>
      rw [writeLines]
      · simp only [String.toList_append, List.append_assoc]
        exact ⟨'[', _, rfl, by decide⟩
      · nofun
  · cases members with
    | nil => exact ⟨'\x7b', _, by rw [writeLines]; rfl, by decide⟩
    | cons m ms =>
      rw [writeLines]
      · simp only [String.toList_append, List.append_assoc]
        exact ⟨'\x7b', _, rfl, by decide⟩
      · nofun

/-! ## 5. Reading what is written -/

theorem reads_plain {depth : Nat} {shape : Shape} {j : Json} (h : j.IsPlain) :
    Reads (value? depth shape) (writeScalar j).toList j := by
  intro input rest hinput hafter
  obtain ⟨c, cs, htext, _, _, harray, hobject⟩ := writeScalar_start h
  have hscalar : scalar? (skipBlanks input) = some (j, rest) := hinput ▸ scalar?_writeScalar h hafter
  rw [htext, List.cons_append] at hinput
  unfold Takes
  rw [value?_eq_leaf? hinput harray hobject]
  exact takes_leaf? hscalar

/-- The items of an array are read from their lines, up to the bracket. -/
theorem takes_itemLines {value : Nat → Reader Json} {level : Nat} {tail left : List Char}
    (hafter : AfterNumber tail) (htail : skipBlanks tail = ']' :: left) {items : List Json}
    (hne : items ≠ []) {position : Nat}
    (hitems : ∀ i j, items[i]? = some j → Opens (writeLines level j).toList ∧
      Reads (value (position + i)) (writeLines level j).toList j)
    {input : List Char}
    (hinput : skipBlanks input = skipBlanks ((writeItemLines level items).toList ++ tail)) :
    Takes (arrayItems? value position) input items left := by
  induction items generalizing position input with
  | nil => exact absurd rfl hne
  | cons j js ih =>
    obtain ⟨hopens, hreads⟩ := hitems 0 j rfl
    cases js with
    | nil =>
      rw [writeItemLines, String.toList_append, List.append_assoc, skipBlanks_newLine,
        hopens.skipBlanks] at hinput
      exact takes_last_item (hreads input tail hinput hafter) htail
    | cons k ks =>
      rw [writeItemLines] at hinput
      · simp only [String.toList_append, List.append_assoc] at hinput
        rw [skipBlanks_newLine, hopens.skipBlanks] at hinput
        refine takes_item (hreads input _ hinput (afterNumber_comma _)) rfl ?_
        refine ih (List.cons_ne_nil _ _) (fun i j' hj => ?_) rfl
        have hlater := hitems (i + 1) j' hj
        rwa [Nat.add_comm i 1, ← Nat.add_assoc] at hlater
      · nofun

/-- A member is read from its name and its value. -/
theorem takes_memberLine {read : String → Reader Json} {level : Nat} {name : String} {j : Json}
    (hopens : Opens (writeLines level j).toList)
    (hreads : Reads (read name) (writeLines level j).toList j) {input rest : List Char}
    (hinput : skipBlanks input =
      (writeText name).toList ++ (": ".toList ++ ((writeLines level j).toList ++ rest)))
    (hafter : AfterNumber rest) : Takes (objectMember? read) input (name, j) rest := by
  have hvalue : Takes (read (String.ofList name.toList))
      (' ' :: ((writeLines level j).toList ++ rest)) j rest := by
    rw [String.ofList_toList]
    exact hreads _ rest (hopens.skipBlanks rest) hafter
  rw [toList_writeText, List.cons_append, List.append_assoc] at hinput
  have hmember := takes_member hinput (characters?_flatMap _ _) rfl hvalue
  rwa [String.ofList_toList] at hmember

/-- The members of an object are read from their lines, up to the brace. -/
theorem takes_memberLines {read : String → Reader Json} {level : Nat} {tail left : List Char}
    (hafter : AfterNumber tail) (htail : skipBlanks tail = '\x7d' :: left)
    {members : List (String × Json)} (hne : members ≠ [])
    (hmembers : ∀ m ∈ members, Opens (writeLines level m.2).toList ∧
      Reads (read m.1) (writeLines level m.2).toList m.2)
    {input : List Char}
    (hinput : skipBlanks input = skipBlanks ((writeMemberLines level members).toList ++ tail)) :
    Takes (objectMembers? read) input members left := by
  have hname (name : String) (rest : List Char) :
      skipBlanks ((writeText name).toList ++ rest) = (writeText name).toList ++ rest := by
    rw [toList_writeText]
    exact skipBlanks_cons rfl _
  induction members generalizing input with
  | nil => exact absurd rfl hne
  | cons m ms ih =>
    obtain ⟨name, j⟩ := m
    obtain ⟨⟨hopens, hreads⟩, hothers⟩ := List.forall_mem_cons.mp hmembers
    cases ms with
    | nil =>
      rw [writeMemberLines] at hinput
      simp only [String.toList_append, List.append_assoc] at hinput
      rw [skipBlanks_newLine, hname] at hinput
      exact takes_last_member (takes_memberLine hopens hreads hinput hafter) htail
    | cons k ks =>
      rw [writeMemberLines] at hinput
      · simp only [String.toList_append, List.append_assoc] at hinput
        rw [skipBlanks_newLine, hname] at hinput
        refine takes_members (takes_memberLine hopens hreads hinput (afterNumber_comma _)) rfl ?_
        exact ih (List.cons_ne_nil _ _) hothers rfl
      · nofun

theorem writeItemLines_cons (level : Nat) (j : Json) (js : List Json) : ∃ more,
    (writeItemLines level (j :: js)).toList =
      (newLine level).toList ++ ((writeLines level j).toList ++ more) := by
  cases js with
  | nil => exact ⟨[], by rw [writeItemLines, String.toList_append, List.append_nil]⟩
  | cons k ks =>
    rw [writeItemLines]
    · simp only [String.toList_append, List.append_assoc]
      exact ⟨_, rfl⟩
    · nofun

theorem writeMemberLines_cons (level : Nat) (m : String × Json) (ms : List (String × Json)) : ∃ more,
    (writeMemberLines level (m :: ms)).toList =
      (newLine level).toList ++ (Char.ofNat 0x22 :: more) := by
  obtain ⟨name, j⟩ := m
  cases ms with
  | nil =>
    rw [writeMemberLines]
    simp only [String.toList_append, List.append_assoc, toList_writeText, List.cons_append]
    exact ⟨_, rfl⟩
  | cons k ks =>
    rw [writeMemberLines]
    · simp only [String.toList_append, List.append_assoc, toList_writeText, List.cons_append]
      exact ⟨_, rfl⟩
    · nofun

/-- An array is read from its lines if its items are. -/
theorem reads_array {depth level : Nat} {shape : Shape} {items : List Json}
    (hitems : ∀ i j, items[i]? = some j → Opens (writeLines (level + 1) j).toList ∧
      Reads (value? depth (shape.item i)) (writeLines (level + 1) j).toList j) :
    Reads (value? (depth + 1) shape) (writeLines level (.array items)).toList (.array items) := by
  intro input rest hinput _
  cases items with
  | nil =>
    rw [writeLines] at hinput
    exact takes_array_nil hinput rfl
  | cons j js =>
    rw [writeLines] at hinput
    · simp only [String.toList_append, List.append_assoc] at hinput
      have htail := skipBlanks_newLine level (']' :: rest)
      obtain ⟨more, hmore⟩ := writeItemLines_cons (level + 1) j js
      obtain ⟨c, cs, hc, hblank, hbracket⟩ := (hitems 0 j rfl).1
      have hfirst : skipBlanks ((writeItemLines (level + 1) (j :: js)).toList ++
          ((newLine level).toList ++ ']' :: rest)) =
            c :: (cs ++ (more ++ ((newLine level).toList ++ ']' :: rest))) := by
        rw [hmore, List.append_assoc, skipBlanks_newLine, hc, List.append_assoc, List.cons_append]
        exact skipBlanks_cons hblank _
      refine takes_array hinput hfirst hbracket ?_
      refine takes_itemLines (afterNumber_newLine level _) htail (List.cons_ne_nil j js)
        (fun i k hk => ?_) (by rw [← hfirst, skipBlanks_idem])
      rw [Nat.zero_add]
      exact hitems i k hk
    · nofun

/-- An object is read from its lines if its members are. -/
theorem reads_object {depth level : Nat} {shape : Shape} {members : List (String × Json)}
    (hmembers : ∀ m ∈ members, Opens (writeLines (level + 1) m.2).toList ∧
      Reads (content (value? depth) shape m.1) (writeLines (level + 1) m.2).toList m.2) :
    Reads (value? (depth + 1) shape) (writeLines level (.object members)).toList (.object members) := by
  intro input rest hinput _
  cases members with
  | nil =>
    rw [writeLines] at hinput
    exact takes_object_nil hinput rfl
  | cons m ms =>
    rw [writeLines] at hinput
    · simp only [String.toList_append, List.append_assoc] at hinput
      have htail := skipBlanks_newLine level ('\x7d' :: rest)
      obtain ⟨more, hmore⟩ := writeMemberLines_cons (level + 1) m ms
      have hfirst : skipBlanks ((writeMemberLines (level + 1) (m :: ms)).toList ++
          ((newLine level).toList ++ '\x7d' :: rest)) =
            Char.ofNat 0x22 :: (more ++ ((newLine level).toList ++ '\x7d' :: rest)) := by
        rw [hmore, List.append_assoc, skipBlanks_newLine, List.cons_append]
        exact skipBlanks_cons rfl _
      refine takes_object hinput hfirst (by decide) ?_
      exact takes_memberLines (afterNumber_newLine level _) htail (List.cons_ne_nil m ms) hmembers
        (by rw [← hfirst, skipBlanks_idem])
    · nofun

/-- **A value that fits is read from its text**, by induction on the depth. -/
theorem reads_writeLines {depth : Nat} {shape : Shape} {j : Json} (h : Fits depth shape j)
    (level : Nat) : Reads (value? depth shape) (writeLines level j).toList j := by
  induction depth generalizing shape j level with
  | zero =>
    rcases h.cases with hplain | ⟨d, items, hd, _⟩ | ⟨d, members, hd, _⟩
    · rw [writeLines_plain hplain]
      exact reads_plain hplain
    · cases hd
    · cases hd
  | succ depth ih =>
    rcases h.cases with hplain | ⟨d, items, hd, rfl, hitems⟩ | ⟨d, members, hd, rfl, hmembers⟩
    · rw [writeLines_plain hplain]
      exact reads_plain hplain
    · cases hd
      exact reads_array fun i k hk => ⟨opens_writeLines (hitems i k hk) _, ih (hitems i k hk) _⟩
    · cases hd
      refine reads_object fun m hm => ?_
      obtain ⟨s, hs, hfits⟩ := hmembers m hm
      have hcontent : content (value? depth) shape m.1 = value? depth s := by
        unfold content
        rw [hs]
      rw [hcontent]
      exact ⟨opens_writeLines hfits _, ih hfits _⟩

/-- **A document that fits is read from its file.** -/
theorem readAs?_pretty {shape : Shape} {j : Json} (h : Fits 127 shape j) :
    readAs? shape j.pretty = some j := by
  have hopens := opens_writeLines h 0
  have hstart : skipBlanks j.pretty.toList = j.pretty.toList ++ [] := by
    have hskip := hopens.skipBlanks []
    rwa [List.append_nil] at hskip ⊢
  obtain ⟨p, hread, hvalue, hrest⟩ := reads_writeLines h 0 _ [] hstart afterNumber_nil
  unfold readAs?
  rw [hread]
  simp only [Option.bind_eq_bind, Option.bind_some, hrest, hvalue]
  rfl

end ContextualQuery.Json
