import ContextualQuery.Proofs.Joins
import ContextualQuery.Proofs.Quoting
import ContextualQuery.Proofs.WellFormed
import Mathlib.Data.List.TakeWhile
/-!
# One clause under every symbol

A search clause keeps its field, its term and its modifiers, and its symbol changes. Each symbol makes an operand
of the term by itself, and texts, other values and inequality are tested by three routines; yet the answers hang
together.

* `OpenClause`: a clause that leaves its symbol open, `OpenClause.text` with a symbol put in, and
  `OpenClause.exists_of_derives`: every text of a single clause is one of these;
* `Operand.ofTerm_of_ordering`: what has an operand under a symbol for an order has the same one under others;
* `Value.same_iff_compare?`: equality and order of values agree on what is equal;
* `Operand.test_eq_order`: so tests of a value come down to one order, and `Operand.testAll_or`,
  `Operand.comparator_eq_of_testAll`: what this means for the values of a path;
* `Operand.testAll_partition`: equality and inequality share out the records that have a value;
* `OpenClause.Planned`: the clause has a plan; `OpenClause.Planned.selects`: what it selects, and
  `OpenClause.planned_of_translates`: there is no other plan;
* `symbols_coherent` puts these together.
-/

namespace ContextualQuery

/-! ## 1. Symbols in a text -/

/-- What begins with one of these characters begins with a symbol. -/
theorem relation_of_spells {c : Char} {rest : List Char} {ts : List Token} (hc : c = '=' ∨ c = '>')
    (h : Spells (c :: rest) ts) : ∃ s us, ts = .relation s :: us := by
  have hscan : ∃ s lexeme rest', scan (c :: rest) = some (.relation s, lexeme, rest') := by
    rcases hc with rfl | rfl
    · cases rest with
      | nil => exact ⟨.word, _, _, rfl⟩
      | cons d rest =>
        by_cases hd : d = '='
        · subst hd
          exact ⟨.exact, _, _, rfl⟩
        · exact ⟨.word, _, _, scan.eq_2 (d :: rest) fun r he => hd (List.cons.inj he).1⟩
    · cases rest with
      | nil => exact ⟨.greater, _, _, rfl⟩
      | cons d rest =>
        by_cases hd : d = '='
        · subst hd
          exact ⟨.atLeast, _, _, rfl⟩
        · exact ⟨.greater, _, _, scan.eq_7 (d :: rest) fun r he => hd (List.cons.inj he).1⟩
  have hstart : (c :: rest).dropWhile isSeparator = c :: rest := by
    rcases hc with rfl | rfl <;> exact List.dropWhile_cons_of_neg (by decide)
  obtain ⟨s, lexeme, rest', hs⟩ := hscan
  cases h with
  | blank hb =>
    rw [hstart] at hb
    cases hb
  | token ht _ =>
    rw [hstart, hs] at ht
    cases ht
    exact ⟨s, _, rfl⟩

namespace Spells

variable {as bs : List Char} {us : List Token}

/-- A word with blanks around it, and what follows them. -/
theorem word_append {w : String} (ha : Spells as [.word w])
    (hbs : ∀ c rest, bs = c :: rest → isWordChar c = false) (hb : Spells bs us) :
    Spells (as ++ bs) (.word w :: us) := by
  cases ha with
  | @token _ lexeme rest _ _ hs hrest =>
    obtain ⟨hstart, -⟩ := scan_append hs
    obtain ⟨hw, hne, hchars⟩ := of_scan_word hs
    cases hrest with
    | blank hblank =>
      have hstop : ∀ c more, rest ++ bs = c :: more → isWordChar c = false := by
        intro c more he
        cases rest with
        | nil => exact hbs c more he
        | cons d rest =>
          obtain ⟨rfl, -⟩ := List.cons.inj he
          refine eq_false_of_ne_true fun hword => ?_
          have hsep := not_isSeparator_of_isWordChar hword
          rw [List.dropWhile_cons_of_neg (by rw [hsep]; decide)] at hblank
          cases hblank
      have hblanks : Spells (rest ++ bs) us := hb.of_dropWhile (dropWhile_append_of_nil bs hblank).symm
      have hne' : as.dropWhile isSeparator ≠ [] := by
        rw [hstart]
        simp [hne]
      refine @Spells.token _ lexeme (rest ++ bs) _ _ ?_ hblanks
      rw [dropWhile_append_of_ne_nil bs hne', hstart, List.append_assoc, scan_word hne hchars hstop, ← hw,
        String.ofList_toList]

/-- A symbol, and what follows it. -/
theorem relation (s : RelationSymbol) (hbs : ∀ c rest, bs = c :: rest → c ≠ '=' ∧ c ≠ '>')
    (hb : Spells bs us) : Spells (s.spelling.toList ++ bs) (.relation s :: us) := by
  have hstart : (s.spelling.toList ++ bs).dropWhile isSeparator = s.spelling.toList ++ bs := by
    cases s <;> exact List.dropWhile_cons_of_neg (by decide)
  have hscan := scan_spelling s hbs
  rw [← hstart] at hscan
  exact .token hscan hb

end Spells

/-! ## 2. Clauses that leave the symbol open -/

/-- The derivation of a filter that is a single clause. -/
def Derivation.ofClause (c : ClauseDerivation) : Derivation .disjunction :=
  .disjunction (.conjunction (.plain (.clause c)) .noConjunct) .noDisjunct

/-- A search clause that leaves its symbol open: the text before it is the field, and the text behind it the term
with the modifiers. -/
structure OpenClause where
  field : IndexWord
  inner : List ModifierWord
  term : TermWord
  outer : List ModifierWord
  compatible : Compatible (inner ++ outer)
  before : String
  behind : String
  spells_before : Spells before.toList [.word field.text]
  spells_behind : Spells behind.toList (modifierTokens inner ++ term.token :: modifierTokens outer)

namespace OpenClause

/-- The text of the clause with a symbol put in. -/
def text (c : OpenClause) (s : RelationSymbol) : String := c.before ++ s.spelling ++ c.behind

/-- Its derivation. -/
def derivation (c : OpenClause) (s : RelationSymbol) : ClauseDerivation :=
  ⟨c.field, s, c.inner, c.term, c.outer, c.compatible⟩

/-- The modifiers, wherever they stand. -/
def modifiers (c : OpenClause) : Modifiers := .ofList ((c.inner ++ c.outer).map (·.modifier))

/-- No symbol becomes a longer one by what stands behind it. -/
theorem behind_ne (c : OpenClause) (d : Char) (rest : List Char) (h : c.behind.toList = d :: rest) :
    d ≠ '=' ∧ d ≠ '>' := by
  have hspells := c.spells_behind
  rw [h] at hspells
  have hfirst : ∀ s us, modifierTokens c.inner ++ c.term.token :: modifierTokens c.outer ≠
      .relation s :: us := by
    intro s us he
    cases hinner : c.inner with
    | nil =>
      rw [hinner, modifierTokens, List.nil_append] at he
      cases hterm : c.term <;>
        · rw [hterm] at he
          cases he
    | cons m rest =>
      rw [hinner, modifierTokens] at he
      cases he
  constructor
  · intro hd
    obtain ⟨s, us, he⟩ := relation_of_spells (.inl hd) hspells
    exact hfirst s us he
  · intro hd
    obtain ⟨s, us, he⟩ := relation_of_spells (.inr hd) hspells
    exact hfirst s us he

theorem derives (c : OpenClause) (s : RelationSymbol) :
    (Planner.alone (.ofClause (c.derivation s))).Derives (c.text s) := by
  have hsymbol := Spells.relation s c.behind_ne c.spells_behind
  have hstop : ∀ d rest, s.spelling.toList ++ c.behind.toList = d :: rest → isWordChar d = false := by
    intro d rest he
    cases s <;>
      · obtain ⟨rfl, -⟩ := List.cons.inj he
        decide
  have hall := c.spells_before.word_append hstop hsymbol
  rw [derives_alone_iff, text, String.toList_append, String.toList_append, List.append_assoc]
  simpa [Derivation.tokens, Derivation.ofClause, ClauseDerivation.tokens, derivation] using hall

/-- **Every text that is a single clause leaves its symbol open in this way.** -/
theorem exists_of_derives {d : ClauseDerivation} {text : String}
    (h : (Planner.alone (.ofClause d)).Derives text) :
    ∃ c : OpenClause, c.derivation d.symbol = d ∧ c.text d.symbol = text := by
  rw [derives_alone_iff] at h
  have htokens : (Derivation.ofClause d).tokens = d.tokens := by
    simp [Derivation.tokens, Derivation.ofClause]
  rw [htokens, ClauseDerivation.tokens] at h
  cases h with
  | @token _ lexeme rest _ _ hword hrest =>
  cases hrest with
  | @token _ symbol behind _ _ hsymbol hbehind =>
  obtain ⟨hstart, -⟩ := scan_append hword
  obtain ⟨hmiddle, -⟩ := scan_append hsymbol
  obtain rfl := of_scan_relation hsymbol
  obtain ⟨hfield, hne, hchars⟩ := of_scan_word hword
  have hblanks (cs : List Char) : (cs.takeWhile isSeparator).dropWhile isSeparator = [] :=
    List.dropWhile_eq_nil_iff.mpr fun c hc => List.mem_takeWhile_imp hc
  have hstop : ∀ c more, rest.takeWhile isSeparator = c :: more → isWordChar c = false := by
    intro c more he
    refine eq_false_of_ne_true fun hc => ?_
    have hsep : isSeparator c = true :=
      List.mem_takeWhile_imp (he ▸ List.mem_cons_self)
    rw [not_isSeparator_of_isWordChar hc] at hsep
    cases hsep
  have hbefore : Spells (text.toList.takeWhile isSeparator ++ (lexeme ++ rest.takeWhile isSeparator))
      [.word d.field.text] := by
    have hlexeme := Spells.word hne hchars hstop (.blank (hblanks rest))
    rw [← hfield, String.ofList_toList] at hlexeme
    rw [← hfield]
    exact hlexeme.of_dropWhile (dropWhile_append_of_nil _ (hblanks _)).symm
  refine ⟨⟨d.field, d.inner, d.term, d.outer, d.compatible, String.ofList _, String.ofList behind,
    by rwa [String.toList_ofList], by rwa [String.toList_ofList]⟩, rfl, ?_⟩
  rw [OpenClause.text, String.ext_iff]
  simp only [String.toList_append, String.toList_ofList, List.append_assoc]
  rw [← hmiddle, List.takeWhile_append_dropWhile, ← hstart, List.takeWhile_append_dropWhile]

end OpenClause

/-! ## 3. Operands under other symbols -/

namespace Operand

variable {settings : Settings} {d : Domain} {modifiers : Modifiers} {term : String} {o : Operand}
  {s : RelationSymbol}

/-- **What has an operand under a symbol that asks for an order has the same one under every other symbol**, `=`
apart, which may ask whether one text is part of another. -/
theorem ofTerm_of_ordering (h : ofTerm settings d s modifiers term = .ok o) (hs : s.isOrdering = true)
    {s' : RelationSymbol} (hs' : s' ≠ .word) :
    ofTerm settings d s' modifiers term = .ok o ∧ o.mode = .exact := by
  have hmode (s : RelationSymbol) (hs : s ≠ .word) : literalMode settings s = .exact :=
    (literalMode_cases settings s).resolve_right fun h => hs h.2
  have hword : s ≠ .word := by
    rintro rfl
    cases hs
  rcases ofTerm_cases h with ⟨_, _, hord, _⟩ | ⟨rfl, hmask, rfl⟩ | ⟨htext, hord, v, hv, rfl⟩
  · rw [hs] at hord
    cases hord
  · refine ⟨?_, hmode s hword⟩
    rw [ofTerm, if_pos (show Domain.text.isText = true from rfl), ofText, hmask, hmode s hword,
      hmode s' hs']
    rfl
  · refine ⟨?_, rfl⟩
    rw [ofTerm, if_neg (by rw [htext]; decide), ofValue] at h ⊢
    split at h
    · cases h
    · rename_i hmask
      rw [if_neg hmask, hord hs, hv, Bool.not_true, Bool.and_false]
      rfl

/-- Equality and inequality make the same of a term. -/
theorem ofTerm_notEqual : ofTerm settings d .notEqual modifiers term = ofTerm settings d .exact modifiers term :=
  rfl

/-- No operand is null. -/
theorem not_isNull_of_ofTerm (h : ofTerm settings d s modifiers term = .ok o) : o.value.isNull = false :=
  Domain.not_isNull_of_admits (suits_ofTerm h).admits

end Operand

/-! ## 4. Tests of one value -/

/-- Identifiers with the same number have the same bytes. -/
theorem Uuid.eq_of_rank_eq {u v : Uuid} (h : u.rank = v.rank) : u = v := by
  have hbytes (m n : Nat) (xs ys : List UInt8) (hlength : xs.length = ys.length)
      (heq : xs.foldl (fun n b => 256 * n + b.toNat) m = ys.foldl (fun n b => 256 * n + b.toNat) n) :
      m = n ∧ xs = ys := by
    induction xs generalizing m n ys with
    | nil =>
      obtain rfl := List.length_eq_zero_iff.mp hlength.symm
      exact ⟨heq, rfl⟩
    | cons x xs ih =>
      obtain ⟨y, ys, rfl⟩ := List.exists_cons_of_length_eq_add_one hlength.symm
      obtain ⟨hnumber, rfl⟩ := ih _ _ ys (Nat.succ.inj hlength) heq
      have hx := x.toNat_lt
      have hy := y.toNat_lt
      dsimp only at hnumber
      obtain ⟨rfl, hbyte⟩ : m = n ∧ x.toNat = y.toNat := by omega
      exact ⟨rfl, congrArg (· :: xs) (UInt8.toNat_inj.mp hbyte)⟩
  obtain ⟨bytes, hsize⟩ := u
  obtain ⟨bytes', hsize'⟩ := v
  obtain ⟨-, rfl⟩ := hbytes 0 0 bytes bytes' (hsize.trans hsize'.symm) h
  rfl

namespace Value

/-- **Equality and order agree on what is equal.** -/
theorem same_iff_compare? {a e : Value} (he : e.isNull = false) :
    a.same e = true ↔ a.compare? e = some .eq := by
  have hrank (u v : Uuid) : u = v ↔ u.rank = v.rank := ⟨congrArg Uuid.rank, Uuid.eq_of_rank_eq⟩
  cases e with
  | null => cases he
  | _ => cases a <;> simp [same, compare?, Double.same, Int32.toInt_inj, Int64.toInt_inj, hrank]

end Value

namespace Comparator

/-- Below, equal and above exclude each other. -/
theorem eq_of_accepts {c d : Comparator} {r : Ordering} (hc : c ∈ [lt, eq, gt]) (hd : d ∈ [lt, eq, gt])
    (hcr : c.accepts r = true) (hdr : d.accepts r = true) : c = d := by
  simp only [List.mem_cons, List.not_mem_nil, or_false] at hc hd
  rcases hc with rfl | rfl | rfl <;> rcases hd with rfl | rfl | rfl
  all_goals
    first
    | rfl
    | cases r <;> simp [accepts] at hcr hdr

end Comparator

namespace Operand

/-- The order of a value and the operand, if they have one. Texts have one as they are compared. -/
def order? (o : Operand) (a : Value) : Option Ordering :=
  match a, o.value with
  | .text a, .text e =>
    some (compare (String.ofList (folded o.isCaseSensitive a)) (String.ofList (folded o.isCaseSensitive e)))
  | a, e => a.compare? e

variable {o : Operand} {c d e : Comparator}

theorem order?_of_texts {s t : String} (h : o.value = .text t) :
    o.order? (.text s) = some (compare (String.ofList (folded o.isCaseSensitive s))
      (String.ofList (folded o.isCaseSensitive t))) := by
  unfold order?
  rw [h]

theorem order?_of_not_texts {a : Value} (h : ∀ s t, a = .text s → o.value = .text t → False) :
    o.order? a = a.compare? o.value := by
  unfold order?
  split
  · rename_i s t ht
    exact (h s t rfl ht).elim
  · rfl

/-- **Every test but the one for inequality asks for this order**, if no mask and no part is looked for. -/
theorem test_eq_order (hmode : o.mode = .exact) (hnull : o.value.isNull = false) (hc : c ≠ .ne)
    (a : Value) : o.test c a = (o.order? a).any c.accepts := by
  unfold test
  split
  · rename_i s t ht
    rw [order?_of_texts ht, hmode]
    cases c <;> rfl
  · rename_i a _ _ htexts
    rw [order?_of_not_texts htexts]
    split
    · rw [Bool.eq_iff_iff, Value.same_iff_compare? hnull]
      cases a.compare? o.value <;> simp [Comparator.accepts]
    · exact absurd rfl hc
    · cases a.compare? o.value <;> rfl

/-! ## 5. Tests of several values -/

theorem testAll_of_ne (o : Operand) (hc : c ≠ .ne) (vs : List Value) :
    o.testAll c vs = vs.any (o.test c) := by
  cases c with
  | ne => exact absurd rfl hc
  | _ => rfl

theorem testAll_eq_order (hmode : o.mode = .exact) (hnull : o.value.isNull = false) (hc : c ≠ .ne)
    (vs : List Value) : o.testAll c vs = vs.any fun a => (o.order? a).any c.accepts := by
  rw [testAll_of_ne o hc, funext (test_eq_order hmode hnull hc)]

/-- A comparison that accepts what one of two others accepts holds where one of them holds. -/
theorem testAll_or (hmode : o.mode = .exact) (hnull : o.value.isNull = false) (hc : c ≠ .ne)
    (hd : d ≠ .ne) (he : e ≠ .ne) (h : ∀ r, c.accepts r = (d.accepts r || e.accepts r))
    (vs : List Value) : o.testAll c vs = (o.testAll d vs || o.testAll e vs) := by
  rw [testAll_eq_order hmode hnull hc, testAll_eq_order hmode hnull hd, testAll_eq_order hmode hnull he]
  induction vs with
  | nil => rfl
  | cons a vs ih =>
    have hone : (o.order? a).any c.accepts = ((o.order? a).any d.accepts || (o.order? a).any e.accepts) := by
      cases o.order? a with
      | none => rfl
      | some r => exact h r
    rw [List.any_cons, List.any_cons, List.any_cons, ih, hone]
    ac_rfl

/-- Of a single value only one of below, equal and above holds. -/
theorem comparator_eq_of_testAll (hmode : o.mode = .exact) (hnull : o.value.isNull = false)
    (hc : c ∈ [.lt, .eq, .gt]) (hd : d ∈ [.lt, .eq, .gt]) {a : Value} (hca : o.testAll c [a] = true)
    (hda : o.testAll d [a] = true) : c = d := by
  have hne {c : Comparator} (hc : c ∈ [.lt, .eq, .gt]) : c ≠ .ne := by
    rintro rfl
    exact absurd hc (by decide)
  rw [testAll_eq_order hmode hnull (hne hc), List.any_cons, List.any_nil, Bool.or_false,
    Option.any_eq_true] at hca
  rw [testAll_eq_order hmode hnull (hne hd), List.any_cons, List.any_nil, Bool.or_false,
    Option.any_eq_true] at hda
  obtain ⟨r, hr, hcr⟩ := hca
  obtain ⟨r', hr', hdr⟩ := hda
  obtain rfl := Option.some.inj (hr.symm.trans hr')
  exact Comparator.eq_of_accepts hc hd hcr hdr

/-- **Equality and inequality never hold together, and one of them holds wherever there is a value.** -/
theorem testAll_partition (o : Operand) (vs : List Value) :
    (o.testAll .eq vs && o.testAll .ne vs) = false ∧
      (o.testAll .eq vs || o.testAll .ne vs) = !vs.isEmpty := by
  rw [testAll_of_ne o (by decide : Comparator.eq ≠ .ne), testAll]
  cases vs with
  | nil => exact ⟨rfl, rfl⟩
  | cons a vs => cases (a :: vs).any (o.test .eq) <;> exact ⟨rfl, rfl⟩

end Operand

namespace Datum

mutual

/-- The values that a path leads to are never null. -/
theorem not_isNull_of_mem_scalars {d : Datum} {v : Value} (h : v ∈ d.scalars) : v.isNull = false := by
  cases d with
  | scalar u =>
    rw [scalars] at h
    split at h
    · cases h
    · rename_i hu
      obtain rfl := List.mem_singleton.mp h
      exact eq_false_of_ne_true hu
  | object attributes =>
    rw [scalars] at h
    cases h
  | list items =>
    rw [scalars] at h
    exact not_isNull_of_mem_scalarsOf h

theorem not_isNull_of_mem_scalarsOf {ds : List Datum} {v : Value} (h : v ∈ scalarsOf ds) :
    v.isNull = false := by
  cases ds with
  | nil =>
    rw [scalarsOf] at h
    cases h
  | cons d ds =>
    rw [scalarsOf, List.mem_append] at h
    rcases h with h | h
    · exact not_isNull_of_mem_scalars h
    · exact not_isNull_of_mem_scalarsOf h

end

end Datum

theorem Store.not_isNull_of_mem_values {st : Store} {steps : List Step} {r : Record} {v : Value}
    (h : v ∈ st.values steps r) : v.isNull = false := by
  induction steps generalizing r with
  | nil =>
    rw [values] at h
    cases h
  | cons step steps ih =>
    have hnext (h : v ∈ (st.reached step r).flatMap (st.values steps)) : v.isNull = false := by
      obtain ⟨r', _, hr'⟩ := List.mem_flatMap.mp h
      exact ih hr'
    rw [values] at h
    split at h
    · cases hd : r.get? step.name with
      | none =>
        rw [hd] at h
        cases h
      | some d =>
        rw [hd] at h
        exact Datum.not_isNull_of_mem_scalars h
    · exact hnext h

/-! ## 6. What a clause selects -/

namespace Planner

variable {p : Planner} {entity text : String} {st : Store} {holds holds' : Record → Bool}

/-- The text has a plan. -/
def Translates (p : Planner) (entity text : String) : Prop := ∃ plan, p.planOnce entity text = .ok plan

theorem Selects.translates (h : p.Selects st entity text holds) : p.Translates entity text := by
  obtain ⟨plan, hplan, _⟩ := h .empty .empty
  exact ⟨plan, hplan⟩

/-- What a text selects does not depend on how it is said. -/
theorem Selects.congr (h : p.Selects st entity text holds) (h' : p.Selects st entity text holds')
    {r : Record} (hr : r ∈ st.rows entity) : holds r = holds' r := by
  obtain ⟨plan, hplan, hrows⟩ := h .empty .empty
  obtain ⟨plan', hplan', hrows'⟩ := h' .empty .empty
  obtain rfl := Except.ok.inj (hplan.symm.trans hplan')
  have hmem : r ∈ (st.rows entity).filter holds ↔ r ∈ (st.rows entity).filter holds' := by
    rw [← hrows, hrows']
  rwa [List.mem_filter, List.mem_filter, and_iff_right hr, and_iff_right hr, ← Bool.eq_iff_iff] at hmem

end Planner

namespace OpenClause

variable {p : Planner} {entity : String} {c : OpenClause} {s : RelationSymbol} {path : Path} {o : Operand}

/-- The clause has a plan under a symbol: it is not too long, its field has a path, and its term the operand. -/
structure Planned (p : Planner) (entity : String) (c : OpenClause) (s : RelationSymbol) (path : Path)
    (o : Operand) : Prop where
  length : byteLength (c.text s).toList ≤ p.settings.maxQueryLength
  follow : p.resolver.follow entity c.field.text = .ok path
  operand : Operand.ofTerm p.settings path.domain s c.modifiers c.term.text = .ok o

theorem predicate_iff (hall : sameIgnoringCase c.field.text SearchClause.allRecordsIndex = false)
    {pr : Predicate} :
    Outline.predicate? p entity (Derivation.ofClause (c.derivation s)).reading = some pr ↔
      ∃ path o, p.resolver.follow entity c.field.text = .ok path ∧
        Operand.ofTerm p.settings path.domain s c.modifiers c.term.text = .ok o ∧
        pr = .compare ⟨path, s.comparator, o⟩ := by
  have houtline : (Derivation.ofClause (c.derivation s)).reading =
      .clause c.field.text s c.term.text c.modifiers := rfl
  rw [houtline, Outline.predicate?, hall, if_neg Bool.false_ne_true]
  simp only [Option.bind_eq_bind, Option.bind_eq_some_iff, toOption_eq_some_iff, Option.pure_def,
    Option.some.injEq]
  constructor
  · rintro ⟨path, hpath, o, ho, rfl⟩
    exact ⟨path, o, hpath, ho, rfl⟩
  · rintro ⟨path, o, hpath, ho, rfl⟩
    exact ⟨path, hpath, o, ho, rfl⟩

/-- **A clause that is planned selects the records for which its comparison holds.** -/
theorem Planned.selects (hall : sameIgnoringCase c.field.text SearchClause.allRecordsIndex = false)
    (h : Planned p entity c s path o) (st : Store) :
    p.Selects st entity (c.text s) fun r => o.testAll s.comparator (st.values path.steps r) := by
  have hderives := c.derives s
  have hfits := Planner.fits_of_derives h.length hderives (Nat.zero_le _)
  have hpr := (predicate_iff hall).mpr ⟨path, o, h.follow, h.operand, rfl⟩
  have hselects := Planner.selects_of_derivation hfits hderives hpr st
  simpa only [Store.satisfies, Store.meets] using hselects

/-- A clause that has a plan is planned in this way. -/
theorem planned_of_translates (hall : sameIgnoringCase c.field.text SearchClause.allRecordsIndex = false)
    (h : p.Translates entity (c.text s)) : ∃ path o, Planned p entity c s path o := by
  obtain ⟨plan, hplan⟩ := h
  have hderives := c.derives s
  rw [Planner.planOnce_eq] at hplan
  obtain ⟨q, hq, hplan⟩ := bind_eq_ok_iff.mp hplan
  have hlength : byteLength (c.text s).toList ≤ p.settings.maxQueryLength := by
    refine Nat.not_lt.mp fun hlong => ?_
    rw [Planner.query, if_pos hlong] at hq
    cases hq
  obtain ⟨⟨f?, keys, span⟩, hparse, houtline⟩ := parse_of_derives hderives (Nat.zero_le p.settings.maxDepth)
  obtain rfl := Except.ok.inj (hq.symm.trans (Planner.query_eq_parse hlength hparse))
  simp only [Query.outline, QueryDerivation.reading, Planner.alone, QueryOutline.mk.injEq] at houtline
  obtain ⟨f, rfl, hreading⟩ := Option.map_eq_some_iff.mp houtline.1
  obtain ⟨pr, hpr, _⟩ := bind_eq_ok_iff.mp hplan
  have hpredicate : f.outline.predicate? p entity = some pr := by
    rw [← Planner.filterResult_outline]
    exact congrArg Except.toOption hpr
  rw [hreading] at hpredicate
  obtain ⟨path, o, hpath, ho, _⟩ := (predicate_iff hall).mp hpredicate
  exact ⟨path, o, hlength, hpath, ho⟩

/-- A clause is no longer under a symbol whose spelling is no longer. -/
theorem byteLength_text_le (c : OpenClause) {s s' : RelationSymbol}
    (h : byteLength s'.spelling.toList ≤ byteLength s.spelling.toList) :
    byteLength (c.text s').toList ≤ byteLength (c.text s).toList := by
  simp only [text, String.toList_append, byteLength_append]
  omega

/-- What is planned under a symbol for an order in two characters is planned alike under every symbol but `=`. -/
theorem Planned.other (h : Planned p entity c .atMost path o) {s : RelationSymbol} (hs : s ≠ .word) :
    Planned p entity c s path o := by
  have hspelling : byteLength s.spelling.toList ≤ byteLength RelationSymbol.atMost.spelling.toList := by
    cases s <;> decide
  exact ⟨(c.byteLength_text_le hspelling).trans h.length, h.follow,
    (Operand.ofTerm_of_ordering h.operand rfl hs).1⟩

variable {st : Store}

/-- What is planned under `<=` selects under it what it does under the two symbols that it is made of; so it is
with `>=`. -/
theorem Planned.selects_orderings
    (hall : sameIgnoringCase c.field.text SearchClause.allRecordsIndex = false)
    (h : Planned p entity c .atMost path o) (st : Store) :
    let below (r : Record) := o.testAll .lt (st.values path.steps r)
    let equal (r : Record) := o.testAll .eq (st.values path.steps r)
    let above (r : Record) := o.testAll .gt (st.values path.steps r)
    p.Selects st entity (c.text .less) below ∧ p.Selects st entity (c.text .exact) equal ∧
      p.Selects st entity (c.text .greater) above ∧
      p.Selects st entity (c.text .atMost) (fun r => below r || equal r) ∧
      p.Selects st entity (c.text .atLeast) fun r => above r || equal r := by
  have hnull := Operand.not_isNull_of_ofTerm h.operand
  have hless : RelationSymbol.less ≠ .word := by decide
  have hmode := (Operand.ofTerm_of_ordering h.operand rfl hless).2
  have hselects (s : RelationSymbol) (hs : s ≠ .word) := (h.other hs).selects hall st
  have hatMost (vs : List Value) : o.testAll .le vs = (o.testAll .lt vs || o.testAll .eq vs) :=
    Operand.testAll_or hmode hnull (by decide) (by decide) (by decide) (fun r => by cases r <;> rfl) vs
  have hatLeast (vs : List Value) : o.testAll .ge vs = (o.testAll .gt vs || o.testAll .eq vs) :=
    Operand.testAll_or hmode hnull (by decide) (by decide) (by decide) (fun r => by cases r <;> rfl) vs
  refine ⟨hselects .less hless, hselects .exact (by decide), hselects .greater (by decide), ?_, ?_⟩
  · simpa only [hatMost, RelationSymbol.comparator] using hselects .atMost (by decide)
  · simpa only [hatLeast, RelationSymbol.comparator] using hselects .atLeast (by decide)

/-- One of `==` and `<>` selects a record whose path leads to a value, and none selects another. -/
theorem Planned.selects_equalities
    (hall : sameIgnoringCase c.field.text SearchClause.allRecordsIndex = false)
    (h : Planned p entity c .exact path o) (st : Store) :
    let equal (r : Record) := o.testAll .eq (st.values path.steps r)
    let differs (r : Record) := o.testAll .ne (st.values path.steps r)
    p.Selects st entity (c.text .exact) equal ∧ p.Selects st entity (c.text .notEqual) differs ∧
      ∀ r, ¬(equal r = true ∧ differs r = true) ∧
        ((equal r = true ∨ differs r = true) ↔ ∃ v ∈ st.values path.steps r, v.isNull = false) := by
  have hnotEqual : Planned p entity c .notEqual path o :=
    ⟨(c.byteLength_text_le (by decide)).trans h.length, h.follow,
      Operand.ofTerm_notEqual.trans h.operand⟩
  refine ⟨h.selects hall st, hnotEqual.selects hall st, fun r => ?_⟩
  obtain ⟨hboth, hone⟩ := o.testAll_partition (st.values path.steps r)
  rw [← Bool.and_eq_true, hboth, ← Bool.or_eq_true, hone, Bool.not_eq_true', List.isEmpty_eq_false_iff_exists_mem]
  refine ⟨Bool.false_ne_true, fun ⟨v, hv⟩ => ⟨v, hv, Store.not_isNull_of_mem_values hv⟩, ?_⟩
  rintro ⟨v, hv, _⟩
  exact ⟨v, hv⟩

theorem ne_word {s : RelationSymbol} (hs : s ∈ [.less, .exact, .greater]) : s ≠ .word := by
  rintro rfl
  exact absurd hs (by decide)

/-- Two of `<`, `==` and `>` have the same operand, and one of them asks for an order. -/
theorem Planned.operand_eq {s s' : RelationSymbol} {o' : Operand} (h : Planned p entity c s path o)
    (h' : Planned p entity c s' path o') (hs : s ∈ [.less, .exact, .greater])
    (hs' : s' ∈ [.less, .exact, .greater]) (hne : s ≠ s') : o = o' ∧ o.mode = .exact := by
  have hordering : s.isOrdering = true ∨ s'.isOrdering = true := by
    simp only [List.mem_cons, List.not_mem_nil, or_false] at hs hs'
    rcases hs with rfl | rfl | rfl <;> rcases hs' with rfl | rfl | rfl <;>
      first
      | exact absurd rfl hne
      | exact .inl rfl
      | exact .inr rfl
  rcases hordering with hordering | hordering
  · obtain ⟨hsame, hmode⟩ := Operand.ofTerm_of_ordering h.operand hordering (ne_word hs')
    exact ⟨Except.ok.inj (hsame.symm.trans h'.operand), hmode⟩
  · obtain ⟨hsame, hmode⟩ := Operand.ofTerm_of_ordering h'.operand hordering (ne_word hs)
    obtain rfl := Except.ok.inj (hsame.symm.trans h.operand)
    exact ⟨rfl, hmode⟩

end OpenClause

/-- Only the two equalities ask for the same comparison. -/
theorem RelationSymbol.comparator_inj {s s' : RelationSymbol} (hs : s ≠ .word) (hs' : s' ≠ .word)
    (h : s.comparator = s'.comparator) : s = s' := by
  cases s with
  | word => exact absurd rfl hs
  | _ =>
    cases s' with
    | word => exact absurd rfl hs'
    | _ => first | rfl | cases h

/-- **The relation symbols hang together**, whatever field, term and modifiers the clause has. If it has a plan
under `<=`, it has one under the other symbols for an order and under `==`; `<=` selects what `<` or `==` selects,
and `>=` what `>` or `==` does. If it has a plan under `==`, it has one under `<>`; no record is selected by both,
and one of them selects every record whose path leads to a value. A record whose path leads to exactly one value
is selected by one of `<`, `==` and `>` at most. -/
theorem symbols_coherent (p : Planner) (entity : String) (st : Store) (c : OpenClause)
    (hall : sameIgnoringCase c.field.text SearchClause.allRecordsIndex = false) :
    (p.Translates entity (c.text .atMost) → ∃ below equal above : Record → Bool,
      p.Selects st entity (c.text .less) below ∧ p.Selects st entity (c.text .exact) equal ∧
      p.Selects st entity (c.text .greater) above ∧
      p.Selects st entity (c.text .atMost) (fun r => below r || equal r) ∧
      p.Selects st entity (c.text .atLeast) fun r => above r || equal r) ∧
    (p.Translates entity (c.text .exact) → ∃ path equal differs,
      p.resolver.follow entity c.field.text = .ok path ∧
      p.Selects st entity (c.text .exact) equal ∧ p.Selects st entity (c.text .notEqual) differs ∧
      ∀ r, ¬(equal r = true ∧ differs r = true) ∧
        ((equal r = true ∨ differs r = true) ↔ ∃ v ∈ st.values path.steps r, v.isNull = false)) ∧
    ∀ s ∈ [RelationSymbol.less, .exact, .greater], ∀ s' ∈ [RelationSymbol.less, .exact, .greater], s ≠ s' →
      ∀ holds holds', p.Selects st entity (c.text s) holds → p.Selects st entity (c.text s') holds' →
      ∀ path, p.resolver.follow entity c.field.text = .ok path →
      ∀ r ∈ st.rows entity, ∀ v, st.values path.steps r = [v] → ¬(holds r = true ∧ holds' r = true) := by
  refine ⟨fun h => ?_, fun h => ?_, ?_⟩
  · obtain ⟨path, o, hplanned⟩ := OpenClause.planned_of_translates hall h
    exact ⟨_, _, _, hplanned.selects_orderings hall st⟩
  · obtain ⟨path, o, hplanned⟩ := OpenClause.planned_of_translates hall h
    exact ⟨path, _, _, hplanned.follow, hplanned.selects_equalities hall st⟩
  · intro s hs s' hs' hne holds holds' hselects hselects' path hpath r hr v hv hboth
    obtain ⟨_, o, hplanned⟩ := OpenClause.planned_of_translates hall hselects.translates
    obtain ⟨_, o', hplanned'⟩ := OpenClause.planned_of_translates hall hselects'.translates
    obtain rfl := Except.ok.inj (hplanned.follow.symm.trans hpath)
    obtain rfl := Except.ok.inj (hplanned'.follow.symm.trans hpath)
    obtain ⟨rfl, hmode⟩ := hplanned.operand_eq hplanned' hs hs' hne
    have hholds := (hselects.congr (hplanned.selects hall st) hr).symm.trans hboth.1
    have hholds' := (hselects'.congr (hplanned'.selects hall st) hr).symm.trans hboth.2
    rw [hv] at hholds hholds'
    have hnull := Operand.not_isNull_of_ofTerm hplanned.operand
    have hcomparator := Operand.comparator_eq_of_testAll hmode hnull (List.mem_map_of_mem hs)
      (List.mem_map_of_mem hs') hholds hholds'
    exact hne (RelationSymbol.comparator_inj (OpenClause.ne_word hs) (OpenClause.ne_word hs') hcomparator)

theorem name_free : Keyword.ofWord? "name" = none := by decide

/-- The clause that compares names with Bob's. -/
def nameAndBob : OpenClause where
  field := ⟨"name", name_free⟩
  inner := []
  term := .word "bob"
  outer := []
  compatible := compatible_nil
  before := "name"
  behind := "bob"
  spells_before := .token (t := .word "name") rfl .nil
  spells_behind := .token (t := .word "bob") rfl .nil

/-- It has a plan under every symbol but `=`. -/
theorem nameAndBob_planned {s : RelationSymbol} (hs : s ≠ .word) :
    OpenClause.Planned persons "Person" nameAndBob s personName ⟨.text "bob", .exact, false⟩ :=
  OpenClause.Planned.other ⟨by decide, rfl, rfl⟩ hs

/-- Names compared with Bob's, among which his own is not below. -/
theorem nameAndBob_coherent :
    nameAndBob.text .atMost = "name<=bob" ∧
    (∃ below equal above : Record → Bool,
      persons.Selects bobAndEve "Person" (nameAndBob.text .less) below ∧
      persons.Selects bobAndEve "Person" (nameAndBob.text .exact) equal ∧
      persons.Selects bobAndEve "Person" (nameAndBob.text .greater) above ∧
      persons.Selects bobAndEve "Person" (nameAndBob.text .atMost) (fun r => below r || equal r) ∧
      persons.Selects bobAndEve "Person" (nameAndBob.text .atLeast) fun r => above r || equal r) ∧
    (∃ path equal differs, persons.resolver.follow "Person" "name" = .ok path ∧
      persons.Selects bobAndEve "Person" (nameAndBob.text .exact) equal ∧
      persons.Selects bobAndEve "Person" (nameAndBob.text .notEqual) differs ∧
      ∀ r, ¬(equal r = true ∧ differs r = true) ∧
        ((equal r = true ∨ differs r = true) ↔
          ∃ v ∈ bobAndEve.values path.steps r, v.isNull = false)) ∧
    ∃ below equal : Record → Bool, persons.Selects bobAndEve "Person" (nameAndBob.text .less) below ∧
      persons.Selects bobAndEve "Person" (nameAndBob.text .exact) equal ∧
      ¬(below [("name", .scalar (.text "Bob"))] = true ∧ equal [("name", .scalar (.text "Bob"))] = true) := by
  have hall : sameIgnoringCase nameAndBob.field.text SearchClause.allRecordsIndex = false := by decide
  have hselects {s : RelationSymbol} (hs : s ≠ .word) := (nameAndBob_planned hs).selects hall bobAndEve
  obtain ⟨horderings, hequalities, hsingle⟩ := symbols_coherent persons "Person" bobAndEve nameAndBob hall
  have hbelow := hselects (s := .less) (by decide)
  have hequal := hselects (s := .exact) (by decide)
  refine ⟨rfl, horderings (hselects (by decide)).translates, hequalities hequal.translates, _, _, hbelow,
    hequal, ?_⟩
  have hrow : [("name", .scalar (.text "Bob"))] ∈ bobAndEve.rows "Person" := List.mem_cons_self
  exact hsingle .less (by decide) .exact (by decide) (by decide) _ _ hbelow hequal personName rfl _ hrow
    (.text "Bob") rfl

end ContextualQuery
