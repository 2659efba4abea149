import ContextualQuery.Proofs.Results
import ContextualQuery.Query.Parser
/-!
# What the readers of the grammar take

One rule for every reader of the parser: it takes a value and leaves a rest exactly if the readers
it is made of do, one after the other. The other files speak of the readers through these rules.

* `Takes`: a reader has taken a value, and a rest is left;
* `takes_bind`, `takes_map`, `takes_part_and_parts`, …: readers one after another, in general;
* `takes_form_iff`, `takes_indexName_iff`, …: the readers of single tokens, by the item they take;
* `takes_clause_iff`, `takes_conjunction_iff`, …: the readers made of others;
* `takes_modifiers_stop`, `takes_conjuncts_and`, …: the readers of lists, one rule for each way to
  go on and one for the end.
-/

namespace ContextualQuery

/-! ## 1. Results of readers -/

/-- The reader has taken a value off its input, and the rest is left. -/
def Takes {least : Nat} {α : Type} {input : List Item} (r : Except QueryFault (Portion least α input)) (a : α)
    (rest : List Item) : Prop :=
  ∃ h, r = .ok ⟨a, rest, h⟩

section Takes

variable {least least' : Nat} {α β : Type} {input input' rest : List Item} {a : α}

theorem takes_ok_iff {rest' : List Item} {b : α} (h) :
    Takes (.ok (⟨b, rest', h⟩ : Portion least α input)) a rest ↔ a = b ∧ rest = rest' := by
  constructor
  · intro h
    obtain ⟨h, e⟩ := h
    cases e
    exact ⟨rfl, rfl⟩
  · intro h
    obtain ⟨rfl, rfl⟩ := h
    exact ⟨h, rfl⟩

theorem not_takes_error {f : QueryFault} :
    ¬ Takes (.error f : Except QueryFault (Portion least α input)) a rest := by
  intro h
  obtain ⟨h, e⟩ := h
  cases e

theorem Takes.enough {r : Except QueryFault (Portion least α input)} (h : Takes r a rest) :
    rest.length + least ≤ input.length :=
  h.choose

theorem Takes.shorter {r : Except QueryFault (Parsed α input)} (h : Takes r a rest) :
    rest.length < input.length :=
  h.enough

/-- One reader after another: the second takes what the first has left. -/
theorem takes_bind {x : Except QueryFault (Portion least' β input')}
    {f : Portion least' β input' → Except QueryFault (Portion least α input)} :
    Takes (x >>= f) a rest ↔ ∃ b mid h, Takes x b mid ∧ Takes (f ⟨b, mid, h⟩) a rest := by
  constructor
  · intro h
    obtain ⟨h, e⟩ := h
    obtain ⟨⟨b, mid, h'⟩, hx, hf⟩ := bind_eq_ok_iff.mp e
    exact ⟨b, mid, h', ⟨h', hx⟩, ⟨h, hf⟩⟩
  · intro h
    obtain ⟨b, mid, _, ⟨_, hx⟩, ⟨h, hf⟩⟩ := h
    exact ⟨h, bind_eq_ok_iff.mpr ⟨_, hx, hf⟩⟩

/-- One reader, its result put another way. -/
theorem takes_map {x : Except QueryFault (Portion least' β input')}
    {f : Portion least' β input' → Except QueryFault (Portion least α input)} (k : β → α)
    (hf : ∀ b rest h, ∃ h', f ⟨b, rest, h⟩ = .ok ⟨k b, rest, h'⟩) :
    Takes (x >>= f) a rest ↔ ∃ b, Takes x b rest ∧ a = k b := by
  rw [takes_bind]
  constructor
  · intro h
    obtain ⟨b, mid, hmid, hx, hr⟩ := h
    obtain ⟨hrest, he⟩ := hf b mid hmid
    rw [he] at hr
    obtain ⟨rfl, rfl⟩ := (takes_ok_iff _).mp hr
    exact ⟨b, hx, rfl⟩
  · intro h
    obtain ⟨b, hx, rfl⟩ := h
    obtain ⟨hrest, he⟩ := hf b rest hx.enough
    refine ⟨b, rest, hx.enough, hx, ?_⟩
    rw [he]
    exact ⟨hrest, rfl⟩

/-- A part, and the parts behind it. -/
theorem takes_part_and_parts {γ : Type} {x : Except QueryFault (Parsed β input')}
    {y : (mid : List Item) → Except QueryFault (Trailing γ mid)}
    {f : Parsed β input' → Except QueryFault (Portion least α input)} (k : β → γ → α)
    (hf : ∀ b mid h, Takes (f ⟨b, mid, h⟩) a rest ↔ ∃ c, Takes (y mid) c rest ∧ a = k b c) :
    Takes (x >>= f) a rest ↔
      ∃ b mid c, Takes x b mid ∧ Takes (y mid) c rest ∧ a = k b c := by
  rw [takes_bind]
  constructor
  · intro h
    obtain ⟨b, mid, hmid, hx, hr⟩ := h
    obtain ⟨c, hy, he⟩ := (hf b mid hmid).mp hr
    exact ⟨b, mid, c, hx, hy, he⟩
  · intro h
    obtain ⟨b, mid, c, hx, hy, he⟩ := h
    exact ⟨b, mid, hx.enough, hx, (hf b mid hx.enough).mpr ⟨c, hy, he⟩⟩

end Takes

namespace Parser

/-! ## 2. Single tokens -/

variable {size : Nat} {input rest : List Item}

theorem takes_token_bind {α : Type} {a : α}
    {f : Parsed (Located Token) input → Except QueryFault (Parsed α input)} :
    Takes (token size input >>= f) a rest ↔
      ∃ t mid h, input = .ok t :: mid ∧ Takes (f ⟨t, mid, h⟩) a rest := by
  rw [takes_bind]
  constructor
  · intro h
    obtain ⟨t, mid, h, ⟨h', e⟩, hf⟩ := h
    cases input with
    | nil => cases e
    | cons i input =>
      cases i with
      | error f => cases e
      | ok u =>
        cases e
        exact ⟨_, _, h, rfl, hf⟩
  · intro h
    obtain ⟨t, mid, h, rfl, hf⟩ := h
    exact ⟨t, mid, h, ⟨h, rfl⟩, hf⟩

/-- A reader of the tokens of one form takes such a token, and keeps what it is made of. -/
theorem takes_form_iff {α : Type} {form : α → Token} {a : Located α}
    {f : Parsed (Located Token) input → Except QueryFault (Parsed (Located α) input)}
    (htaken : ∀ b s mid h, f ⟨⟨form b, s⟩, mid, h⟩ = .ok ⟨⟨b, s⟩, mid, h⟩)
    (hother : ∀ v s mid h, (∀ b, v ≠ form b) → ∃ e, f ⟨⟨v, s⟩, mid, h⟩ = .error e) :
    Takes (token size input >>= f) a rest ↔ input = .ok ⟨form a.value, a.span⟩ :: rest := by
  rw [takes_token_bind]
  constructor
  · intro h
    obtain ⟨⟨v, s⟩, mid, h, rfl, hr⟩ := h
    by_cases hv : ∃ b, v = form b
    · obtain ⟨b, rfl⟩ := hv
      rw [htaken] at hr
      obtain ⟨rfl, rfl⟩ := (takes_ok_iff _).mp hr
      rfl
    · obtain ⟨e, he⟩ := hother v s mid h fun b hb => hv ⟨b, hb⟩
      rw [he] at hr
      exact absurd hr not_takes_error
  · intro h
    subst h
    exact ⟨_, rest, Nat.lt_succ_self _, rfl, ⟨_, htaken _ _ _ _⟩⟩

theorem takes_indexName_iff {e : Expectation} {a : Located String} :
    Takes (indexName size e input) a rest ↔
      input = .ok ⟨.word a.value, a.span⟩ :: rest ∧ Keyword.ofWord? a.value = none := by
  rw [indexName, takes_token_bind]
  constructor
  · intro h
    obtain ⟨⟨v, s⟩, mid, h, rfl, hr⟩ := h
    cases v with
    | word text =>
      cases hk : Keyword.ofWord? text with
      | none =>
        simp only [hk] at hr
        obtain ⟨rfl, rfl⟩ := (takes_ok_iff _).mp hr
        exact ⟨rfl, hk⟩
      | some k =>
        simp only [hk] at hr
        exact absurd hr not_takes_error
    | _ => exact absurd hr not_takes_error
  · intro h
    obtain ⟨rfl, hk⟩ := h
    refine ⟨_, rest, Nat.lt_succ_self _, rfl, ?_⟩
    simp only [hk]
    exact ⟨_, rfl⟩

theorem takes_relationSymbol_iff {a : Located RelationSymbol} :
    Takes (relationSymbol size input) a rest ↔
      input = .ok ⟨.relation a.value, a.span⟩ :: rest := by
  refine takes_form_iff (fun _ _ _ _ => rfl) fun v s mid h hv => ?_
  cases v with
  | relation symbol => exact absurd rfl (hv symbol)
  | _ => exact ⟨_, rfl⟩

theorem takes_searchTerm_iff {a : Located String} :
    Takes (searchTerm size input) a rest ↔
      input = .ok ⟨.word a.value, a.span⟩ :: rest ∨
        input = .ok ⟨.phrase a.value, a.span⟩ :: rest := by
  rw [searchTerm, takes_token_bind]
  constructor
  · intro h
    obtain ⟨⟨v, s⟩, mid, h, rfl, hr⟩ := h
    cases v with
    | word text =>
      obtain ⟨rfl, rfl⟩ := (takes_ok_iff _).mp hr
      exact .inl rfl
    | phrase content =>
      obtain ⟨rfl, rfl⟩ := (takes_ok_iff _).mp hr
      exact .inr rfl
    | _ => exact absurd hr not_takes_error
  · intro h
    rcases h with rfl | rfl
    · exact ⟨_, rest, Nat.lt_succ_self _, rfl, ⟨_, rfl⟩⟩
    · exact ⟨_, rest, Nat.lt_succ_self _, rfl, ⟨_, rfl⟩⟩

theorem takes_name_iff {e : Expectation} {a : Located String} :
    Takes (name size e input) a rest ↔ input = .ok ⟨.word a.value, a.span⟩ :: rest := by
  refine takes_form_iff (fun _ _ _ _ => rfl) fun v s mid h hv => ?_
  cases v with
  | word text => exact absurd rfl (hv text)
  | _ => exact ⟨_, rfl⟩

theorem takes_closeParen_iff {u : Unit} :
    Takes (closeParen size input) u rest ↔ ∃ s, input = .ok ⟨.closeParen, s⟩ :: rest := by
  constructor
  · intro h
    obtain ⟨h, e⟩ := h
    cases input with
    | nil => cases e
    | cons i input =>
      cases i with
      | error f => cases e
      | ok t =>
        rw [closeParen] at e
        split at e
        · rename_i ht
          cases e
          obtain ⟨v, s⟩ := t
          cases ht
          exact ⟨s, rfl⟩
        · cases e
  · intro h
    obtain ⟨s, rfl⟩ := h
    exact ⟨Nat.lt_succ_self _, rfl⟩

/-! ## 3. Where lists of parts end -/

/-- The items do not begin with a fault, nor with a token of the property. -/
def Stops (p : Token → Bool) (input : List Item) : Prop :=
  ∀ i rest, input = i :: rest → ∃ t, i = .ok t ∧ p t.value = false

theorem stops_nil (p : Token → Bool) : Stops p [] := fun _ _ h => by cases h

theorem stops_cons_iff {p : Token → Bool} {t : Located Token} :
    Stops p (.ok t :: rest) ↔ p t.value = false := by
  constructor
  · intro h
    obtain ⟨u, hu, hp⟩ := h _ _ rfl
    cases hu
    exact hp
  · intro hp i rest' he
    cases he
    exact ⟨t, rfl, hp⟩

theorem not_stops_error {p : Token → Bool} {f : LexicalFault} :
    ¬ Stops p (.error f :: rest) := by
  intro h
  obtain ⟨t, ht, _⟩ := h _ _ rfl
  cases ht

/-- Items that stop at a property are none, or begin with a token that does not have it. -/
theorem Stops.cases {p : Token → Bool} (h : Stops p input) :
    input = [] ∨ ∃ t i, input = .ok t :: i ∧ p t.value = false := by
  cases input with
  | nil => exact .inl rfl
  | cons i input =>
    obtain ⟨t, rfl, ht⟩ := h i input rfl
    exact .inr ⟨t, input, rfl, ht⟩

theorem Stops.ne_error {p : Token → Bool} (h : Stops p input) (f : LexicalFault) (i : List Item) :
    input ≠ .error f :: i := by
  intro he
  subst he
  exact not_stops_error h

theorem Stops.ne_token {p : Token → Bool} (h : Stops p input) {t : Located Token}
    (ht : p t.value = true) (i : List Item) : input ≠ .ok t :: i := by
  intro he
  subst he
  rw [stops_cons_iff.mp h] at ht
  cases ht

/-- Items stop at a property, begin with a fault, or begin with a token of the property. -/
theorem stops_or (p : Token → Bool) (input : List Item) :
    Stops p input ∨ (∃ f i, input = .error f :: i) ∨
      ∃ t s i, input = .ok ⟨t, s⟩ :: i ∧ p t = true := by
  cases input with
  | nil => exact .inl (stops_nil p)
  | cons i input =>
    cases i with
    | error f => exact .inr (.inl ⟨f, input, rfl⟩)
    | ok t =>
      obtain ⟨v, s⟩ := t
      cases hp : p v with
      | true => exact .inr (.inr ⟨v, s, input, rfl, hp⟩)
      | false => exact .inl (stops_cons_iff.mpr hp)

theorem Stops.mono {p q : Token → Bool} (h : Stops p input)
    (hpq : ∀ t, p t = false → q t = false) : Stops q input := by
  intro i rest he
  obtain ⟨t, ht, hp⟩ := h i rest he
  exact ⟨t, ht, hpq _ hp⟩

/-! ## 4. Search clauses -/

/-- Where no slash follows, the modifiers end. -/
theorem takes_modifiers_stop {set set' : Modifiers} (h : Stops (· == .slash) input) :
    Takes (modifiers size set input) set' rest ↔ set' = set ∧ rest = input := by
  rw [modifiers]
  · exact takes_ok_iff _
  · exact h.ne_error
  · exact fun _ => h.ne_token rfl

/-- Behind a slash stands the name of a modifier whose opposite is not there yet. -/
theorem takes_modifiers_slash {set set' : Modifiers} {s : Span} :
    Takes (modifiers size set (.ok ⟨.slash, s⟩ :: input)) set' rest ↔
      ∃ text s' mid m, input = .ok ⟨.word text, s'⟩ :: mid ∧ Modifier.ofName? text = some m ∧
        set.contains m.opposite = false ∧ Takes (modifiers size (set.insert m) mid) set' rest := by
  rw [modifiers, takes_bind]
  constructor
  · intro h
    obtain ⟨text, mid, h, ht, hr⟩ := h
    rw [takes_name_iff] at ht
    obtain ⟨hl, e⟩ := hr
    obtain ⟨set₁, hadd, e⟩ := bind_eq_ok_iff.mp e
    have hr : Takes _ set' rest := ⟨hl, e⟩
    obtain ⟨set₂, rest₂, h₂, hm, hr⟩ := takes_bind.mp hr
    obtain ⟨rfl, rfl⟩ := (takes_ok_iff _).mp hr
    cases hn : Modifier.ofName? text.value with
    | none =>
      simp only [addModifier, hn] at hadd
      cases hadd
    | some m =>
      cases ho : set.contains m.opposite with
      | true =>
        simp only [addModifier, hn, ho] at hadd
        cases hadd
      | false =>
        simp only [addModifier, hn, ho] at hadd
        cases hadd
        exact ⟨_, _, _, m, ht, hn, ho, hm⟩
  · intro h
    obtain ⟨text, s', mid, m, rfl, hn, ho, hm⟩ := h
    refine ⟨⟨text, s'⟩, mid, Nat.lt_succ_self _, takes_name_iff.mpr rfl, ?_⟩
    obtain ⟨hl, e⟩ := hm
    refine ⟨Nat.le_succ_of_le (Nat.le_succ_of_le hl), ?_⟩
    have hadd : addModifier set ⟨text, s'⟩ = .ok (set.insert m) := by
      simp only [addModifier, hn, ho]
      rfl
    simp only [hadd, bind, Except.bind, e]
    rfl

theorem not_takes_modifiers_error {set set' : Modifiers} {f : LexicalFault} :
    ¬ Takes (modifiers size set (.error f :: input)) set' rest := by
  rw [modifiers]
  exact not_takes_error

/-- A clause is an index name, a symbol, modifiers, a term and further modifiers. -/
theorem takes_clause_iff {c : SearchClause} :
    Takes (clause size input) c rest ↔
      ∃ i₁ i₂ set i₃ i₄, Takes (indexName size .searchClause input) c.field i₁ ∧
        Takes (relationSymbol size i₁) c.symbol i₂ ∧ Takes (modifiers size .empty i₂) set i₃ ∧
        Takes (searchTerm size i₃) c.term i₄ ∧ Takes (modifiers size set i₄) c.modifiers rest := by
  rw [clause, takes_bind]
  constructor
  · intro h
    obtain ⟨field, i₁, h₁, hf, hr⟩ := h
    obtain ⟨symbol, i₂, h₂, hs, hr⟩ := takes_bind.mp hr
    obtain ⟨set, i₃, h₃, hm, hr⟩ := takes_bind.mp hr
    obtain ⟨term, i₄, h₄, ht, hr⟩ := takes_bind.mp hr
    obtain ⟨set', i₅, h₅, hm', hr⟩ := takes_bind.mp hr
    obtain ⟨rfl, rfl⟩ := (takes_ok_iff _).mp hr
    exact ⟨i₁, i₂, set, i₃, i₄, hf, hs, hm, ht, hm'⟩
  · intro h
    obtain ⟨i₁, i₂, set, i₃, i₄, hf, hs, hm, ht, hm'⟩ := h
    refine ⟨c.field, i₁, hf.shorter, hf, ?_⟩
    refine takes_bind.mpr ⟨c.symbol, i₂, hs.shorter, hs, ?_⟩
    refine takes_bind.mpr ⟨set, i₃, hm.enough, hm, ?_⟩
    refine takes_bind.mpr ⟨c.term, i₄, ht.shorter, ht, ?_⟩
    refine takes_bind.mpr ⟨c.modifiers, rest, hm'.enough, hm', ?_⟩
    exact (takes_ok_iff _).mpr ⟨rfl, rfl⟩

/-! ## 5. Filters -/

section Filters

variable {g : GroupReader}

/-- Behind an opening parenthesis stands a filter, and then a closing one. -/
theorem takes_term_group {s : Span} {f : Filter} :
    Takes (term size g (.ok ⟨.openParen, s⟩ :: input)) f rest ↔
      ∃ mid s', Takes (g s input) f mid ∧ mid = .ok ⟨.closeParen, s'⟩ :: rest := by
  rw [term, takes_bind]
  constructor
  · intro h
    obtain ⟨inner, mid, h, hg, hr⟩ := h
    obtain ⟨u, rest', h', hc, hr⟩ := takes_bind.mp hr
    obtain ⟨rfl, rfl⟩ := (takes_ok_iff _).mp hr
    obtain ⟨s', rfl⟩ := takes_closeParen_iff.mp hc
    exact ⟨_, s', hg, rfl⟩
  · intro h
    obtain ⟨mid, s', hg, rfl⟩ := h
    refine ⟨f, _, hg.shorter, hg, takes_bind.mpr ⟨(), rest, Nat.lt_succ_self _, ?_, ?_⟩⟩
    · exact takes_closeParen_iff.mpr ⟨s', rfl⟩
    · exact (takes_ok_iff _).mpr ⟨rfl, rfl⟩

/-- What does not begin with a parenthesis is a search clause. -/
theorem takes_term_clause (hne : ∀ s i, input ≠ .ok ⟨.openParen, s⟩ :: i) {f : Filter} :
    Takes (term size g input) f rest ↔ ∃ c, Takes (clause size input) c rest ∧ f = .clause c := by
  have hclause : ∀ c : SearchClause, Takes (clause size input) c rest →
      ∀ e i, input ≠ .error e :: i := by
    intro c hc e i he
    subst he
    obtain ⟨_, _, _, _, _, hf, _⟩ := takes_clause_iff.mp hc
    cases (takes_indexName_iff.mp hf).1
  by_cases herr : ∃ e i, input = .error e :: i
  · obtain ⟨e, i, rfl⟩ := herr
    rw [term]
    constructor
    · intro h
      exact absurd h not_takes_error
    · intro h
      obtain ⟨c, hc, _⟩ := h
      exact absurd rfl (hclause c hc e i)
  · rw [term]
    · exact takes_map Filter.clause fun _ _ _ => ⟨_, rfl⟩
    · exact fun s i h => hne s i h
    · exact fun e i h => herr ⟨e, i, h⟩

/-- Behind `not` stands a term. -/
theorem takes_negated_not {t : Located Token} (ht : t.value.isKeyword .not = true) {f : Filter} :
    Takes (negated size g (.ok t :: input)) f rest ↔
      ∃ part, Takes (term size g input) part rest ∧ f = .negation t.span part := by
  rw [negated, if_pos ht]
  exact takes_map (Filter.negation t.span) fun _ _ _ => ⟨_, rfl⟩

/-- What does not begin with `not` is a term. -/
theorem takes_negated_plain (hne : ∀ t i, input = .ok t :: i → t.value.isKeyword .not = false)
    {f : Filter} :
    Takes (negated size g input) f rest ↔ Takes (term size g input) f rest := by
  cases input with
  | nil =>
    rw [negated]
    intro t i he
    cases he
  | cons i input =>
    cases i with
    | error e =>
      rw [negated]
      intro t i he
      cases he
    | ok t =>
      rw [negated, if_neg]
      rw [hne t input rfl]
      decide

/-- What ends an `and` chain. -/
def endsConjuncts (t : Token) : Bool := t.isKeyword .and || t.isKeyword .not

theorem takes_conjuncts_stop {fs : List Filter} (h : Stops endsConjuncts input) :
    Takes (conjuncts size g input) fs rest ↔ fs = [] ∧ rest = input := by
  rcases h.cases with rfl | ⟨t, i, rfl, ht⟩
  · rw [conjuncts]
    exact takes_ok_iff _
  · rw [endsConjuncts, Bool.or_eq_false_iff] at ht
    rw [conjuncts, if_neg (by rw [ht.1]; decide), if_neg (by rw [ht.2]; decide)]
    exact takes_ok_iff _

theorem takes_conjuncts_and {t : Located Token} (ht : t.value.isKeyword .and = true)
    {fs : List Filter} :
    Takes (conjuncts size g (.ok t :: input)) fs rest ↔
      ∃ part mid parts, Takes (negated size g input) part mid ∧
        Takes (conjuncts size g mid) parts rest ∧ fs = part :: parts := by
  rw [conjuncts, if_pos ht]
  exact takes_part_and_parts List.cons fun part _ _ =>
    takes_map (List.cons part) fun _ _ _ => ⟨_, rfl⟩

theorem takes_conjuncts_not {t : Located Token} (ht : t.value.isKeyword .not = true)
    {fs : List Filter} :
    Takes (conjuncts size g (.ok t :: input)) fs rest ↔
      ∃ part mid parts, Takes (term size g input) part mid ∧
        Takes (conjuncts size g mid) parts rest ∧ fs = .negation t.span part :: parts := by
  have hand : ¬ t.value.isKeyword .and = true := by
    simp only [Token.isKeyword, beq_iff_eq] at ht ⊢
    rw [ht]
    decide
  rw [conjuncts, if_neg hand, if_pos ht]
  exact takes_part_and_parts (fun part parts => Filter.negation t.span part :: parts)
    fun part _ _ => takes_map (List.cons (Filter.negation t.span part)) fun _ _ _ => ⟨_, rfl⟩

theorem not_takes_conjuncts_error {fs : List Filter} {e : LexicalFault} :
    ¬ Takes (conjuncts size g (.error e :: input)) fs rest := by
  rw [conjuncts]
  exact not_takes_error

theorem takes_conjunction_iff {f : Filter} :
    Takes (conjunction size g input) f rest ↔
      ∃ first mid parts, Takes (negated size g input) first mid ∧
        Takes (conjuncts size g mid) parts rest ∧ f = .chain .and first parts := by
  rw [conjunction]
  exact takes_part_and_parts (Filter.chain .and) fun first _ _ =>
    takes_map (Filter.chain .and first) fun _ _ _ => ⟨_, rfl⟩

theorem takes_disjuncts_stop {fs : List Filter} (h : Stops (·.isKeyword .or) input) :
    Takes (disjuncts size g input) fs rest ↔ fs = [] ∧ rest = input := by
  rcases h.cases with rfl | ⟨t, i, rfl, ht⟩
  · rw [disjuncts]
    exact takes_ok_iff _
  · rw [disjuncts, if_neg (by rw [ht]; decide)]
    exact takes_ok_iff _

theorem takes_disjuncts_or {t : Located Token} (ht : t.value.isKeyword .or = true)
    {fs : List Filter} :
    Takes (disjuncts size g (.ok t :: input)) fs rest ↔
      ∃ part mid parts, Takes (conjunction size g input) part mid ∧
        Takes (disjuncts size g mid) parts rest ∧ fs = part :: parts := by
  rw [disjuncts, if_pos ht]
  exact takes_part_and_parts List.cons fun part _ _ =>
    takes_map (List.cons part) fun _ _ _ => ⟨_, rfl⟩

theorem not_takes_disjuncts_error {fs : List Filter} {e : LexicalFault} :
    ¬ Takes (disjuncts size g (.error e :: input)) fs rest := by
  rw [disjuncts]
  exact not_takes_error

theorem takes_disjunction_iff {f : Filter} :
    Takes (disjunction size g input) f rest ↔
      ∃ first mid parts, Takes (conjunction size g input) first mid ∧
        Takes (disjuncts size g mid) parts rest ∧ f = .chain .or first parts := by
  rw [disjunction]
  exact takes_part_and_parts (Filter.chain .or) fun first _ _ =>
    takes_map (Filter.chain .or first) fun _ _ _ => ⟨_, rfl⟩

end Filters

/-! ## 6. Sort specifications -/

/-- Where no slash follows, the directions end. -/
theorem takes_directions_stop {key : Span} {found : Option Direction}
    {r : Option Direction × Span} (h : Stops (· == .slash) input) :
    Takes (directions size key found input) r rest ↔ r = (found, key) ∧ rest = input := by
  rw [directions]
  · exact takes_ok_iff _
  · exact h.ne_error
  · exact fun _ => h.ne_token rfl

/-- Behind a slash stands the name of a direction, which is the only one. -/
theorem takes_directions_slash {key s : Span} {found : Option Direction}
    {r : Option Direction × Span} :
    Takes (directions size key found (.ok ⟨.slash, s⟩ :: input)) r rest ↔
      ∃ text s' mid d, input = .ok ⟨.word text, s'⟩ :: mid ∧ Direction.ofName? text = some d ∧
        found = none ∧ Takes (directions size (key.merge s') (some d) mid) r rest := by
  rw [directions, takes_bind]
  constructor
  · intro h
    obtain ⟨text, mid, h, ht, hr⟩ := h
    rw [takes_name_iff] at ht
    cases hn : Direction.ofName? text.value with
    | none =>
      simp only [hn] at hr
      exact absurd hr not_takes_error
    | some d =>
      cases found with
      | some e =>
        simp only [hn] at hr
        exact absurd hr not_takes_error
      | none =>
        simp only [hn] at hr
        obtain ⟨r', rest', h', hd, hr⟩ := takes_bind.mp hr
        obtain ⟨rfl, rfl⟩ := (takes_ok_iff _).mp hr
        exact ⟨_, _, mid, d, ht, hn, rfl, hd⟩
  · intro h
    obtain ⟨text, s', mid, d, rfl, hn, rfl, hd⟩ := h
    refine ⟨⟨text, s'⟩, mid, Nat.lt_succ_self _, takes_name_iff.mpr rfl, ?_⟩
    simp only [hn]
    exact takes_bind.mpr ⟨r, rest, hd.enough, hd, (takes_ok_iff _).mpr ⟨rfl, rfl⟩⟩

theorem not_takes_directions_error {key : Span} {found : Option Direction}
    {r : Option Direction × Span} {e : LexicalFault} :
    ¬ Takes (directions size key found (.error e :: input)) r rest := by
  rw [directions]
  exact not_takes_error

theorem takes_sortClause_iff {c : SortClause} :
    Takes (sortClause size input) c rest ↔
      ∃ mid d, Takes (indexName size .sortKey input) c.field mid ∧
        Takes (directions size c.field.span none mid) (d, c.span) rest ∧
        c.direction = d.getD .ascending := by
  rw [sortClause, takes_bind]
  constructor
  · intro h
    obtain ⟨field, mid, h, hf, hr⟩ := h
    obtain ⟨⟨d, span⟩, rest', h', hd, hr⟩ := takes_bind.mp hr
    obtain ⟨rfl, rfl⟩ := (takes_ok_iff _).mp hr
    exact ⟨mid, d, hf, hd, rfl⟩
  · intro h
    obtain ⟨mid, d, hf, hd, hc⟩ := h
    refine ⟨c.field, mid, hf.shorter, hf, ?_⟩
    refine takes_bind.mpr ⟨(d, c.span), rest, hd.enough, hd, ?_⟩
    refine (takes_ok_iff _).mpr ⟨?_, rfl⟩
    rw [← hc]

theorem takes_sortClauses_stop {cs : List SortClause} (h : Stops Token.isWord input) :
    Takes (sortClauses size input) cs rest ↔ cs = [] ∧ rest = input := by
  rcases h.cases with rfl | ⟨t, i, rfl, ht⟩
  · rw [sortClauses]
    exact takes_ok_iff _
  · rw [sortClauses, if_neg (by rw [ht]; decide)]
    exact takes_ok_iff _

theorem takes_sortClauses_word {t : Located Token} (ht : t.value.isWord = true)
    {cs : List SortClause} :
    Takes (sortClauses size (.ok t :: input)) cs rest ↔
      ∃ key mid keys, Takes (sortClause size (.ok t :: input)) key mid ∧
        Takes (sortClauses size mid) keys rest ∧ cs = key :: keys := by
  rw [sortClauses, if_pos ht]
  exact takes_part_and_parts List.cons fun key _ _ =>
    takes_map (List.cons key) fun _ _ _ => ⟨_, rfl⟩

theorem not_takes_sortClauses_error {cs : List SortClause} {e : LexicalFault} :
    ¬ Takes (sortClauses size (.error e :: input)) cs rest := by
  rw [sortClauses]
  exact not_takes_error

/-- A sort specification has one key at least. -/
theorem sortSpecification_eq_ok_iff {cs : List SortClause} :
    sortSpecification size input = .ok (cs, rest) ↔
      Takes (sortClauses size input) cs rest ∧ cs ≠ [] := by
  rw [sortSpecification, bind_eq_ok_iff]
  constructor
  · intro h
    obtain ⟨⟨keys, mid, h⟩, hk, hr⟩ := h
    cases keys with
    | nil =>
      cases mid with
      | nil => cases hr
      | cons i mid => cases i <;> cases hr
    | cons k ks =>
      cases hr
      exact ⟨⟨h, hk⟩, List.cons_ne_nil _ _⟩
  · intro h
    obtain ⟨⟨h, hk⟩, hne⟩ := h
    refine ⟨⟨cs, rest, h⟩, hk, ?_⟩
    cases cs with
    | nil => exact absurd rfl hne
    | cons c cs => rfl

/-! ## 7. Queries -/

/-- The items end, or a sort specification begins. -/
def SortFollows (input : List Item) : Prop :=
  input = [] ∨ ∃ t i, input = .ok t :: i ∧ t.value.isKeyword .sortBy = true

section Queries

variable {limit : Nat}

theorem filter_of_sortFollows (h : SortFollows input) :
    filter size limit input = .ok (none, input) := by
  rcases h with rfl | ⟨t, i, rfl, ht⟩
  · rfl
  · simp only [filter, nextIs, ht, bind, Except.bind, Bool.or_true, if_true]
    rfl

theorem bareTermFollows_lone {t : Located Token} (ht : t.value.isBareTerm = true)
    (h : SortFollows input) : bareTermFollows (.ok t :: input) = .ok true := by
  rcases h with rfl | ⟨u, i, rfl, hu⟩
  · rw [bareTermFollows, if_pos ht]
  · rw [bareTermFollows, if_pos ht, hu]

theorem bareTermFollows_eq_true (h : bareTermFollows input = .ok true) :
    ∃ t i, input = .ok t :: i ∧ t.value.isBareTerm = true := by
  cases input with
  | nil => cases h
  | cons i input =>
    cases i with
    | error e => cases h
    | ok t =>
      refine ⟨t, input, rfl, ?_⟩
      cases hb : t.value.isBareTerm with
      | true => rfl
      | false =>
        simp only [bareTermFollows, hb] at h
        cases h

/-- A lone term is not kept as a filter. -/
theorem filter_lone {t : Located Token} (hs : t.value.isKeyword .sortBy = false)
    (ht : t.value.isBareTerm = true) (h : SortFollows input) :
    filter size limit (.ok t :: input) = .ok (none, input) := by
  simp only [filter, nextIs, hs, bareTermFollows_lone ht h, bind, Except.bind]
  rfl

/-- Any other token begins a filter. -/
theorem filter_disjunction {t : Located Token} (hs : t.value.isKeyword .sortBy = false)
    (hb : bareTermFollows (.ok t :: input) = .ok false) {f : Filter}
    (h : Takes (disjunction size (group size limit limit) (.ok t :: input)) f rest) :
    filter size limit (.ok t :: input) = .ok (some f, rest) := by
  obtain ⟨hlt, e⟩ := h
  simp only [filter, nextIs, hs, hb, e, bind, Except.bind]
  rfl

theorem filter_eq_ok_cases {o : Option Filter}
    (h : filter size limit input = .ok (o, rest)) :
    (o = none ∧ rest = input) ∨
    (o = none ∧ ∃ t, input = .ok t :: rest ∧ t.value.isBareTerm = true) ∨
    ∃ f, o = some f ∧ Takes (disjunction size (group size limit limit) input) f rest := by
  rw [filter] at h
  obtain ⟨sorts, hs, h⟩ := bind_eq_ok_iff.mp h
  split at h
  · cases h
    exact .inl ⟨rfl, rfl⟩
  · obtain ⟨bare, hb, h⟩ := bind_eq_ok_iff.mp h
    split at h
    · rename_i hbare
      cases h
      obtain ⟨t, i, rfl, ht⟩ := bareTermFollows_eq_true (hbare ▸ hb)
      exact .inr (.inl ⟨rfl, t, rfl, ht⟩)
    · obtain ⟨⟨f, mid, hlt⟩, hf, h⟩ := bind_eq_ok_iff.mp h
      cases h
      exact .inr (.inr ⟨f, rfl, hlt, hf⟩)

theorem sorting_word {t : Located Token} (ht : t.value.isKeyword .sortBy = true) :
    sorting size (.ok t :: input) = sortSpecification size input := by
  simp only [sorting, nextIs, ht, bind, Except.bind, if_true]
  rfl

theorem sorting_eq_ok_cases {cs : List SortClause} (h : sorting size input = .ok (cs, rest)) :
    (cs = [] ∧ rest = input) ∨
    ∃ t i, input = .ok t :: i ∧ t.value.isKeyword .sortBy = true ∧
      Takes (sortClauses size i) cs rest ∧ cs ≠ [] := by
  cases input with
  | nil =>
    cases h
    exact .inl ⟨rfl, rfl⟩
  | cons i input =>
    cases i with
    | error e => cases h
    | ok t =>
      cases ht : t.value.isKeyword .sortBy with
      | true =>
        rw [sorting_word ht] at h
        exact .inr ⟨t, input, rfl, ht, sortSpecification_eq_ok_iff.mp h⟩
      | false =>
        simp only [sorting, nextIs, ht, bind, Except.bind] at h
        cases h
        exact .inl ⟨rfl, rfl⟩

/-- A query is a filter and a sort specification, and nothing is left. -/
theorem query_eq_ok_iff {q : Query} :
    query size limit input = .ok q ↔
      ∃ mid, filter size limit input = .ok (q.filter, mid) ∧
        sorting size mid = .ok (q.sort, []) ∧ q.span = ⟨0, size⟩ := by
  rw [query]
  constructor
  · intro h
    obtain ⟨⟨o, mid⟩, hf, h⟩ := bind_eq_ok_iff.mp h
    obtain ⟨⟨keys, rest⟩, hs, h⟩ := bind_eq_ok_iff.mp h
    cases rest with
    | nil =>
      cases h
      exact ⟨mid, hf, hs, rfl⟩
    | cons i rest => cases i <;> cases h
  · intro h
    obtain ⟨mid, hf, hs, hspan⟩ := h
    refine bind_eq_ok_iff.mpr ⟨_, hf, bind_eq_ok_iff.mpr ⟨_, hs, ?_⟩⟩
    rw [← hspan]

end Queries

end Parser

end ContextualQuery
