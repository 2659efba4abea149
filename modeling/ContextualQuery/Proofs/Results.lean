import Mathlib.Data.List.Forall2
/-!
# Steps that may fail

* `bind_eq_ok_iff`, `map_eq_ok_iff`, `mapError_eq_ok_iff`, `toOption_eq_some_iff`: when a step made of
  others succeeds, and `bind_eq_error_iff`, `map_eq_error_iff`, `mapError_eq_error_iff`: when it fails;
* `exists_ok_iff`, `fault?`: a step succeeds or has a fault;
* `mapM_id_map_ok`, `eq_map_ok_of_mapM_id`, `exists_of_mem_mapM`, `mapM_eq_ok_iff`: when a list of steps
  succeeds;
* `FirstFault`: the fault of the first of several parts that fails, and `mapM_eq_error_iff`: with this
  fault a list of steps fails.
-/

namespace ContextualQuery

theorem bind_eq_ok_iff {ε α β : Type} {x : Except ε α} {f : α → Except ε β} {b : β} :
    x >>= f = .ok b ↔ ∃ a, x = .ok a ∧ f a = .ok b := by
  constructor
  · intro h
    cases x with
    | error e => cases h
    | ok a => exact ⟨a, rfl, h⟩
  · intro h
    obtain ⟨a, rfl, h⟩ := h
    exact h

theorem map_eq_ok_iff {ε α β : Type} {x : Except ε α} {f : α → β} {b : β} :
    x.map f = .ok b ↔ ∃ a, x = .ok a ∧ f a = b := by
  cases x with
  | error e => exact ⟨nofun, nofun⟩
  | ok a =>
    constructor
    · intro h
      cases h
      exact ⟨a, rfl, rfl⟩
    · intro h
      obtain ⟨a', ha, rfl⟩ := h
      cases ha
      rfl

theorem mapError_eq_ok_iff {ε ε' α : Type} {x : Except ε α} {f : ε → ε'} {a : α} :
    x.mapError f = .ok a ↔ x = .ok a := by
  cases x with
  | error e => exact ⟨nofun, nofun⟩
  | ok b => exact ⟨fun h => by cases h; rfl, fun h => by cases h; rfl⟩

theorem toOption_eq_some_iff {ε α : Type} {x : Except ε α} {a : α} :
    x.toOption = some a ↔ x = .ok a := by
  cases x with
  | error e => exact ⟨nofun, nofun⟩
  | ok b => exact ⟨fun h => by cases h; rfl, fun h => by cases h; rfl⟩

theorem mapM_id_map_ok {ε α : Type} (as : List α) :
    (as.map fun a => (.ok a : Except ε α)).mapM id = .ok as := by
  induction as with
  | nil => rfl
  | cons a as ih =>
    rw [List.map_cons, List.mapM_cons, ih]
    rfl

theorem eq_map_ok_of_mapM_id {ε α : Type} {xs : List (Except ε α)} {as : List α}
    (h : xs.mapM id = .ok as) : xs = as.map .ok := by
  induction xs generalizing as with
  | nil =>
    rw [List.mapM_nil] at h
    cases h
    rfl
  | cons x xs ih =>
    rw [List.mapM_cons] at h
    obtain ⟨a, hx, hrest⟩ := bind_eq_ok_iff.mp h
    obtain ⟨bs, hbs, he⟩ := bind_eq_ok_iff.mp hrest
    cases he
    rw [ih hbs, List.map_cons, ← hx]
    rfl

/-- What comes out of a list of steps comes out of one of them. -/
theorem exists_of_mem_mapM {ε α β : Type} {f : α → Except ε β} {as : List α} {bs : List β}
    (h : as.mapM f = .ok bs) : ∀ b ∈ bs, ∃ a ∈ as, f a = .ok b := by
  induction as generalizing bs with
  | nil =>
    rw [List.mapM_nil] at h
    cases h
    exact fun b hb => by cases hb
  | cons a as ih =>
    rw [List.mapM_cons] at h
    obtain ⟨b, hb, h⟩ := bind_eq_ok_iff.mp h
    obtain ⟨bs', hbs, h⟩ := bind_eq_ok_iff.mp h
    cases h
    intro b' hb'
    rcases List.mem_cons.mp hb' with rfl | hb'
    · exact ⟨a, List.mem_cons_self, hb⟩
    · obtain ⟨a', ha', hf⟩ := ih hbs b' hb'
      exact ⟨a', List.mem_cons_of_mem _ ha', hf⟩

/-- A list of steps succeeds with what its steps come to, one by one. -/
theorem mapM_eq_ok_iff {ε α β : Type} {f : α → Except ε β} {as : List α} {bs : List β} :
    as.mapM f = .ok bs ↔ List.Forall₂ (fun a b => f a = .ok b) as bs := by
  induction as generalizing bs with
  | nil =>
    rw [List.mapM_nil, List.forall₂_nil_left_iff]
    constructor
    · intro h
      cases h
      rfl
    · rintro rfl
      rfl
  | cons a as ih =>
    rw [List.mapM_cons, bind_eq_ok_iff, List.forall₂_cons_left_iff]
    constructor
    · intro h
      obtain ⟨b, hb, h⟩ := h
      obtain ⟨bs', hbs, h⟩ := bind_eq_ok_iff.mp h
      cases h
      exact ⟨b, bs', hb, ih.mp hbs, rfl⟩
    · intro h
      obtain ⟨b, bs', hb, hbs, rfl⟩ := h
      exact ⟨b, hb, bind_eq_ok_iff.mpr ⟨bs', ih.mpr hbs, rfl⟩⟩

/-! ## Failing -/

theorem bind_eq_error_iff {ε α β : Type} {x : Except ε α} {f : α → Except ε β} {e : ε} :
    x >>= f = .error e ↔ x = .error e ∨ ∃ a, x = .ok a ∧ f a = .error e := by
  cases x with
  | error e' =>
    constructor
    · intro h
      cases h
      exact .inl rfl
    · intro h
      rcases h with h | ⟨a, ha, _⟩
      · cases h
        rfl
      · cases ha
  | ok a =>
    constructor
    · exact fun h => .inr ⟨a, rfl, h⟩
    · intro h
      rcases h with h | ⟨a', ha, h⟩
      · cases h
      · cases ha
        exact h

theorem map_eq_error_iff {ε α β : Type} {x : Except ε α} {f : α → β} {e : ε} :
    x.map f = .error e ↔ x = .error e := by
  cases x with
  | error e' => exact ⟨fun h => by cases h; rfl, fun h => by cases h; rfl⟩
  | ok a => exact ⟨nofun, nofun⟩

theorem mapError_eq_error_iff {ε ε' α : Type} {x : Except ε α} {f : ε → ε'} {e : ε'} :
    x.mapError f = .error e ↔ ∃ e', x = .error e' ∧ f e' = e := by
  cases x with
  | error e' =>
    constructor
    · intro h
      cases h
      exact ⟨e', rfl, rfl⟩
    · intro h
      obtain ⟨e'', he, rfl⟩ := h
      cases he
      rfl
  | ok a => exact ⟨nofun, nofun⟩

/-- A step succeeds exactly if it has no fault. -/
theorem exists_ok_iff {ε α : Type} {x : Except ε α} : (∃ a, x = .ok a) ↔ ∀ e, x ≠ .error e := by
  cases x with
  | error e => exact ⟨nofun, fun h => absurd rfl (h e)⟩
  | ok a => exact ⟨fun _ => nofun, fun _ => ⟨a, rfl⟩⟩

theorem exists_ok_of_isOk {ε α : Type} {x : Except ε α} (h : x.isOk = true) : ∃ a, x = .ok a := by
  cases x with
  | error e => cases h
  | ok a => exact ⟨a, rfl⟩

/-- The fault of a step, if it has one. -/
def fault? {ε α : Type} : Except ε α → Option ε
  | .ok _ => none
  | .error e => some e

theorem fault?_eq_some_iff {ε α : Type} {x : Except ε α} {e : ε} : fault? x = some e ↔ x = .error e := by
  cases x with
  | ok a => exact ⟨nofun, nofun⟩
  | error e' =>
    constructor
    · intro h
      cases h
      rfl
    · intro h
      cases h
      rfl

/-- The fault of the first of several parts that fails: no part before it has a fault. -/
def FirstFault {ε α : Type} (fails : α → ε → Prop) (as : List α) (e : ε) : Prop :=
  ∃ before a after, as = before ++ a :: after ∧ (∀ b ∈ before, ∀ e', ¬ fails b e') ∧ fails a e

section FirstFault

variable {ε α : Type} {fails : α → ε → Prop} {a : α} {as bs : List α} {e : ε}

theorem not_firstFault_nil : ¬ FirstFault fails [] e := by
  intro h
  obtain ⟨before, a, after, h, _⟩ := h
  cases before <;> cases h

theorem firstFault_cons_iff :
    FirstFault fails (a :: as) e ↔ fails a e ∨ (∀ e', ¬ fails a e') ∧ FirstFault fails as e := by
  constructor
  · intro h
    obtain ⟨before, b, after, h, hbefore, hb⟩ := h
    cases before with
    | nil =>
      cases h
      exact .inl hb
    | cons c before =>
      cases h
      obtain ⟨hc, hbefore⟩ := List.forall_mem_cons.mp hbefore
      exact .inr ⟨hc, before, b, after, rfl, hbefore, hb⟩
  · intro h
    rcases h with ha | ⟨ha, before, b, after, rfl, hbefore, hb⟩
    · exact ⟨[], a, as, rfl, nofun, ha⟩
    · exact ⟨a :: before, b, after, rfl, List.forall_mem_cons.mpr ⟨ha, hbefore⟩, hb⟩

theorem firstFault_append_iff :
    FirstFault fails (as ++ bs) e ↔
      FirstFault fails as e ∨ (∀ a ∈ as, ∀ e', ¬ fails a e') ∧ FirstFault fails bs e := by
  induction as with
  | nil => simp [not_firstFault_nil]
  | cons a as ih =>
    rw [List.cons_append, firstFault_cons_iff, firstFault_cons_iff, ih, List.forall_mem_cons]
    tauto

/-- There is no first fault exactly if there is none at all. -/
theorem forall_not_firstFault_iff :
    (∀ e, ¬ FirstFault fails as e) ↔ ∀ a ∈ as, ∀ e, ¬ fails a e := by
  induction as with
  | nil => simp [not_firstFault_nil]
  | cons a as ih =>
    rw [List.forall_mem_cons, ← ih]
    constructor
    · intro h
      have ha : ∀ e, ¬ fails a e := fun e he => h e (firstFault_cons_iff.mpr (.inl he))
      exact ⟨ha, fun e he => h e (firstFault_cons_iff.mpr (.inr ⟨ha, he⟩))⟩
    · rintro ⟨ha, has⟩ e he
      rcases firstFault_cons_iff.mp he with he | ⟨_, he⟩
      · exact ha e he
      · exact has e he

/-- A list of steps fails with the fault of the first of them that fails. -/
theorem mapM_eq_error_iff {β : Type} {f : α → Except ε β} :
    as.mapM f = .error e ↔ FirstFault (fun a e => f a = .error e) as e := by
  induction as with
  | nil =>
    rw [List.mapM_nil]
    exact ⟨nofun, fun h => absurd h not_firstFault_nil⟩
  | cons a as ih =>
    rw [List.mapM_cons, bind_eq_error_iff, firstFault_cons_iff, ← ih]
    constructor
    · intro h
      rcases h with h | ⟨b, hb, h⟩
      · exact .inl h
      · have hno : ∀ e', f a ≠ .error e' := fun e' he => by
          rw [hb] at he
          cases he
        exact .inr ⟨hno, map_eq_error_iff.mp h⟩
    · intro h
      rcases h with h | ⟨hno, h⟩
      · exact .inl h
      · cases hf : f a with
        | error e' => exact absurd hf (hno e')
        | ok b => exact .inr ⟨b, rfl, map_eq_error_iff.mpr h⟩

end FirstFault

end ContextualQuery
