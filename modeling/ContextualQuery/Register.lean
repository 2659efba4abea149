/-!
# Registers

A register holds entries in the order of a key that each entry has, every key once. An entry takes
the place of an earlier one with the same key, so the order in which entries with different keys
came in cannot be told from the register.
-/

namespace ContextualQuery

/-- Entries in the order of their keys, every key once. -/
structure Register {α : Type} (key : α → String) where
  entries : List α
  ordered : entries.Pairwise (key · < key ·)

namespace Register

variable {α : Type} {key : α → String}

instance [DecidableEq α] : DecidableEq (Register key) := fun r s =>
  decidable_of_iff (r.entries = s.entries) (by cases r; cases s; simp)

instance [Repr α] : Repr (Register key) := ⟨fun r n => reprPrec r.entries n⟩

/-- The register without entries. -/
def empty : Register key := ⟨[], .nil⟩

instance : Inhabited (Register key) := ⟨empty⟩

/-! ## 1. Entering -/

/-- Puts an entry where its key belongs. -/
def place (key : α → String) (a : α) : List α → List α
  | [] => [a]
  | b :: rest =>
    if key a < key b then a :: b :: rest
    else if key a = key b then a :: rest
    else b :: place key a rest

/-- Placing an entry adds no other. -/
theorem mem_of_mem_place {a x : α} {l : List α} (h : x ∈ place key a l) : x = a ∨ x ∈ l := by
  induction l with
  | nil => simpa [place] using h
  | cons b l ih =>
    simp only [place] at h
    split at h
    · simpa using h
    · split at h
      · rcases List.mem_cons.1 h with h | h
        · exact .inl h
        · exact .inr (List.mem_cons_of_mem _ h)
      · rcases List.mem_cons.1 h with h | h
        · exact .inr (h ▸ List.mem_cons_self)
        · exact (ih h).imp id (List.mem_cons_of_mem _)

/-- Placing an entry keeps the order. -/
theorem ordered_place (a : α) {l : List α} (h : l.Pairwise (key · < key ·)) :
    (place key a l).Pairwise (key · < key ·) := by
  induction l with
  | nil => simp [place]
  | cons b l ih =>
    obtain ⟨hb, hl⟩ := List.pairwise_cons.1 h
    simp only [place]
    split
    · rename_i hab
      refine List.pairwise_cons.2 ⟨fun c hc => ?_, h⟩
      rcases List.mem_cons.1 hc with rfl | hc
      · exact hab
      · exact String.lt_trans hab (hb c hc)
    · split
      · rename_i hab
        exact List.pairwise_cons.2 ⟨fun c hc => hab ▸ hb c hc, hl⟩
      · rename_i hlt hne
        refine List.pairwise_cons.2 ⟨fun c hc => ?_, ih hl⟩
        rcases mem_of_mem_place hc with rfl | hc
        · exact Std.lt_of_le_of_ne (String.not_lt.1 hlt) (Ne.symm hne)
        · exact hb c hc

/-- Enters an entry, in place of an earlier one with its key. -/
def insert (r : Register key) (a : α) : Register key := ⟨place key a r.entries, ordered_place a r.ordered⟩

/-- Enters the entries of a list one after the other. -/
def insertAll (r : Register key) (as : List α) : Register key := as.foldl insert r

/-! ## 2. Looking up -/

/-- The entry with a key. -/
def find? (r : Register key) (k : String) : Option α := r.entries.find? (key · == k)

/-- Whether there is an entry with a key. -/
def has (r : Register key) (k : String) : Bool := (r.find? k).isSome

@[simp] theorem find?_empty (k : String) : (empty : Register key).find? k = none := rfl

/-- An entry found is one of the register, and has the key. -/
theorem mem_of_find? {r : Register key} {k : String} {a : α} (h : r.find? k = some a) :
    a ∈ r.entries ∧ key a = k :=
  ⟨List.mem_of_find?_eq_some h, by simpa using List.find?_some h⟩

/-- Behind an insertion stands the new entry under its key, and all else as before. -/
theorem find?_insert (r : Register key) (a : α) (k : String) :
    (r.insert a).find? k = if key a = k then some a else r.find? k := by
  obtain ⟨l, h⟩ := r
  simp only [insert, find?]
  clear h
  induction l with
  | nil => by_cases hk : key a = k <;> simp [place, hk]
  | cons b l ih =>
    simp only [place]
    split
    · by_cases hk : key a = k <;> simp [hk]
    · split
      · rename_i hab
        by_cases hk : key a = k
        · simp [hk]
        · have hb : key b ≠ k := hab ▸ hk
          simp [hk, hb]
      · rename_i hne
        by_cases hb : key b = k
        · have : key a ≠ k := hb ▸ hne
          simp [hb, this]
        · simp only [List.find?_cons, beq_eq_false_iff_ne.2 hb]
          exact ih

end Register

end ContextualQuery
