/-!
# Dictionaries

A dictionary is a list of named entries in the order of their names, each name once. Names are
ordered character by character. `Dictionary.insert` and `Dictionary.ofList` build such lists,
`Dictionary.find?` looks a name up.
-/

namespace ContextualQuery

/-- Named entries. -/
abbrev Dictionary (α : Type) := List (String × α)

namespace Dictionary

/-- Puts an entry where its name belongs, in place of an earlier one of the same name. -/
def insert {α : Type} (name : String) (a : α) : Dictionary α → Dictionary α
  | [] => [(name, a)]
  | (other, b) :: rest =>
    if name < other then (name, a) :: (other, b) :: rest
    else if name = other then (name, a) :: rest
    else (other, b) :: insert name a rest

/-- The dictionary of a list of entries; of a repeated name the last counts. -/
def ofList {α : Type} (entries : List (String × α)) : Dictionary α :=
  entries.foldl (fun d e => insert e.1 e.2 d) []

/-- The entry of a name. -/
def find? {α : Type} (name : String) : Dictionary α → Option α
  | [] => none
  | (other, b) :: rest => if other = name then some b else find? name rest

/-- The names, in their order. -/
def names {α : Type} (d : Dictionary α) : List String := d.map (·.1)

/-- Behind an insertion stands the new entry under its name, and all else as before. -/
theorem find?_insert {α : Type} (name other : String) (a : α) (d : Dictionary α) :
    find? other (insert name a d) = if name = other then some a else find? other d := by
  induction d with
  | nil => simp [insert, find?]
  | cons e d ih =>
    obtain ⟨n, b⟩ := e
    simp only [insert]
    split
    · simp [find?]
    · split
      · rename_i h
        subst h
        by_cases h : name = other <;> simp [find?, h]
      · rename_i h
        by_cases hn : n = other
        · have : name ≠ other := fun e => h (e.trans hn.symm)
          simp [find?, hn, this]
        · simp [find?, hn, ih]

end Dictionary

/-- The texts of a list in their order, each once. -/
def sortedSet (names : List String) : List String :=
  (Dictionary.ofList (names.map fun n => (n, ()))).names

end ContextualQuery
