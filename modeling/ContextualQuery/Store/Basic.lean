import ContextualQuery.Record.Basic
/-!
# Stores

A store keeps records in tables, one for every entity, in the order in which they came.
-/

namespace ContextualQuery

/-- The records of every entity. -/
structure Store where
  tables : Dictionary (List Record) := []

namespace Store

/-- A store without records. -/
def empty : Store := {}

/-- The records of an entity. -/
def rows (s : Store) (entity : String) : List Record := (s.tables.find? entity).getD []

/-- Adds records behind those of an entity. -/
def extend (s : Store) (entity : String) (rs : List Record) : Store :=
  ⟨s.tables.insert entity (s.rows entity ++ rs)⟩

/-- Adds a record behind those of an entity. -/
def insert (s : Store) (entity : String) (r : Record) : Store := s.extend entity [r]

/-- The number of records of an entity. -/
def size (s : Store) (entity : String) : Nat := (s.rows entity).length

/-- Whether there are no records at all. -/
def isEmpty (s : Store) : Bool := s.tables.all (·.2.isEmpty)

/-- Adding records changes the table of their entity only. -/
theorem rows_extend (s : Store) (entity other : String) (rs : List Record) :
    (s.extend entity rs).rows other =
      if entity = other then s.rows entity ++ rs else s.rows other := by
  by_cases h : entity = other <;> simp [extend, rows, Dictionary.find?_insert, h]

end Store

end ContextualQuery
