import ContextualQuery.Catalog.Resolution
/-!
# Resolving with a memory

A resolver follows dotted names through a schema and remembers the paths it has found. Names that lead
nowhere are not remembered.
-/

namespace ContextualQuery

/-! ## 1. Remembered paths -/

/-- Paths under the entity and the dotted name that led to them. -/
structure PathCache where
  entries : List ((String × String) × Path) := []
  deriving DecidableEq, Repr

namespace PathCache

/-- Nothing remembered. -/
def empty : PathCache := {}

/-- The path under an entity and a name. -/
def find? (c : PathCache) (entity field : String) : Option Path :=
  (c.entries.find? (·.1 == (entity, field))).map (·.2)

/-- Remembers a path. -/
def insert (c : PathCache) (entity field : String) (p : Path) : PathCache :=
  ⟨((entity, field), p) :: c.entries⟩

/-- The number of remembered paths. -/
def size (c : PathCache) : Nat := c.entries.length

/-- Behind an insertion stands the new path under its names, and all else as before. -/
theorem find?_insert (c : PathCache) (entity field entity' field' : String) (p : Path) :
    (c.insert entity field p).find? entity' field' =
      if (entity, field) = (entity', field') then some p else c.find? entity' field' := by
  by_cases h : (entity, field) = (entity', field') <;> simp [find?, insert, h]

end PathCache

/-! ## 2. Resolvers -/

/-- The number of steps before the last that a path may have unless it is said otherwise. -/
def Path.usualMaxHops : Nat := 8

/-- A schema, whether to remember paths, and how many steps a path may have before its last. -/
structure Resolver where
  schema : Schema
  isCaching : Bool := true
  maxHops : Nat := Path.usualMaxHops

namespace Resolver

/-- Follows a name without a memory. -/
def follow (r : Resolver) (entity field : String) : Except ResolutionFault Path :=
  r.schema.resolve r.maxHops entity field

/-- The path of a name: the remembered one, or else the one found now, which is remembered. -/
def resolve (r : Resolver) (entity field : String) (c : PathCache) :
    Except ResolutionFault Path × PathCache :=
  if !r.isCaching then (r.follow entity field, c)
  else match c.find? entity field with
    | some p => (.ok p, c)
    | none =>
      match r.follow entity field with
      | .ok p => (.ok p, c.insert entity field p)
      | .error f => (.error f, c)

end Resolver

end ContextualQuery
