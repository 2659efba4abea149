import ContextualQuery.Query.Lexer
/-!
# Looking ahead

A parser looks at an item before it takes it, and tries a few items without taking any. The file fixes

* `ItemSource`, which gives the items of a text one by one, and none behind a fault,
* `Lookahead`, which keeps the item that was looked at and not yet taken, and
* `Cursor.step` and `Cursor.run`: what is answered when several cursors, made of each other, are asked for
  items in whatever order.
-/

namespace ContextualQuery

/-! ## 1. Items one by one -/

/-- The place after the first character that is no blank. -/
def Lexer.behindCharacter (l : Lexer) : Lexer :=
  ⟨l.skipSeparators.rest.tail, l.skipSeparators.offset + byteLength (l.skipSeparators.rest.take 1)⟩

/-- A place in a text from which items are given until one of them is a fault. -/
structure ItemSource where
  place : Lexer
  failed : Bool
  deriving DecidableEq, Repr

namespace ItemSource

/-- The next item. Behind a fault the place is wherever `resume` puts it: no item is taken from there. -/
def next (resume : Lexer → Lexer) (s : ItemSource) : Option Item × ItemSource :=
  if s.failed then (none, s)
  else
    match s.place.next with
    | none => (none, s)
    | some (.ok t, place) => (some (.ok t), ⟨place, false⟩)
    | some (.error f, _) => (some (.error f), ⟨resume s.place, true⟩)

/-- Whether there is nothing left to give. -/
def isSpent (s : ItemSource) : Bool := s.failed || s.place.peek.isNone

/-- A source that has given nothing is spent. -/
theorem isSpent_next {resume : Lexer → Lexer} {s : ItemSource} (h : (s.next resume).1 = none) :
    (s.next resume).2.isSpent = true := by
  unfold next at h ⊢
  split at h
  · rename_i hf
    rw [if_pos hf, isSpent, hf, Bool.true_or]
  · rename_i hf
    rw [if_neg hf]
    split at h
    · rename_i hn
      simp only [isSpent, Lexer.peek, hn, Option.map_none, Option.isNone_none, Bool.or_true]
    · cases h
    · cases h

end ItemSource

/-! ## 2. One item ahead -/

/-- A source with what was looked at and not yet taken: an item, or that there is none, which is seen only when
the source is spent. -/
structure Lookahead where
  source : ItemSource
  pending : Option (Option Item)
  spent : pending = some none → source.isSpent = true

namespace Lookahead

variable (resume : Lexer → Lexer)

/-- The start of a text, where nothing was looked at. -/
def ofText (text : String) : Lookahead := ⟨⟨.ofText text, false⟩, none, nofun⟩

/-- Shows the next item, and keeps it. -/
def peek (l : Lookahead) : Option Item × Lookahead :=
  match l.pending with
  | some shown => (shown, l)
  | none =>
    let taken := l.source.next resume
    (taken.1, ⟨taken.2, some taken.1, fun h => ItemSource.isSpent_next (Option.some.inj h)⟩)

/-- Takes the next item: the one that was kept, if there is one. -/
def next (l : Lookahead) : Option Item × Lookahead :=
  match l.pending with
  | some shown => (shown, ⟨l.source, none, nofun⟩)
  | none =>
    let taken := l.source.next resume
    (taken.1, ⟨taken.2, none, nofun⟩)

end Lookahead

/-! ## 3. Cursors -/

/-- To look at the next item, or to take it. -/
inductive Access
  | peek
  | next
  deriving DecidableEq, Repr

/-- What shows one item after another: the item at which it stands, and what it is afterwards. -/
abbrev Cursor (σ : Type) := Access → σ → Option Item × σ

/-- A text that is read with an item of lookahead. -/
def Lookahead.cursor (resume : Lexer → Lexer) : Cursor Lookahead
  | .peek, l => l.peek resume
  | .next, l => l.next resume

namespace Cursor

/-- A list of items, of which the number of the next one is all that changes. -/
def ofList (items : List Item) : Cursor Nat
  | .peek, k => (items[k]?, k)
  | .next, k => (items[k]?, k + 1)

/-- What may be done with several cursors, which have the numbers 0, 1, 2, …: one is asked for an item, a new
one is made as a clone of one, or one is put where another one is. -/
inductive Operation
  | ask (a : Access) (i : Nat)
  | clone (i : Nat)
  | restore (i j : Nat)
  deriving DecidableEq, Repr

/-- An item or the end is shown to who asks for it; nothing is said otherwise. -/
inductive Answer
  | shown (item : Option Item)
  | done

variable {σ : Type}

/-- The answer to an operation, and the cursors afterwards, the newest of them last. With a number that no
cursor has, nothing is done. -/
def step (c : Cursor σ) (pool : List σ) : Operation → Answer × List σ
  | .ask a i =>
    match pool[i]? with
    | some s => (.shown (c a s).1, pool.set i (c a s).2)
    | none => (.done, pool)
  | .clone i => (.done, pool ++ pool[i]?.toList)
  | .restore i j =>
    match pool[j]? with
    | some s => (.done, pool.set i s)
    | none => (.done, pool)

variable {c : Cursor σ} {pool : List σ} {i j : Nat} {s : σ}

theorem step_ask (a : Access) (h : pool[i]? = some s) :
    c.step pool (.ask a i) = (.shown (c a s).1, pool.set i (c a s).2) := by
  simp only [step, h]

theorem step_ask_of_none (a : Access) (h : pool[i]? = none) : c.step pool (.ask a i) = (.done, pool) := by
  simp only [step, h]

theorem step_restore (h : pool[j]? = some s) : c.step pool (.restore i j) = (.done, pool.set i s) := by
  simp only [step, h]

theorem step_restore_of_none (h : pool[j]? = none) : c.step pool (.restore i j) = (.done, pool) := by
  simp only [step, h]

/-- The answers to several operations, one after the other, and the cursors afterwards. -/
def run (c : Cursor σ) (pool : List σ) : List Operation → List Answer × List σ
  | [] => ([], pool)
  | op :: rest =>
    let (answer, pool) := c.step pool op
    let (answers, pool) := run c pool rest
    (answer :: answers, pool)

end Cursor

end ContextualQuery
