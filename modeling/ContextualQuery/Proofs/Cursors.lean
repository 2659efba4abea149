import ContextualQuery.Proofs.Lexing
import ContextualQuery.Query.Lookahead
import Mathlib.Data.List.Forall2
/-!
# Lexers as cursors

A lexer that looks ahead keeps an item, or that there is none, beside its place in the text and whether it has
failed. All that can be asked of it, and of its clones, is answered as if each of them was a number of an item
in one list.

* `ItemSource.items`, `Lookahead.items`: the items that are still to be taken, and what a step does to them
  (`ItemSource.next_eq`, `Lookahead.items_peek`, `Lookahead.items_next`);
* `Cursor.IsAt`: a cursor stands before an item, whatever is done with others;
* `Cursor.Simulates`: cursors that show the same as long as they are related, `Simulates.step`: then so do several
  of them, whatever is done with one, and `Simulates.run`: so do they all along;
* `Cursor.getElem?_run_ofList`: where a number in a list has come to, by the step `getElem?_step_ofList`, and so
  `isAt_ofList`, `isAt_clone`, `isAt_restore`: where such a cursor stands, and others that are made of it;
* `Lookahead.simulates_ofList`: a lexer that looks ahead shows what a number in the list of its items shows;
* `lookahead_walks_items` puts these together.
-/

namespace ContextualQuery

/-! ## 1. The items of a text -/

namespace Lexer

/-- A fault is the last item. -/
theorem items_of_next_error {l l' : Lexer} {f : LexicalFault} (h : l.next = some (.error f, l')) :
    l.items = [.error f] := by
  have hl' : l'.rest = [] := by
    unfold next at h
    simp only at h
    split at h
    · cases h
    · split at h
      · cases h
      · cases h
        rfl
  rw [items_of_next_some h, items_of_next_none (next_of_blank (by rw [hl', List.dropWhile_nil]))]

/-- The items are tokens, and behind them at most one fault. -/
theorem exists_tokens_then_fault (l : Lexer) : ∃ (ts : List (Located Token)) (fault : Option LexicalFault),
    l.items = ts.map .ok ++ fault.toList.map .error := by
  induction l using Lexer.items.induct with
  | case1 l hn => exact ⟨[], none, items_of_next_none hn⟩
  | case2 l i l' hn ih =>
    cases i with
    | error f => exact ⟨[], some f, items_of_next_error hn⟩
    | ok t =>
      obtain ⟨ts, fault, hitems⟩ := ih
      exact ⟨t :: ts, fault, by rw [items_of_next_some hn, hitems]; rfl⟩

/-- No item stands behind a fault. -/
theorem length_of_getElem?_error {l : Lexer} {k : Nat} {f : LexicalFault}
    (h : l.items[k]? = some (.error f)) : l.items.length ≤ k + 1 := by
  obtain ⟨ts, fault, hitems⟩ := l.exists_tokens_then_fault
  have hk : ts.length ≤ k := by
    refine Nat.le_of_not_lt fun hlt => ?_
    rw [hitems, List.getElem?_append_left (by rwa [List.length_map]), List.getElem?_map,
      List.getElem?_eq_getElem hlt] at h
    cases h
  have hfault : fault.toList.length ≤ 1 := by cases fault <;> simp
  rw [hitems, List.length_append, List.length_map, List.length_map]
  omega

end Lexer

namespace ItemSource

variable {resume : Lexer → Lexer} {s : ItemSource}

/-- What a source will give. -/
def items (s : ItemSource) : List Item := if s.failed then [] else s.place.items

theorem items_of_isSpent (h : s.isSpent = true) : s.items = [] := by
  rcases Bool.or_eq_true_iff.mp h with hf | hn
  · rw [items, if_pos hf]
  · have hnext : s.place.next = none := Option.map_eq_none_iff.mp (Option.isNone_iff_eq_none.mp hn)
    rw [items, Lexer.items_of_next_none hnext, ite_self]

/-- A source gives the first of its items, and the others are left. -/
theorem next_eq (resume : Lexer → Lexer) (s : ItemSource) :
    (s.next resume).1 = s.items.head? ∧ (s.next resume).2.items = s.items.tail := by
  unfold next
  split
  · rename_i hf
    rw [items, if_pos hf]
    exact ⟨rfl, rfl⟩
  · rename_i hf
    have hitems : s.items = s.place.items := if_neg hf
    split
    · rename_i hn
      rw [hitems, Lexer.items_of_next_none hn]
      exact ⟨rfl, rfl⟩
    · rename_i hn
      rw [hitems, Lexer.items_of_next_some hn]
      exact ⟨rfl, rfl⟩
    -- the place behind a fault does not matter, for the source has failed
    · rename_i hn
      rw [hitems, Lexer.items_of_next_error hn]
      exact ⟨rfl, rfl⟩

end ItemSource

/-! ## 2. The items of a text that is read with lookahead -/

namespace Lookahead

/-- The items that are still to be taken: the one that is kept, and those of the source. -/
def items (l : Lookahead) : List Item := l.pending.join.toList ++ l.source.items

theorem items_of_pending_none {l : Lookahead} (h : l.pending = none) : l.items = l.source.items := by
  rw [items, h]
  rfl

/-- What is kept is the first of the items, and the source has the others. -/
theorem items_of_pending_some {l : Lookahead} {shown : Option Item} (h : l.pending = some shown) :
    shown = l.items.head? ∧ l.source.items = l.items.tail := by
  cases shown with
  | some i =>
    rw [items, h]
    exact ⟨rfl, rfl⟩
  | none =>
    rw [items, h, ItemSource.items_of_isSpent (l.spent h)]
    exact ⟨rfl, rfl⟩

theorem items_ofText (text : String) : (ofText text).items = (Lexer.ofText text).items := rfl

variable (resume : Lexer → Lexer) (l : Lookahead)

/-- Looking shows the first of the items, and all of them are left. -/
theorem items_peek : (l.peek resume).1 = l.items.head? ∧ (l.peek resume).2.items = l.items := by
  unfold peek
  split
  · rename_i shown h
    exact ⟨(items_of_pending_some h).1, rfl⟩
  · rename_i h
    obtain ⟨hhead, htail⟩ := l.source.next_eq resume
    rw [items_of_pending_none h]
    refine ⟨hhead, ?_⟩
    show (l.source.next resume).1.toList ++ (l.source.next resume).2.items = l.source.items
    rw [hhead, htail]
    cases l.source.items <;> rfl

/-- Taking shows the first of the items, and the others are left. -/
theorem items_next : (l.next resume).1 = l.items.head? ∧ (l.next resume).2.items = l.items.tail := by
  unfold next
  split
  · rename_i shown h
    exact items_of_pending_some h
  · rename_i h
    rw [items_of_pending_none h]
    exact l.source.next_eq resume

end Lookahead

namespace Cursor

/-! ## 3. One operation after the other -/

section Operations

variable {σ : Type} {c : Cursor σ} {pool : List σ} {items : List Item} {ops : List Operation} {i k : Nat}

theorem run_append (c : Cursor σ) (pool : List σ) (ops more : List Operation) :
    c.run pool (ops ++ more) =
      ((c.run pool ops).1 ++ (c.run (c.run pool ops).2 more).1, (c.run (c.run pool ops).2 more).2) := by
  induction ops generalizing pool with
  | nil => rfl
  | cons op ops ih => simp only [List.cons_append, Cursor.run, ih]

/-- What is done with others leaves a cursor as it is. -/
theorem getElem?_step_of_ne (c : Cursor σ) (hi : i < pool.length) {op : Operation}
    (hask : ∀ a, op ≠ .ask a i) (hrestore : ∀ j, op ≠ .restore i j) :
    (c.step pool op).2[i]? = pool[i]? := by
  cases op with
  | ask a j =>
    have hne : j ≠ i := fun he => hask a (by rw [he])
    cases hs : pool[j]? with
    | none => rw [step_ask_of_none a hs]
    | some s => rw [step_ask a hs, List.getElem?_set_ne hne]
  | clone j => exact List.getElem?_append_left hi
  | restore j k =>
    have hne : j ≠ i := fun he => hrestore k (by rw [he])
    cases hs : pool[k]? with
    | none => rw [step_restore_of_none hs]
    | some s => rw [step_restore hs, List.getElem?_set_ne hne]

/-- What a cursor shows to who asks it after some operations. -/
def shows (c : Cursor σ) (pool : List σ) (ops : List Operation) (a : Access) (i : Nat) : Answer :=
  (c.step (c.run pool ops).2 (.ask a i)).1

theorem shows_append (c : Cursor σ) (pool : List σ) (ops more : List Operation) (a : Access) (i : Nat) :
    c.shows pool (ops ++ more) a i = c.shows (c.run pool ops).2 more a i := by
  rw [Cursor.shows, Cursor.shows, run_append]

/-- After these operations a cursor stands before the item with the number `k`: as long as no other is put in its
place it shows that item, or the one as many further on as were then taken from it. -/
def IsAt (c : Cursor σ) (pool : List σ) (items : List Item) (ops : List Operation) (i k : Nat) : Prop :=
  ∀ more a, (∀ j, .restore i j ∉ more) →
    c.shows pool (ops ++ more) a i = .shown items[k + more.count (.ask .next i)]?

/-- Behind the last item there is the end. -/
theorem IsAt.shows_end (h : c.IsAt pool items ops i k) (hk : items.length ≤ k + 1) {more : List Operation}
    (hmore : ∀ j, .restore i j ∉ more) (a : Access) :
    c.shows pool (ops ++ .ask .next i :: more) a i = .shown none := by
  have hrestore (j : Nat) : .restore i j ∉ .ask .next i :: more := by
    rw [List.mem_cons, not_or]
    exact ⟨nofun, hmore j⟩
  rw [h _ a hrestore, List.count_cons_self, List.getElem?_eq_none (by omega)]

end Operations

/-! ## 4. Cursors that answer alike -/

section Simulation

variable {σ τ : Type} {c : Cursor σ} {d : Cursor τ} {R : σ → τ → Prop} {pool : List σ} {pool' : List τ}

/-- Cursors that are related show the same, and are related afterwards. -/
def Simulates (c : Cursor σ) (d : Cursor τ) (R : σ → τ → Prop) : Prop :=
  ∀ a s t, R s t → (c a s).1 = (d a t).1 ∧ R (c a s).2 (d a t).2

/-- Of related lists of cursors, both have one with a number, and these are related, or neither has. -/
theorem getElem?_cases (h : List.Forall₂ R pool pool') (i : Nat) :
    (pool[i]? = none ∧ pool'[i]? = none) ∨ ∃ s t, pool[i]? = some s ∧ pool'[i]? = some t ∧ R s t := by
  induction h generalizing i with
  | nil => exact .inl ⟨rfl, rfl⟩
  | cons hst _ ih =>
    cases i with
    | zero => exact .inr ⟨_, _, rfl, rfl, hst⟩
    | succ i => exact ih i

theorem forall₂_set (h : List.Forall₂ R pool pool') {s : σ} {t : τ} (hst : R s t) (i : Nat) :
    List.Forall₂ R (pool.set i s) (pool'.set i t) := by
  induction h generalizing i with
  | nil => exact .nil
  | cons hxy hrest ih =>
    cases i with
    | zero => exact .cons hst hrest
    | succ i => exact .cons hxy (ih i)

/-- **One operation is answered alike**, and the cursors stay related. -/
theorem Simulates.step (h : Simulates c d R) (hpool : List.Forall₂ R pool pool') (op : Operation) :
    (c.step pool op).1 = (d.step pool' op).1 ∧ List.Forall₂ R (c.step pool op).2 (d.step pool' op).2 := by
  cases op with
  | ask a i =>
    rcases getElem?_cases hpool i with ⟨hs, ht⟩ | ⟨s, t, hs, ht, hst⟩
    · rw [step_ask_of_none a hs, step_ask_of_none a ht]
      exact ⟨rfl, hpool⟩
    · obtain ⟨hshown, hnext⟩ := h a s t hst
      rw [step_ask a hs, step_ask a ht]
      exact ⟨congrArg Answer.shown hshown, forall₂_set hpool hnext i⟩
  | clone i =>
    refine ⟨rfl, List.rel_append hpool ?_⟩
    rcases getElem?_cases hpool i with ⟨hs, ht⟩ | ⟨s, t, hs, ht, hst⟩
    · rw [hs, ht]
      exact .nil
    · rw [hs, ht]
      exact .cons hst .nil
  | restore i j =>
    rcases getElem?_cases hpool j with ⟨hs, ht⟩ | ⟨s, t, hs, ht, hst⟩
    · rw [step_restore_of_none hs, step_restore_of_none ht]
      exact ⟨rfl, hpool⟩
    · rw [step_restore hs, step_restore ht]
      exact ⟨rfl, forall₂_set hpool hst i⟩

/-- **So are all operations, one after the other.** -/
theorem Simulates.run (h : Simulates c d R) (hpool : List.Forall₂ R pool pool') (ops : List Operation) :
    (c.run pool ops).1 = (d.run pool' ops).1 ∧ List.Forall₂ R (c.run pool ops).2 (d.run pool' ops).2 := by
  induction ops generalizing pool pool' with
  | nil => exact ⟨rfl, hpool⟩
  | cons op ops ih =>
    obtain ⟨hanswer, hstep⟩ := h.step hpool op
    obtain ⟨hanswers, hrun⟩ := ih hstep
    exact ⟨congrArg₂ List.cons hanswer hanswers, hrun⟩

theorem Simulates.shows (h : Simulates c d R) (hpool : List.Forall₂ R pool pool') (ops : List Operation)
    (a : Access) (i : Nat) : c.shows pool ops a i = d.shows pool' ops a i :=
  (h.step (h.run hpool ops).2 (.ask a i)).1

theorem Simulates.isAt (h : Simulates c d R) (hpool : List.Forall₂ R pool pool') {items : List Item}
    {ops : List Operation} {i k : Nat} (hd : d.IsAt pool' items ops i k) : c.IsAt pool items ops i k :=
  fun more a hmore => (h.shows hpool (ops ++ more) a i).trans (hd more a hmore)

end Simulation

/-! ## 5. Numbers in a list -/

section Places

variable {items : List Item} {pool : List Nat} {i k : Nat}

theorem answer_ofList (a : Access) (h : pool[i]? = some k) :
    ((ofList items).step pool (.ask a i)).1 = .shown items[k]? := by
  rw [step_ask a h]
  cases a <;> rfl

/-- Looking changes nothing. -/
theorem step_peek_ofList (items : List Item) (pool : List Nat) (i : Nat) :
    ((ofList items).step pool (.ask .peek i)).2 = pool := by
  cases hk : pool[i]? with
  | none => rw [step_ask_of_none .peek hk]
  | some k =>
    obtain ⟨hi, rfl⟩ := List.getElem?_eq_some_iff.mp hk
    rw [step_ask .peek hk]
    exact List.set_getElem_self hi

/-- No other answer is changed by a look. -/
theorem run_eraseIdx_peek (items : List Item) (pool : List Nat) (ops : List Operation) (i : Nat)
    (more : List Operation) : ((ofList items).run pool (ops ++ .ask .peek i :: more)).1.eraseIdx ops.length =
      ((ofList items).run pool (ops ++ more)).1 := by
  induction ops generalizing pool with
  | nil =>
    show ((ofList items).run ((ofList items).step pool (.ask .peek i)).2 more).1 = _
    rw [step_peek_ofList]
    rfl
  | cons op ops ih => exact congrArg (_ :: ·) (ih _)

/-- A number goes on by one when its item is taken, and stays otherwise. -/
theorem getElem?_step_ofList (h : pool[i]? = some k) {op : Operation} (hop : ∀ j, op ≠ .restore i j) :
    ((ofList items).step pool op).2[i]? = some (k + [op].count (.ask .next i)) := by
  have hi : i < pool.length := (List.getElem?_eq_some_iff.mp h).1
  by_cases hnext : op = .ask .next i
  · rw [hnext, step_ask .next h, List.getElem?_set_self hi, List.count_singleton_self]
    rfl
  · rw [List.count_singleton, if_neg (by simpa using hnext), Nat.add_zero]
    by_cases hpeek : op = .ask .peek i
    · rw [hpeek, step_peek_ofList, h]
    · have hask (a : Access) : op ≠ .ask a i := by cases a <;> assumption
      rw [getElem?_step_of_ne _ hi hask hop, h]

/-- **A number is as far on as items were taken**, whatever was done with others. -/
theorem getElem?_run_ofList (h : pool[i]? = some k) {ops : List Operation} (hops : ∀ j, .restore i j ∉ ops) :
    ((ofList items).run pool ops).2[i]? = some (k + ops.count (.ask .next i)) := by
  induction ops generalizing pool k with
  | nil => exact h
  | cons op ops ih =>
    have hop (j : Nat) : op ≠ .restore i j := fun he => hops j (he ▸ List.mem_cons_self)
    have hrest (j : Nat) : .restore i j ∉ ops := fun hmem => hops j (List.mem_cons_of_mem _ hmem)
    show ((ofList items).run ((ofList items).step pool op).2 ops).2[i]? = _
    rw [ih (getElem?_step_ofList h hop) hrest, ← List.singleton_append (l := ops), List.count_append, Nat.add_assoc]

theorem isAt_ofList {ops : List Operation} (h : ((ofList items).run pool ops).2[i]? = some k) :
    (ofList items).IsAt pool items ops i k := by
  intro more a hmore
  rw [shows_append]
  exact answer_ofList a (getElem?_run_ofList h hmore)

/-- What is shown is the item at which the number stands. -/
theorem exists_isAt_of_shows {ops : List Operation} {a : Access} {item : Option Item}
    (h : (ofList items).shows pool ops a i = .shown item) :
    ∃ k, items[k]? = item ∧ (ofList items).IsAt pool items ops i k := by
  cases hk : ((ofList items).run pool ops).2[i]? with
  | none =>
    rw [Cursor.shows, step_ask_of_none a hk] at h
    cases h
  | some k =>
    rw [Cursor.shows, answer_ofList a hk, Answer.shown.injEq] at h
    exact ⟨k, h, isAt_ofList hk⟩

theorem isAt_clone {ops : List Operation} (h : ((ofList items).run pool ops).2[i]? = some k) :
    (ofList items).IsAt pool items (ops ++ [.clone i]) ((ofList items).run pool ops).2.length k := by
  refine isAt_ofList ?_
  rw [run_append]
  show (((ofList items).run pool ops).2 ++ Option.toList _)[_]? = some k
  rw [h]
  exact List.getElem?_concat_length

theorem isAt_restore {ops : List Operation} (h : ((ofList items).run pool ops).2[i]? = some k) {j : Nat}
    (hj : j < ((ofList items).run pool ops).2.length) :
    (ofList items).IsAt pool items (ops ++ [.restore j i]) j k := by
  refine isAt_ofList ?_
  rw [run_append]
  show ((ofList items).step _ (.restore j i)).2[j]? = some k
  rw [step_restore h]
  exact List.getElem?_set_self hj

/-- Items that are taken one after the other are those of the list, and then the end. -/
theorem run_nexts_ofList (items : List Item) (k n : Nat) :
    ((ofList items).run [k] (List.replicate n (.ask .next 0))).1 =
      (List.range' k n).map fun m => .shown items[m]? := by
  induction n generalizing k with
  | zero => rfl
  | succ n ih => exact congrArg (_ :: ·) (ih (k + 1))

end Places

end Cursor

/-! ## 6. Lexers -/

namespace Lookahead

/-- A lexer stands before the item with a number, if this one and those behind it are still to be taken. -/
def Stands (items : List Item) (l : Lookahead) (k : Nat) : Prop := l.items = items.drop k

/-- **A lexer that looks ahead is a number in the list.** -/
theorem simulates_ofList (resume : Lexer → Lexer) (items : List Item) :
    Cursor.Simulates (cursor resume) (Cursor.ofList items) (Stands items) := by
  intro a l k h
  have hhead : l.items.head? = items[k]? := by rw [h, List.head?_drop]
  cases a with
  | peek =>
    obtain ⟨hshown, hitems⟩ := l.items_peek resume
    exact ⟨hshown.trans hhead, hitems.trans h⟩
  | next =>
    obtain ⟨hshown, hitems⟩ := l.items_next resume
    have htail : l.items.tail = items.drop (k + 1) := by rw [h, List.tail_drop]
    exact ⟨hshown.trans hhead, hitems.trans htail⟩

end Lookahead

/-- **A lexer that looks ahead is a cursor over the items of its text**, wherever its place may be behind a
fault. -/
theorem lookahead_walks_items (resume : Lexer → Lexer) (text : String) :
    let c := Lookahead.cursor resume
    let start := [Lookahead.ofText text]
    let items := (Lexer.ofText text).items
    -- the items that are taken one after the other are tokens and at most one fault; then there is the end
    (∃ (ts : List (Located Token)) (fault : Option LexicalFault),
      items = ts.map .ok ++ fault.toList.map .error) ∧
    (∀ n, (c.run start (List.replicate n (.ask .next 0))).1 = (List.range n).map fun k => .shown items[k]?) ∧
    -- everything is answered as if numbers of items were kept, and nothing else
    (∀ ops, (c.run start ops).1 = ((Cursor.ofList items).run [0] ops).1) ∧
    -- to look changes no other answer
    (∀ ops i more, (c.run start (ops ++ .ask .peek i :: more)).1.eraseIdx ops.length =
      (c.run start (ops ++ more)).1) ∧
    -- a cursor goes on by what is taken from it; so does its clone, and one in whose place it is put
    (∀ ops i, i < (c.run start ops).2.length → ∃ k, c.IsAt start items ops i k ∧
      c.IsAt start items (ops ++ [.clone i]) (c.run start ops).2.length k ∧
      ∀ j < (c.run start ops).2.length, c.IsAt start items (ops ++ [.restore j i]) j k) ∧
    -- behind a fault there is the end
    ∀ ops i f more a, c.shows start ops .next i = .shown (some (.error f)) → (∀ j, .restore i j ∉ more) →
      c.shows start (ops ++ .ask .next i :: more) a i = .shown none := by
  intro c start items
  have hsim : Cursor.Simulates c (Cursor.ofList items) (Lookahead.Stands items) :=
    Lookahead.simulates_ofList resume items
  have hstart : List.Forall₂ (Lookahead.Stands items) start [0] :=
    .cons (Lookahead.items_ofText text) .nil
  have hanswers (ops : List Cursor.Operation) : (c.run start ops).1 = ((Cursor.ofList items).run [0] ops).1 :=
    (hsim.run hstart ops).1
  have hlength (ops : List Cursor.Operation) :
      (c.run start ops).2.length = ((Cursor.ofList items).run [0] ops).2.length :=
    (hsim.run hstart ops).2.length_eq
  refine ⟨(Lexer.ofText text).exists_tokens_then_fault, fun n => ?_, hanswers, fun ops i more => ?_,
    fun ops i hi => ?_, fun ops i f more a hfault hmore => ?_⟩
  · rw [hanswers, Cursor.run_nexts_ofList, List.range_eq_range']
  · rw [hanswers, hanswers, Cursor.run_eraseIdx_peek]
  · rw [hlength] at hi ⊢
    have hk := List.getElem?_eq_getElem hi
    exact ⟨_, hsim.isAt hstart (Cursor.isAt_ofList hk), hsim.isAt hstart (Cursor.isAt_clone hk),
      fun j hj => hsim.isAt hstart (Cursor.isAt_restore hk hj)⟩
  · rw [hsim.shows hstart] at hfault
    obtain ⟨k, hk, hat⟩ := Cursor.exists_isAt_of_shows hfault
    exact (hsim.isAt hstart hat).shows_end (Lexer.length_of_getElem?_error hk) hmore a

/-- Behind a character that cannot be read, the word that follows is not shown. -/
theorem unreadable_hides_word :
    let c := Lookahead.cursor Lexer.behindCharacter
    let start := [Lookahead.ofText "a\x01b"]
    let ops : List Cursor.Operation := [.ask .next 0, .ask .peek 0, .clone 0]
    1 < (c.run start ops).2.length ∧
    (∃ k, c.IsAt start (Lexer.ofText "a\x01b").items ops 1 k) ∧
    c.shows start ops .next 1 = .shown (some (.error (.illegalCharacter '\x01' ⟨1, 2⟩))) ∧
    (∀ j, .restore 1 j ∉ [Cursor.Operation.ask .next 0]) ∧
    c.shows start (ops ++ [.ask .next 1, .ask .next 0]) .peek 1 = .shown none := by
  intro c start ops
  obtain ⟨_, _, _, _, hat, hend⟩ := lookahead_walks_items Lexer.behindCharacter "a\x01b"
  have hlength : 1 < (c.run start ops).2.length := by decide +kernel
  have hfault : c.shows start ops .next 1 = .shown (some (.error (.illegalCharacter '\x01' ⟨1, 2⟩))) := by
    rfl
  have hmore : ∀ j, .restore 1 j ∉ [Cursor.Operation.ask .next 0] := by simp
  obtain ⟨k, hk, _⟩ := hat ops 1 hlength
  exact ⟨hlength, ⟨k, hk⟩, hfault, hmore, hend ops 1 _ [.ask .next 0] .peek hfault hmore⟩

end ContextualQuery
