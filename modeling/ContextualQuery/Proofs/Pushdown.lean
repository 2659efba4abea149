import ContextualQuery.Proofs.Results
import ContextualQuery.Query.Parser
import Mathlib.Logic.Relation
/-!
# Reading filters with a stack

The readers of filters call each other. Here is what they do as a machine that keeps the calls that have not
returned on a stack: it reads a part, or gives one that has been read to the frame on top.

* `Pushdown.Frame`, `Pushdown.State`, `Pushdown.step`: the machine. The parts of a chain are one frame, however
  many there are;
* `Pushdown.Comes`: the machine comes to where a reader leaves off, or to the fault at which it stops, with one
  rule for readers one after another;
* `comes_term`, …, `comes_disjunction`: so it is with each reader, by induction on the items for the lists of
  parts, and on the levels for groups (`groupComes_group`);
* `Pushdown.Fits`, `fits_step`: what stands on the stack at any time, by one step, and `fits_steps`: by all;
* `pushdown_reads_filters` puts these together: the machine reads what the parser reads, and never has more open
  groups on its stack than are allowed, nor more than four frames for each of them and three besides.
-/

namespace ContextualQuery

open ContextualQuery.Parser

namespace Pushdown

/-! ## 1. The machine -/

/-- What is waited for: the next part of a chain that begins with these parts, the part of a negation, or the
end of a group. -/
inductive Frame
  | disjuncts (before : List Filter)
  | conjuncts (before : List Filter)
  | negation (word : Span)
  | group

/-- What is read. -/
inductive Goal
  | disjunction
  | conjunction
  | negated
  | term

/-- What is to be done: to read something, or to give the frame on top what has been read. -/
inductive Control
  | read (n : Goal)
  | give (f : Filter)

/-- The machine at work: what is to be done, the items that are left, and the frames that wait. -/
structure State where
  control : Control
  input : List Item
  stack : List Frame

/-- The number of groups that are open. -/
def openGroups : List Frame → Nat
  | [] => 0
  | .group :: rest => openGroups rest + 1
  | _ :: rest => openGroups rest

/-- The chain of a part with the parts before and after it. -/
def joined (op : Connective) (before : List Filter) (f : Filter) (after : List Filter) : Filter :=
  match before with
  | [] => .chain op f after
  | first :: parts => .chain op first (parts ++ f :: after)

/-- Gives a part to an `and` chain, which goes on with `and` or `not`. -/
def giveConjunct (before : List Filter) (f : Filter) (stack : List Frame) : List Item → Except QueryFault State
  | [] => .ok ⟨.give (joined .and before f []), [], stack⟩
  | .error e :: _ => .error (.lexical e)
  | .ok t :: rest =>
    if t.value.isKeyword .and then .ok ⟨.read .negated, rest, .conjuncts (before ++ [f]) :: stack⟩
    else if t.value.isKeyword .not then
      .ok ⟨.read .term, rest, .negation t.span :: .conjuncts (before ++ [f]) :: stack⟩
    else .ok ⟨.give (joined .and before f []), .ok t :: rest, stack⟩

/-- Gives a part to an `or` chain, which goes on with `or`. -/
def giveDisjunct (before : List Filter) (f : Filter) (stack : List Frame) : List Item → Except QueryFault State
  | [] => .ok ⟨.give (joined .or before f []), [], stack⟩
  | .error e :: _ => .error (.lexical e)
  | .ok t :: rest =>
    if t.value.isKeyword .or then .ok ⟨.read .conjunction, rest, .disjuncts (before ++ [f]) :: stack⟩
    else .ok ⟨.give (joined .or before f []), .ok t :: rest, stack⟩

/-- Begins a part that may be negated. -/
def readNegated (stack : List Frame) : List Item → State
  | .ok t :: rest =>
    if t.value.isKeyword .not then ⟨.read .term, rest, .negation t.span :: stack⟩
    else ⟨.read .term, .ok t :: rest, stack⟩
  | input => ⟨.read .term, input, stack⟩

/-- Begins a group, if another one may be opened, or reads a search clause. -/
def readTerm (size limit : Nat) (stack : List Frame) : List Item → Except QueryFault State
  | .ok ⟨.openParen, opening⟩ :: rest =>
    if openGroups stack < limit then .ok ⟨.read .disjunction, rest, .group :: stack⟩
    else .error (.grammatical ⟨opening, .nestingAtMost limit, .token .openParen⟩)
  | .error f :: _ => .error (.lexical f)
  | input => (clause size input).map fun p => ⟨.give (.clause p.value), p.rest, stack⟩

/-- One step of the machine. With nothing on the stack, what is given is the result. -/
def step (size limit : Nat) (s : State) : Except QueryFault State :=
  match s.control, s.stack with
  | .read .disjunction, stack => .ok ⟨.read .conjunction, s.input, .disjuncts [] :: stack⟩
  | .read .conjunction, stack => .ok ⟨.read .negated, s.input, .conjuncts [] :: stack⟩
  | .read .negated, stack => .ok (readNegated stack s.input)
  | .read .term, stack => readTerm size limit stack s.input
  | .give f, [] => .ok ⟨.give f, s.input, []⟩
  | .give f, .disjuncts before :: stack => giveDisjunct before f stack s.input
  | .give f, .conjuncts before :: stack => giveConjunct before f stack s.input
  | .give f, .negation word :: stack => .ok ⟨.give (.negation word f), s.input, stack⟩
  | .give f, .group :: stack => (closeParen size s.input).map fun p => ⟨.give f, p.rest, stack⟩

/-- Some steps of the machine. -/
abbrev Steps (size limit : Nat) : State → State → Prop :=
  Relation.ReflTransGen fun s s' => step size limit s = .ok s'

/-- The machine before it reads a filter off the items. -/
def start (input : List Item) : State := ⟨.read .disjunction, input, []⟩

theorem joined_cons (op : Connective) (before : List Filter) (f g : Filter) (after : List Filter) :
    joined op before f (g :: after) = joined op (before ++ [f]) g after := by
  cases before with
  | nil => rfl
  | cons first parts =>
    show Filter.chain op first (parts ++ f :: g :: after) = .chain op first (parts ++ [f] ++ g :: after)
    rw [List.append_assoc]
    rfl

/-! ## 2. What the machine comes to -/

/-- From the state the machine comes to where the reader leaves off, or to the fault at which it stops. -/
def Comes (size limit : Nat) {α : Type} (s : State) (r : Except QueryFault α) (after : α → State) : Prop :=
  match r with
  | .ok a => Steps size limit s (after a)
  | .error e => ∃ s', Steps size limit s s' ∧ step size limit s' = .error e

section Comes

variable {size limit : Nat} {α β : Type} {s s' : State} {after : α → State} {after' : β → State}

theorem comes_ok (a : α) : Comes size limit (after a) (.ok a) after := .refl

theorem comes_error {e : QueryFault} (h : step size limit s = .error e) : Comes size limit s (.error e) after :=
  ⟨s, .refl, h⟩

theorem Comes.from_steps {r : Except QueryFault α} (hs : Steps size limit s s') (h : Comes size limit s' r after) :
    Comes size limit s r after := by
  cases r with
  | ok a => exact hs.trans h
  | error e =>
    obtain ⟨t, ht, he⟩ := h
    exact ⟨t, hs.trans ht, he⟩

theorem Comes.from_step {r : Except QueryFault α} (hs : step size limit s = .ok s')
    (h : Comes size limit s' r after) : Comes size limit s r after :=
  h.from_steps (.single hs)

/-- One reader after another. -/
theorem comes_bind {x : Except QueryFault α} {f : α → Except QueryFault β} (hx : Comes size limit s x after)
    (hf : ∀ a, Comes size limit (after a) (f a) after') : Comes size limit s (x >>= f) after' := by
  cases x with
  | ok a => exact (hf a).from_steps hx
  | error e => exact hx

/-- A reader that is one step of the machine. -/
theorem comes_of_step {x : Except QueryFault α} (h : step size limit s = x.map after) :
    Comes size limit s x after := by
  cases x with
  | ok a => exact .single h
  | error e => exact comes_error h

end Comes

/-! ## 3. The readers -/

/-- What is read is given to the frame on top of the stack. -/
def given {input : List Item} (stack : List Frame) (p : Parsed Filter input) : State := ⟨.give p.value, p.rest, stack⟩

/-- The reader of groups opens a group where another level may be opened, or stops there. -/
def GroupComes (size limit levels : Nat) (g : GroupReader) : Prop :=
  ∀ opening input stack, openGroups stack + levels = limit →
    Comes size limit ⟨.read .term, .ok ⟨.openParen, opening⟩ :: input, stack⟩ (g opening input)
      (given (.group :: stack))

section Readers

variable {size limit levels : Nat} {g : GroupReader} (hg : GroupComes size limit levels g) {stack : List Frame}
  (hstack : openGroups stack + levels = limit)

include hg hstack

theorem comes_term (input : List Item) :
    Comes size limit ⟨.read .term, input, stack⟩ (term size g input) (given stack) := by
  unfold term
  split
  · rename_i opening rest
    refine comes_bind (hg opening rest stack hstack) fun inner => ?_
    refine comes_bind (comes_of_step rfl) fun close => ?_
    exact comes_ok _
  · exact comes_error rfl
  · rename_i hparen herror
    have hstep : step size limit ⟨.read .term, input, stack⟩ =
        (clause size input).map fun p => ⟨.give (.clause p.value), p.rest, stack⟩ := by
      show readTerm size limit stack input = _
      unfold readTerm
      split
      · exact absurd rfl (hparen _ _)
      · exact absurd rfl (herror _ _)
      · rfl
    refine comes_bind (comes_of_step hstep) fun c => ?_
    exact comes_ok _

theorem comes_negated (input : List Item) :
    Comes size limit ⟨.read .negated, input, stack⟩ (negated size g input) (given stack) := by
  unfold negated
  split
  · rename_i t rest
    split
    · rename_i hnot
      have hstep : step size limit ⟨.read .negated, .ok t :: rest, stack⟩ =
          .ok ⟨.read .term, rest, .negation t.span :: stack⟩ := by
        show Except.ok (readNegated stack (.ok t :: rest)) = _
        rw [readNegated, if_pos hnot]
      have hpart := comes_term hg (show openGroups (.negation t.span :: stack) + levels = limit from hstack) rest
      refine (comes_bind hpart fun part => ?_).from_step hstep
      exact (comes_ok _).from_step rfl
    · rename_i hnot
      have hstep : step size limit ⟨.read .negated, .ok t :: rest, stack⟩ =
          .ok ⟨.read .term, .ok t :: rest, stack⟩ := by
        show Except.ok (readNegated stack (.ok t :: rest)) = _
        rw [readNegated, if_neg hnot]
      exact (comes_term hg hstack _).from_step hstep
  · rename_i hno
    have hstep : step size limit ⟨.read .negated, input, stack⟩ = .ok ⟨.read .term, input, stack⟩ := by
      show Except.ok (readNegated stack input) = _
      unfold readNegated
      split
      · exact absurd rfl (hno _ _)
      · rfl
    exact (comes_term hg hstack _).from_step hstep

/-- Where an `and` chain has got a part, the further parts follow. -/
theorem comes_conjuncts (before : List Filter) (f : Filter) (input : List Item) :
    Comes size limit ⟨.give f, input, .conjuncts before :: stack⟩ (conjuncts size g input)
      fun p => ⟨.give (joined .and before f p.value), p.rest, stack⟩ := by
  have hstep : step size limit ⟨.give f, input, .conjuncts before :: stack⟩ = giveConjunct before f stack input :=
    rfl
  cases input with
  | nil =>
    rw [conjuncts]
    exact (comes_ok _).from_step hstep
  | cons i rest =>
    cases i with
    | error e =>
      rw [conjuncts]
      exact comes_error hstep
    | ok t =>
      rw [giveConjunct] at hstep
      rw [conjuncts]
      split
      · rename_i hand
        rw [if_pos hand] at hstep
        have hpart :=
          comes_negated hg (show openGroups (.conjuncts (before ++ [f]) :: stack) + levels = limit from hstack) rest
        refine (comes_bind hpart fun part => ?_).from_step hstep
        refine comes_bind (comes_conjuncts (before ++ [f]) part.value part.rest) fun parts => ?_
        rw [← joined_cons]
        exact comes_ok _
      · rename_i hand
        rw [if_neg hand] at hstep
        split
        · rename_i hnot
          rw [if_pos hnot] at hstep
          have hpart := comes_term hg (show openGroups (.negation t.span :: .conjuncts (before ++ [f]) :: stack) +
            levels = limit from hstack) rest
          refine (comes_bind hpart fun part => ?_).from_step hstep
          have hnegation := comes_conjuncts (before ++ [f]) (.negation t.span part.value) part.rest
          refine (comes_bind hnegation fun parts => ?_).from_step rfl
          rw [← joined_cons]
          exact comes_ok _
        · rename_i hnot
          rw [if_neg hnot] at hstep
          exact (comes_ok _).from_step hstep
termination_by input.length
decreasing_by all_goals exact Nat.lt_succ_of_lt part.shorter

theorem comes_conjunction (input : List Item) :
    Comes size limit ⟨.read .conjunction, input, stack⟩ (conjunction size g input) (given stack) := by
  have hfirst := comes_negated hg (show openGroups (.conjuncts [] :: stack) + levels = limit from hstack) input
  refine (comes_bind hfirst fun first => ?_).from_step rfl
  refine comes_bind (comes_conjuncts hg hstack [] first.value first.rest) fun parts => ?_
  exact comes_ok _

/-- Where an `or` chain has got a part, the further parts follow. -/
theorem comes_disjuncts (before : List Filter) (f : Filter) (input : List Item) :
    Comes size limit ⟨.give f, input, .disjuncts before :: stack⟩ (disjuncts size g input)
      fun p => ⟨.give (joined .or before f p.value), p.rest, stack⟩ := by
  have hstep : step size limit ⟨.give f, input, .disjuncts before :: stack⟩ = giveDisjunct before f stack input :=
    rfl
  cases input with
  | nil =>
    rw [disjuncts]
    exact (comes_ok _).from_step hstep
  | cons i rest =>
    cases i with
    | error e =>
      rw [disjuncts]
      exact comes_error hstep
    | ok t =>
      rw [giveDisjunct] at hstep
      rw [disjuncts]
      split
      · rename_i hor
        rw [if_pos hor] at hstep
        have hpart := comes_conjunction hg
          (show openGroups (.disjuncts (before ++ [f]) :: stack) + levels = limit from hstack) rest
        refine (comes_bind hpart fun part => ?_).from_step hstep
        refine comes_bind (comes_disjuncts (before ++ [f]) part.value part.rest) fun parts => ?_
        rw [← joined_cons]
        exact comes_ok _
      · rename_i hor
        rw [if_neg hor] at hstep
        exact (comes_ok _).from_step hstep
termination_by input.length
decreasing_by exact Nat.lt_succ_of_lt part.shorter

theorem comes_disjunction (input : List Item) :
    Comes size limit ⟨.read .disjunction, input, stack⟩ (disjunction size g input) (given stack) := by
  have hfirst := comes_conjunction hg (show openGroups (.disjuncts [] :: stack) + levels = limit from hstack) input
  refine (comes_bind hfirst fun first => ?_).from_step rfl
  refine comes_bind (comes_disjuncts hg hstack [] first.value first.rest) fun parts => ?_
  exact comes_ok _

end Readers

/-- **The readers of groups open as many groups as levels are left.** -/
theorem groupComes_group (size limit levels : Nat) : GroupComes size limit levels (group size limit levels) := by
  induction levels with
  | zero =>
    intro opening input stack hstack
    refine comes_error ?_
    show (if openGroups stack < limit then _ else _) = _
    rw [if_neg (by omega)]
  | succ levels ih =>
    intro opening input stack hstack
    have hstep : step size limit ⟨.read .term, .ok ⟨.openParen, opening⟩ :: input, stack⟩ =
        .ok ⟨.read .disjunction, input, .group :: stack⟩ := by
      show (if openGroups stack < limit then _ else _) = _
      rw [if_pos (by omega)]
    have hopen : openGroups (.group :: stack) + levels = limit := by
      rw [openGroups]
      omega
    exact (comes_disjunction ih hopen input).from_step hstep

/-! ## 4. What stands on the stack -/

/-- What the frame on top waits for. Under a group stands what waits for a term, under the parts of a chain
what waits for the chain, and nothing waits besides for a whole filter. -/
inductive Awaits : Goal → List Frame → Prop
  | result : Awaits .disjunction []
  | group {stack : List Frame} (h : Awaits .term stack) : Awaits .disjunction (.group :: stack)
  | disjuncts {before : List Filter} {stack : List Frame} (h : Awaits .disjunction stack) :
      Awaits .conjunction (.disjuncts before :: stack)
  | conjuncts {before : List Filter} {stack : List Frame} (h : Awaits .conjunction stack) :
      Awaits .negated (.conjuncts before :: stack)
  | plain {stack : List Frame} (h : Awaits .negated stack) : Awaits .term stack
  | negation {word : Span} {stack : List Frame} (h : Awaits .negated stack) :
      Awaits .term (.negation word :: stack)

/-- How many frames may stand above the groups and those that they wait with. -/
def Goal.height : Goal → Nat
  | disjunction => 0
  | conjunction => 1
  | negated => 2
  | term => 3

/-- **There are four frames at most for each open group**, and those above the last one. -/
theorem Awaits.length_le {n : Goal} {stack : List Frame} (h : Awaits n stack) :
    stack.length ≤ 4 * openGroups stack + n.height := by
  induction h with
  | result => exact Nat.le_refl 0
  | group _ ih =>
    simp only [Goal.height, List.length_cons, openGroups] at ih ⊢
    omega
  | plain _ ih =>
    simp only [Goal.height] at ih ⊢
    omega
  | _ _ ih =>
    simp only [Goal.height, List.length_cons, openGroups] at ih ⊢
    omega

section Inversion

variable {n : Goal} {before : List Filter} {word : Span} {stack : List Frame}

theorem Awaits.of_disjuncts (h : Awaits n (.disjuncts before :: stack)) : Awaits .disjunction stack := by
  cases h with
  | disjuncts h => exact h
  | plain h => cases h

theorem Awaits.of_conjuncts (h : Awaits n (.conjuncts before :: stack)) : Awaits .conjunction stack := by
  cases h with
  | conjuncts h => exact h
  | plain h =>
    cases h with
    | conjuncts h => exact h

theorem Awaits.of_negation (h : Awaits n (.negation word :: stack)) : Awaits .negated stack := by
  cases h with
  | negation h => exact h
  | plain h => cases h

theorem Awaits.of_group (h : Awaits n (.group :: stack)) : Awaits .term stack := by
  cases h with
  | group h => exact h
  | plain h => cases h

end Inversion

/-- What is done is done for the frame on top. -/
def Serves : Control → List Frame → Prop
  | .read n, stack => Awaits n stack
  | .give _, stack => ∃ n, Awaits n stack

/-- What is done is done for the frame on top, and no more groups are open than are allowed. -/
structure Fits (limit : Nat) (s : State) : Prop where
  serves : Serves s.control s.stack
  groups : openGroups s.stack ≤ limit

section Fits

variable {size limit : Nat} {stack : List Frame} {input : List Item} {before : List Filter} {f : Filter}
  {s s' : State}

theorem fits_start (input : List Item) : Fits limit (start input) := ⟨.result, Nat.zero_le _⟩

theorem fits_readNegated (ha : Awaits .negated stack) (hg : openGroups stack ≤ limit) :
    Fits limit (readNegated stack input) := by
  unfold readNegated
  split
  · split
    · exact ⟨.negation ha, hg⟩
    · exact ⟨.plain ha, hg⟩
  · exact ⟨.plain ha, hg⟩

/-- A group is opened only where another one is allowed. -/
theorem fits_readTerm (ha : Awaits .term stack) (hg : openGroups stack ≤ limit)
    (h : readTerm size limit stack input = .ok s') : Fits limit s' := by
  unfold readTerm at h
  split at h
  · split at h
    · rename_i hless
      cases h
      exact ⟨.group ha, hless⟩
    · cases h
  · cases h
  · obtain ⟨p, _, rfl⟩ := map_eq_ok_iff.mp h
    exact ⟨⟨_, ha⟩, hg⟩

theorem fits_giveDisjunct (ha : Awaits .disjunction stack) (hg : openGroups stack ≤ limit)
    (h : giveDisjunct before f stack input = .ok s') : Fits limit s' := by
  unfold giveDisjunct at h
  split at h
  · cases h
    exact ⟨⟨_, ha⟩, hg⟩
  · cases h
  · split at h
    · cases h
      exact ⟨.disjuncts ha, hg⟩
    · cases h
      exact ⟨⟨_, ha⟩, hg⟩

theorem fits_giveConjunct (ha : Awaits .conjunction stack) (hg : openGroups stack ≤ limit)
    (h : giveConjunct before f stack input = .ok s') : Fits limit s' := by
  unfold giveConjunct at h
  split at h
  · cases h
    exact ⟨⟨_, ha⟩, hg⟩
  · cases h
  · split at h
    · cases h
      exact ⟨.conjuncts ha, hg⟩
    · split at h
      · cases h
        exact ⟨.negation (.conjuncts ha), hg⟩
      · cases h
        exact ⟨⟨_, ha⟩, hg⟩

/-- **One step keeps the stack fit.** -/
theorem fits_step (hf : Fits limit s) (h : step size limit s = .ok s') : Fits limit s' := by
  obtain ⟨control, input, stack⟩ := s
  obtain ⟨hserves, hgroups⟩ := hf
  cases control with
  | read n =>
    cases n with
    | disjunction =>
      cases h
      exact ⟨.disjuncts hserves, hgroups⟩
    | conjunction =>
      cases h
      exact ⟨.conjuncts hserves, hgroups⟩
    | negated =>
      cases h
      exact fits_readNegated hserves hgroups
    | term => exact fits_readTerm hserves hgroups h
  | give f =>
    obtain ⟨n, ha⟩ := hserves
    cases stack with
    | nil =>
      cases h
      exact ⟨⟨_, ha⟩, hgroups⟩
    | cons frame stack =>
      cases frame with
      | disjuncts before => exact fits_giveDisjunct ha.of_disjuncts hgroups h
      | conjuncts before => exact fits_giveConjunct ha.of_conjuncts hgroups h
      | negation word =>
        cases h
        exact ⟨⟨_, ha.of_negation⟩, hgroups⟩
      | group =>
        obtain ⟨p, _, rfl⟩ := map_eq_ok_iff.mp h
        exact ⟨⟨_, ha.of_group⟩, Nat.le_of_succ_le hgroups⟩

/-- **So do all steps.** -/
theorem fits_steps (hf : Fits limit s) (h : Steps size limit s s') : Fits limit s' := by
  induction h with
  | refl => exact hf
  | tail _ hstep ih => exact fits_step ih hstep

/-- Groups bound the whole stack. -/
theorem Fits.length_le (h : Fits limit s) : s.stack.length ≤ 4 * limit + 3 := by
  have hawaits : ∃ n, Awaits n s.stack := by
    have hserves := h.serves
    cases hc : s.control with
    | read n =>
      rw [hc] at hserves
      exact ⟨n, hserves⟩
    | give f =>
      rw [hc] at hserves
      exact hserves
  obtain ⟨n, ha⟩ := hawaits
  have hlength := ha.length_le
  have hgroups := h.groups
  have hheight : n.height ≤ 3 := by cases n <;> decide
  omega

end Fits

/-- **The parser never has more groups open than are allowed, however long its chains are.** The machine comes
to what the reader of filters takes, or to the fault at which it stops; and at no time are there more groups on
its stack than are allowed, nor more than four frames for each of them and three besides. -/
theorem pushdown_reads_filters (size limit : Nat) (input : List Item) :
    Comes size limit (start input) (disjunction size (group size limit limit) input) (given []) ∧
    ∀ s, Steps size limit (start input) s → openGroups s.stack ≤ limit ∧ s.stack.length ≤ 4 * limit + 3 := by
  have hempty : openGroups [] + limit = limit := Nat.zero_add limit
  refine ⟨comes_disjunction (groupComes_group size limit limit) hempty input, fun s hs => ?_⟩
  have hfits := fits_steps (fits_start input) hs
  exact ⟨hfits.groups, hfits.length_le⟩

end Pushdown

end ContextualQuery
