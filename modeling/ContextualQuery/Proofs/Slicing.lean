import ContextualQuery.Proofs.Mirroring
/-!
# Faults that can be shown

A fault names a place in the text. A caller may cut this place out of the text: it starts and stops where
characters do. The one exception is a text that is too long, whose place starts at the limit, wherever this
lies.

* `Planner.fault_of_query`: a text is too long, or has a fault that can be shown;
* `Planner.shown_clauseFails`, `Planner.shown_keyFails`: the faults of clauses, and the names that they point at;
* `Planner.fault_shown`, and `not_shown_in_brief` for the exception.
-/

namespace ContextualQuery

namespace Planner

variable {p : Planner} {entity text : String}

/-- A text is too long, or has a fault that can be shown. -/
theorem fault_of_query {f : PlanFault} (h : p.query text = .error f) :
    (∃ limit, limit < byteLength text.toList ∧ f = .tooLong (byteLength text.toList) limit) ∨
      f.span.Within text.toList ∧ ∃ g, f = .text g := by
  unfold query at h
  simp only at h
  split at h
  · rename_i hlong
    cases h
    exact .inl ⟨_, hlong, rfl⟩
  · have hsafe := Query.safe_parse text p.settings.maxDepth
    split at h
    · cases h
    · rename_i g hg
      cases h
      rw [hg] at hsafe
      exact .inr ⟨hsafe, g, rfl⟩

/-- A fault is about a name that is written where it says. -/
def Points (p : Planner) (entity text : String) (f : PlanFault) : Prop :=
  ∀ g s, f = .name g s → ∃ q field, p.query text = .ok q ∧ s.slice? text = some field ∧
    ((∃ c ∈ q.clauses, c.field = ⟨field, s⟩) ∨ ∃ c ∈ q.sort, c.field = ⟨field, s⟩) ∧
    p.resolver.follow entity field = .error g

theorem shown_clauseFails {q : Query} (hq : p.query text = .ok q) {c : SearchClause}
    (hc : c ∈ q.clauses) {f : PlanFault} (h : p.ClauseFails entity c f) :
    f.span.Within text.toList ∧ p.Points entity text f := by
  have hplaced := (placed_of_query hq).clause hc
  cases h with
  | name _ h =>
    refine ⟨hplaced.field.within, fun g s he => ?_⟩
    cases he
    exact ⟨q, c.field.value, hq, Span.slice?_eq_some_iff.mpr hplaced.field, .inl ⟨c, hc, rfl⟩, h⟩
  | term _ _ _ => exact ⟨hplaced.within, nofun⟩

theorem shown_keyFails {q : Query} (hq : p.query text = .ok q) {c : SortClause} (hc : c ∈ q.sort)
    {f : PlanFault} (h : p.KeyFails entity c f) :
    f.span.Within text.toList ∧ p.Points entity text f := by
  have hplaced := (placed_of_query hq).sort hc
  cases h with
  | name h =>
    refine ⟨hplaced.field.within, fun g s he => ?_⟩
    cases he
    exact ⟨q, c.field.value, hq, Span.slice?_eq_some_iff.mpr hplaced.field, .inr ⟨c, hc, rfl⟩, h⟩
  | unsortable _ _ => exact ⟨hplaced.within, nofun⟩

/-- **Every fault of a plan can be shown in the text**, unless the text is too long and its limit lies inside
a character; and what is shown of a name without a path is the name as it is written. -/
theorem fault_shown {c : PathCache} (hc : p.resolver.Reached c) {f : PlanFault}
    (h : (p.plan entity text c).1 = .error f) :
    f.span.start ≤ f.span.stop ∧ f.span.stop ≤ byteLength text.toList ∧
    ((f.span.slice? text).isSome = true ↔
      ∀ length limit, f = .tooLong length limit → IsBoundary text.toList limit) ∧
    p.Points entity text f := by
  -- a span that marks something is all that is asked for, if the text is not too long
  have hshown (hwithin : f.span.Within text.toList) (hpoints : p.Points entity text f)
      (hlong : ∀ length limit, f ≠ .tooLong length limit) :
      f.span.start ≤ f.span.stop ∧ f.span.stop ≤ byteLength text.toList ∧
        ((f.span.slice? text).isSome = true ↔
          ∀ length limit, f = .tooLong length limit → IsBoundary text.toList limit) ∧
        p.Points entity text f := by
    obtain ⟨hle, _, hstop⟩ := Span.within_iff.mp hwithin
    refine ⟨hle, hstop.le, ?_, hpoints⟩
    rw [Span.isSome_slice?_iff]
    exact ⟨fun _ length limit he => absurd he (hlong length limit), fun _ => hwithin⟩
  rw [(plan_of_reached hc entity text).1] at h
  rcases bind_eq_error_iff.mp h with h | ⟨q, hq, h⟩
  · rcases fault_of_query h with ⟨limit, hlimit, rfl⟩ | ⟨hwithin, g, rfl⟩
    · refine ⟨Nat.le_of_lt hlimit, Nat.le_refl _, ?_, nofun⟩
      have hend : IsBoundary text.toList (byteLength text.toList) := ⟨text.toList, [], by simp, rfl⟩
      rw [Span.isSome_slice?_iff, Span.within_iff]
      refine ⟨fun h length limit' he => ?_, fun h => ⟨Nat.le_of_lt hlimit, h _ _ rfl, hend⟩⟩
      cases he
      exact h.2.1
    · exact hshown hwithin nofun nofun
  · rcases planResult_eq_error_iff.mp h with ⟨before, s, after, hclauses, _, hfails⟩ |
      ⟨_, before, s, after, hsort, _, hfails⟩
    · obtain ⟨hwithin, hpoints⟩ := shown_clauseFails hq (hclauses ▸ by simp) hfails
      refine hshown hwithin hpoints fun length limit he => ?_
      subst he
      cases hfails
    · obtain ⟨hwithin, hpoints⟩ := shown_keyFails hq (hsort ▸ by simp) hfails
      refine hshown hwithin hpoints fun length limit he => ?_
      subst he
      cases hfails

end Planner

/-- A name that a person does not have is shown as it is written, behind and among characters of several
bytes. -/
theorem persons_fault_shown :
    (persons.plan "Person" "name==ä and größe=3" .empty).1 =
        .error (.name (.unknownField "Person" "größe") ⟨13, 20⟩) ∧
      (Span.mk 13 20).slice? "name==ä and größe=3" = some "größe" ∧
      ∃ q, persons.query "name==ä and größe=3" = .ok q ∧
        ((∃ c ∈ q.clauses, c.field = ⟨"größe", ⟨13, 20⟩⟩) ∨
          ∃ c ∈ q.sort, c.field = ⟨"größe", ⟨13, 20⟩⟩) := by
  have hslice : (Span.mk 13 20).slice? "name==ä and größe=3" = some "größe" := by decide +kernel
  have hplan : persons.planOnce "Person" "name==ä and größe=3" =
      .error (.name (.unknownField "Person" "größe") ⟨13, 20⟩) :=
    fault?_eq_some_iff.mp (by decide +kernel)
  rw [Planner.planOnce] at hplan
  obtain ⟨_, _, _, hpoints⟩ := Planner.fault_shown .empty hplan
  obtain ⟨q, field, hq, hfield, hclause, _⟩ := hpoints _ _ rfl
  rw [hslice] at hfield
  cases hfield
  exact ⟨hplan, hslice, q, hq, hclause⟩

/-- The persons, asked for in at most three bytes. -/
def personsInBrief : Planner := { persons with settings := { maxQueryLength := 3 } }

/-- Of two characters of two bytes each, the fault says that what is too much begins at the fourth byte. That is
inside the second character, so the span cannot be cut out. -/
theorem not_shown_in_brief :
    (personsInBrief.plan "Person" "äö" .empty).1 = .error (.tooLong 4 3) ∧
      (PlanFault.tooLong 4 3).span = ⟨3, 4⟩ ∧ (Span.mk 3 4).slice? "äö" = none :=
  ⟨rfl, rfl, by decide⟩

end ContextualQuery
