import ContextualQuery.CommandLine.Session
import ContextualQuery.Proofs.Composition
/-!
# Pages make up the result

A repository over a store answers page by page. The pages belong together:

* `length_cut`, `drop_eq_cut_append`: what a window cuts out of the rows, and what is left behind
  it;
* `total_of_showsTotal`: a window that shows where the rows end gives their true number;
* `find_of_plan`, `count_of_plan`: the answers of the repository, in terms of the matching rows;
* `Page.hasNext_inWindow`: a page has a next one exactly if rows lie behind its window, computed
  exactly;
* `PageWalk`: going from page to page, `PageWalk.unique`, and `walk_pages`: every walk ends, and its
  pages make up the rows behind its first offset;
* `pages_make_up_result`: all of this from the first page on.
-/

namespace ContextualQuery

/-! ## 1. Windows over rows -/

namespace Window

variable {α : Type} (w : Window) (rows : List α)

theorem length_cut : (w.cut rows).length = min w.limit (rows.length - w.offset) := by
  rw [cut, List.length_take, List.length_drop]

/-- The rows from the offset on are those in the window and those behind it. -/
theorem drop_eq_cut_append :
    rows.drop w.offset = w.cut rows ++ rows.drop (w.offset + w.limit) := by
  rw [cut, ← List.drop_drop, List.take_append_drop]

/-- A window that shows where the rows end gives their number. -/
theorem total_of_showsTotal (h : Repository.showsTotal w (w.cut rows).length = true) :
    w.offset + (w.cut rows).length = rows.length := by
  simp only [Repository.showsTotal, Bool.and_eq_true, Bool.or_eq_true, decide_eq_true_eq,
    beq_iff_eq] at h
  rw [length_cut] at h ⊢
  omega

/-- Before the greatest row number the next window begins where this one ends. -/
theorem offset_next (h : w.offset + w.limit ≤ maxRow) : w.next.offset = w.offset + w.limit :=
  Nat.min_eq_left h

end Window

namespace Page

variable {α : Type}

/-- The page of a window over rows, with their true number. -/
def inWindow (w : Window) (rows : List α) : Page α := ⟨w.cut rows, rows.length, w⟩

/-- **A page has a next one exactly if rows lie behind its window**, also where the window would end
behind the greatest row number. -/
theorem hasNext_inWindow {w : Window} {rows : List α} (h : rows.length ≤ maxRow) :
    (inWindow w rows).hasNext = true ↔ w.offset + w.limit < rows.length := by
  rw [hasNext, decide_eq_true_eq]
  show min (w.offset + w.limit) maxRow < rows.length ↔ _
  omega

/-- Behind the window of an empty page, or of a page without a next one, are no rows. -/
theorem cut_eq_drop_of_ends {w : Window} {rows : List α} (h : rows.length ≤ maxRow)
    (hends : (inWindow w rows).isEmpty = true ∨ (inWindow w rows).hasNext = false) :
    w.cut rows = rows.drop w.offset := by
  rcases hends with he | hn
  · have hcut : w.cut rows = [] := List.isEmpty_iff.mp he
    have hlength := w.length_cut rows
    rw [hcut, List.length_nil] at hlength
    have hpos := w.limit_pos
    rw [hcut, List.drop_eq_nil_of_le (by omega)]
  · have hle : ¬ w.offset + w.limit < rows.length := by
      rw [← hasNext_inWindow h, hn]
      decide
    rw [w.drop_eq_cut_append rows, List.drop_eq_nil_of_le (Nat.not_lt.mp hle), List.append_nil]

end Page

/-! ## 2. Answers of a repository over a store -/

namespace Store

variable (s : Store) (entity : String) (pr : Predicate) (keys : List SortKey)

theorem count_eq_length : s.count entity pr = (s.matching entity pr keys).length := by
  rw [count, matching, sorted, List.length_mergeSort, List.countP_eq_length_filter]

theorem length_matching_le : (s.matching entity pr keys).length ≤ (s.rows entity).length := by
  rw [matching, sorted, List.length_mergeSort]
  exact List.length_filter_le _ _

/-- The repository of a planner over the store. -/
def repository (s : Store) (p : Planner) : Repository Id Empty Record := ⟨p, s.gateway⟩

/-- The rows that a plan selects, in their order. -/
def selected (s : Store) (entity : String) (plan : Plan) : List Record :=
  s.matching entity plan.predicate plan.sort

end Store

namespace Repository

variable {s : Store} {p : Planner} {entity text : String} {plan : Plan} {c : PathCache}

/-- The number on a page is the number of the rows, however it was found. -/
theorem total_repository (s : Store) (p : Planner) (entity : String) (plan : Plan) (w : Window) :
    (s.repository p).total entity plan.predicate w (w.cut (s.selected entity plan)).length =
      (.ok (s.selected entity plan).length : Except Empty Nat) := by
  rw [total]
  split
  · rename_i h
    rw [w.total_of_showsTotal _ h]
    rfl
  · exact congrArg Except.ok (s.count_eq_length entity plan.predicate plan.sort)

theorem page_repository (s : Store) (p : Planner) (entity : String) (plan : Plan) (w : Window) :
    (s.repository p).page entity plan w =
      (.ok (.inWindow w (s.selected entity plan)) : Except Empty (Page Record)) := by
  have hrows : (s.repository p).gateway.execute entity plan.predicate plan.sort w =
      (.ok (w.cut (s.selected entity plan)) : Except Empty (List Record)) := rfl
  rw [page, hrows]
  simp only [bind, pure]
  rw [total_repository]
  rfl

theorem plan_repository (h : (p.plan entity text c).1 = .ok plan) (s : Store) :
    (s.repository p).planner.plan entity text c = (.ok plan, (p.plan entity text c).2) := by
  rw [← h]
  rfl

/-- A page holds the rows in its window, and the number of all rows. -/
theorem find_of_plan (h : (p.plan entity text c).1 = .ok plan) (s : Store) (w : Window) :
    (s.repository p).find entity text w c =
      (.ok (.inWindow w (s.selected entity plan)), (p.plan entity text c).2) := by
  rw [find, plan_repository h]
  exact congrArg (fun x => (answer x, (p.plan entity text c).2)) (page_repository s p entity plan w)

/-- Counting gives the number of all rows. -/
theorem count_of_plan (h : (p.plan entity text c).1 = .ok plan) (s : Store) :
    (s.repository p).count entity text c =
      (.ok (s.selected entity plan).length, (p.plan entity text c).2) := by
  rw [count, plan_repository h, Store.selected, ← s.count_eq_length entity plan.predicate plan.sort]
  rfl

end Repository

/-! ## 3. From page to page -/

/-- Going through pages from a window on, until a page is empty or has no next one. Every page is
found with what is remembered from the one before. -/
inductive PageWalk (r : Repository Id Empty Record) (entity text : String) :
    Window → PathCache → List (Page Record) → Prop
  | last {w : Window} {c c' : PathCache} {page : Page Record}
      (found : r.find entity text w c = (.ok page, c'))
      (ends : page.isEmpty = true ∨ page.hasNext = false) : PageWalk r entity text w c [page]
  | more {w : Window} {c c' : PathCache} {page : Page Record} {pages : List (Page Record)}
      (found : r.find entity text w c = (.ok page, c'))
      (continues : page.isEmpty = false ∧ page.hasNext = true)
      (rest : PageWalk r entity text w.next c' pages) : PageWalk r entity text w c (page :: pages)

namespace PageWalk

variable {r : Repository Id Empty Record} {entity text : String} {w : Window} {c : PathCache}
  {pages pages' : List (Page Record)}

/-- A page that ends a walk is not one that continues it. -/
theorem not_ends_of_continues {page : Page Record}
    (continues : page.isEmpty = false ∧ page.hasNext = true) :
    ¬ (page.isEmpty = true ∨ page.hasNext = false) := by
  rw [continues.1, continues.2]
  decide

/-- A walk goes one way only. -/
theorem unique (h : PageWalk r entity text w c pages) (h' : PageWalk r entity text w c pages') :
    pages = pages' := by
  induction h generalizing pages' with
  | last found ends =>
    cases h' with
    | last found' _ =>
      cases found.symm.trans found'
      rfl
    | more found' continues _ =>
      cases found.symm.trans found'
      exact absurd ends (not_ends_of_continues continues)
  | more found continues _ ih =>
    cases h' with
    | last found' ends =>
      cases found.symm.trans found'
      exact absurd ends (not_ends_of_continues continues)
    | more found' _ rest' =>
      cases found.symm.trans found'
      rw [ih rest']

end PageWalk

section

variable {s : Store} {p : Planner} {entity text : String} {plan : Plan}

/-- **From every window a walk comes to an end, and its pages make up the rows from there on.** -/
theorem walk_pages (hrows : (s.rows entity).length ≤ maxRow)
    (hplan : p.planOnce entity text = .ok plan) (w : Window) {c : PathCache}
    (hc : p.resolver.Reached c) :
    ∃ pages, PageWalk (s.repository p) entity text w c pages ∧
      pages.flatMap (·.content) = (s.selected entity plan).drop w.offset := by
  have hlen : (s.selected entity plan).length ≤ maxRow :=
    Nat.le_trans (s.length_matching_le entity plan.predicate plan.sort) hrows
  -- the rows from the window on become fewer with every page
  induction hn : (s.selected entity plan).length - w.offset using Nat.strongRecOn
    generalizing w c with
  | ind n ih =>
    have hp := (Planner.plan_eq_planOnce hc entity text).trans hplan
    have hfound := Repository.find_of_plan hp s w
    have hc' := (Planner.plan_of_reached hc entity text).2
    by_cases hends : (Page.inWindow w (s.selected entity plan)).isEmpty = true ∨
      (Page.inWindow w (s.selected entity plan)).hasNext = false
    · refine ⟨[_], .last hfound hends, ?_⟩
      rw [List.flatMap_singleton]
      exact Page.cut_eq_drop_of_ends hlen hends
    · rw [not_or, Bool.not_eq_true, Bool.not_eq_false] at hends
      have hlt := (Page.hasNext_inWindow hlen).mp hends.2
      have hnext := w.offset_next (Nat.le_trans (Nat.le_of_lt hlt) hlen)
      have hpos := w.limit_pos
      obtain ⟨pages, hwalk, hpages⟩ := ih _ (by rw [hnext]; omega) w.next hc' rfl
      refine ⟨_ :: pages, .more hfound hends hwalk, ?_⟩
      rw [List.flatMap_cons, hpages, hnext]
      exact (w.drop_eq_cut_append _).symm

end

/-! ## 4. The whole result -/

namespace CommandLine.Session

variable {session : Session} {s : Store} {entity query : String} {plan : Plan}

theorem findRows_of_plan (h : session.planner.planOnce entity query = .ok plan) (w : Window) :
    session.findRows s entity query w = .ok (.inWindow w (s.selected entity plan)) := by
  have hfound := Repository.find_of_plan h s w
  exact congrArg (fun x => session.settled entity query x.1) hfound

theorem countRows_of_plan (h : session.planner.planOnce entity query = .ok plan) :
    session.countRows s entity query = .ok (s.selected entity plan).length := by
  have hcount := Repository.count_of_plan h s
  exact congrArg (fun x => session.settled entity query x.1) hcount

/-- With data, both answers are the one and the other, one below the other. -/
theorem answer_both (hstore : session.store = some s)
    (h : session.planner.planOnce entity query = .ok plan) (r : Reports) (w : Window) :
    ∃ a b, session.answer .selection r entity query w = .ok a ∧
      session.answer .count r entity query w = .ok b ∧
      session.answer .both r entity query w = .ok (a ++ "\n" ++ b) := by
  have hrows := findRows_of_plan (s := s) h w
  have hcount := countRows_of_plan (s := s) h
  refine ⟨r.page (.inWindow w (s.selected entity plan)), r.total (s.selected entity plan).length,
    ?_, ?_, ?_⟩
  · rw [answer, hstore]
    exact congrArg (Except.map r.page) hrows
  · rw [answer, hstore]
    exact congrArg (Except.map r.total) hcount
  · rw [answer, hstore]
    exact congrArg (Except.map fun p => together (r.page p) (r.total p.total)) hrows

end CommandLine.Session

/-- **Pages make up the result.** Every page tells the number that counting tells, and has a next
one exactly if a row lies behind its window; going from page to page from the first on comes to an
end, and the pages hold the rows selected, each once and in order; and with data the command answers
with rows and number as with the one and the other. -/
theorem pages_make_up_result {s : Store} {p : Planner} {entity text : String} {plan : Plan}
    (hrows : (s.rows entity).length ≤ maxRow) (hplan : p.planOnce entity text = .ok plan) :
    (∀ (w : Window) (c c' : PathCache), p.resolver.Reached c → p.resolver.Reached c' →
      ∃ page, ((s.repository p).find entity text w c).1 = .ok page ∧
        ((s.repository p).count entity text c').1 = .ok page.total ∧
        page.content = w.cut (s.selected entity plan) ∧
        (Repository.showsTotal w page.size = true → w.offset + page.size ≤ maxRow) ∧
        (page.hasNext = true ↔ ∃ i row, w.offset + w.limit ≤ i ∧
          (s.selected entity plan)[i]? = some row)) ∧
    (∀ limit : UInt32, 0 < limit → ∃ w, Window.first limit = .ok w ∧
      ∀ c, p.resolver.Reached c → ∃ pages, PageWalk (s.repository p) entity text w c pages ∧
        (∀ pages', PageWalk (s.repository p) entity text w c pages' → pages' = pages) ∧
        pages.flatMap (·.content) = s.selected entity plan) ∧
    (∀ (session : CommandLine.Session) (r : CommandLine.Reports) (w : Window),
      session.planner = p → session.store = some s →
      ∃ a b, session.answer .selection r entity text w = .ok a ∧
        session.answer .count r entity text w = .ok b ∧
        session.answer .both r entity text w = .ok (a ++ "\n" ++ b)) := by
  have hlen : (s.selected entity plan).length ≤ maxRow :=
    Nat.le_trans (s.length_matching_le entity plan.predicate plan.sort) hrows
  refine ⟨fun w c c' hc hc' => ?_, fun limit hlimit => ?_, ?_⟩
  · have hp := (Planner.plan_eq_planOnce hc entity text).trans hplan
    have hp' := (Planner.plan_eq_planOnce hc' entity text).trans hplan
    refine ⟨_, congrArg Prod.fst (Repository.find_of_plan hp s w),
      congrArg Prod.fst (Repository.count_of_plan hp' s), rfl, fun hshows => ?_, ?_⟩
    · exact Nat.le_trans (Nat.le_of_eq (w.total_of_showsTotal _ hshows)) hlen
    · rw [Page.hasNext_inWindow hlen]
      constructor
      · intro h
        exact ⟨_, _, Nat.le_refl _, List.getElem?_eq_getElem h⟩
      · intro h
        obtain ⟨i, row, hi, hrow⟩ := h
        obtain ⟨hlt, _⟩ := List.getElem?_eq_some_iff.mp hrow
        exact Nat.lt_of_le_of_lt hi hlt
  · have hne : limit.toNat ≠ 0 := Nat.ne_of_gt hlimit
    refine ⟨_, dif_neg hne, fun c hc => ?_⟩
    obtain ⟨pages, hwalk, hpages⟩ := walk_pages hrows hplan _ hc
    exact ⟨pages, hwalk, fun pages' h' => h'.unique hwalk, hpages⟩
  · intro session r w hsession hstore
    subst hsession
    exact CommandLine.Session.answer_both hstore hplan r w

/-- Bob and Eve, one page after the other. -/
theorem pages_of_bobAndEve :
    (bobAndEve.rows "Person").length ≤ maxRow ∧
    persons.planOnce "Person" "(name==bob) or (name==eve)" =
      .ok ⟨.boolean .or [nameMatches "bob", nameMatches "eve"], []⟩ ∧
    ∃ w, Window.first 1 = .ok w ∧ ∃ pages,
      PageWalk (bobAndEve.repository persons) "Person" "(name==bob) or (name==eve)" w .empty pages ∧
      pages.flatMap (·.content) = bobAndEve.selected "Person"
        ⟨.boolean .or [nameMatches "bob", nameMatches "eve"], []⟩ := by
  have hrows : (bobAndEve.rows "Person").length ≤ maxRow := by decide
  have hplan := filters_either.planOnce_eq
  obtain ⟨w, hw, hpages⟩ := (pages_make_up_result hrows hplan).2.1 1 (by decide)
  obtain ⟨pages, hwalk, _, hcontents⟩ := hpages .empty .empty
  exact ⟨hrows, hplan, w, hw, pages, hwalk, hcontents⟩

end ContextualQuery
