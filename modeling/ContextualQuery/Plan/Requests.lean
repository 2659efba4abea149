import ContextualQuery.Plan.Basic
/-!
# Requests to a planner

A planner is asked one thing after another, and keeps the paths that it remembers from one request to the
next.
-/

namespace ContextualQuery

/-- What a planner may be asked for: a plan of a text on an entity, only the selection or the count of the
plan, the path of a name, or to forget all paths. -/
inductive Request
  | plan (entity text : String)
  | selection (entity text : String)
  | count (entity text : String)
  | path (entity field : String)
  | forget
  deriving DecidableEq, Repr

/-- What it answers. -/
inductive Reply
  | plan (r : Except PlanFault Plan)
  | selection (r : Except PlanFault Selection)
  | count (r : Except PlanFault Predicate)
  | path (r : Except ResolutionFault Path)
  | done

namespace Planner

/-- The answer to a request, and the paths remembered afterwards. -/
def answer (p : Planner) (c : PathCache) : Request → Reply × PathCache
  | .plan entity text =>
    let (r, c) := p.plan entity text c
    (.plan r, c)
  | .selection entity text =>
    let (r, c) := p.plan entity text c
    (.selection (r.map Plan.selection), c)
  | .count entity text =>
    let (r, c) := p.plan entity text c
    (.count (r.map Plan.count), c)
  | .path entity field =>
    let (r, c) := p.resolver.resolve entity field c
    (.path r, c)
  | .forget => (.done, .empty)

/-- The answers to several requests, one after the other. -/
def answers (p : Planner) (c : PathCache) : List Request → List Reply × PathCache
  | [] => ([], c)
  | q :: rest =>
    let (r, c) := p.answer c q
    let (rs, c) := answers p c rest
    (r :: rs, c)

end Planner

end ContextualQuery
