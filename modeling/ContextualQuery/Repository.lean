import ContextualQuery.Page
import ContextualQuery.Plan.Basic
/-!
# Asking a store

A gateway runs predicates for a store. A repository plans a query and asks the gateway, for a page of rows
or for their number. When a page shows how many rows there are, the gateway is not asked again.
-/

namespace ContextualQuery

/-! ## 1. Gateways -/

/-- What a store offers: the rows in a window, in order, and the number of rows. Either may fail. -/
structure Gateway (m : Type → Type) (ε α : Type) where
  execute : String → Predicate → List SortKey → Window → m (Except ε (List α))
  count : String → Predicate → m (Except ε Nat)

/-- How often a gateway was asked for rows, and for their number. -/
structure Calls where
  execute : Nat := 0
  count : Nat := 0
  deriving DecidableEq, Repr

/-- The gateway that counts how often it is asked. -/
def Gateway.counted {ε α : Type} (g : Gateway Id ε α) : Gateway (StateM Calls) ε α where
  execute entity p keys w := do
    modify fun c => { c with execute := c.execute + 1 }
    return g.execute entity p keys w
  count entity p := do
    modify fun c => { c with count := c.count + 1 }
    return g.count entity p

/-! ## 2. Repositories -/

/-- Why there is no answer. -/
inductive RepositoryFault (ε : Type)
  | plan (f : PlanFault)
  | gateway (e : ε)

/-- The message about it, given that of a failing gateway. -/
def RepositoryFault.message {ε : Type} (describe : ε → String) : RepositoryFault ε → String
  | plan f => "translation failed: " ++ f.message
  | gateway e => "gateway failed: " ++ describe e

/-- A planner and the gateway that runs its plans. -/
structure Repository (m : Type → Type) (ε α : Type) where
  planner : Planner
  gateway : Gateway m ε α

namespace Repository

variable {m : Type → Type} [Monad m] {ε α : Type}

/-- Whether a number of rows found in a window shows where the rows end. -/
def showsTotal (w : Window) (found : Nat) : Bool :=
  decide (found < w.limit) && (w.offset == 0 || decide (0 < found))

/-- The number of all rows, given how many were found in a window. -/
def total (r : Repository m ε α) (entity : String) (p : Predicate) (w : Window) (found : Nat) :
    m (Except ε Nat) :=
  if showsTotal w found then return .ok (w.offset + found) else r.gateway.count entity p

/-- The page of a plan. -/
def page (r : Repository m ε α) (entity : String) (p : Plan) (w : Window) :
    m (Except ε (Page α)) := do
  match ← r.gateway.execute entity p.predicate p.sort w with
  | .error e => return .error e
  | .ok rows =>
    match ← r.total entity p.predicate w rows.length with
    | .error e => return .error e
    | .ok n => return .ok ⟨rows, n, w⟩

/-- The answer of a gateway as one of the repository. -/
def answer {β : Type} : Except ε β → Except (RepositoryFault ε) β
  | .ok b => .ok b
  | .error e => .error (.gateway e)

/-- A page of the rows that a query selects, and the paths remembered afterwards. -/
def find (r : Repository m ε α) (entity text : String) (w : Window) (c : PathCache) :
    m (Except (RepositoryFault ε) (Page α) × PathCache) := do
  match r.planner.plan entity text c with
  | (.error f, c) => return (.error (.plan f), c)
  | (.ok p, c) => return (answer (← r.page entity p w), c)

/-- The number of rows that a query selects, and the paths remembered afterwards. -/
def count (r : Repository m ε α) (entity text : String) (c : PathCache) :
    m (Except (RepositoryFault ε) Nat × PathCache) := do
  match r.planner.plan entity text c with
  | (.error f, c) => return (.error (.plan f), c)
  | (.ok p, c) => return (answer (← r.gateway.count entity p.count), c)

end Repository

end ContextualQuery
