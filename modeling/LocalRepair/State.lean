import LocalRepair.IndexSet
import LocalRepair.Problem
import LocalRepair.Stats

/-!
# The state of a search

Everything that changes while a problem is searched: the assignment, which
constraints it violates, what is kept for each constraint and each graph, the
random generator and the counters.

A step of a search is a computation on this state that may fail. The state
survives a failure and shows how far the step came, since a caller may look at
it afterwards.

## Main definitions

* `State`, `State.new`.
* `Search`: a step of a search.
* `Search.askForest`, `Search.askEdge`: questions to the forest of a graph,
  which is brought up to date first.
-/

namespace LocalRepair

/-- What is kept for one constraint: the number of true literals of a clause,
the proposition that the constraint picked last, and the path that a pair of
vertices is connected by, as edge numbers. -/
structure Marks where
  trueLiterals : Nat := 0
  lastPick : Option Nat := none
  path : List Nat := []
  deriving DecidableEq, Repr

/-- A graph with the forest that keeps track of it. -/
structure TrackedGraph where
  graph : Graph
  forest : Forest graph

/-- The state of a search. `flips` and `randomPicks` count over the whole life
of the state, `tally` over the attempt under way. -/
structure State where
  assignment : Assignment
  violated : IndexSet
  marks : Array Marks
  forests : Array TrackedGraph
  generator : ChaCha
  flips : Nat := 0
  randomPicks : Nat := 0
  tally : Stats := {}

/-- A step of a search. -/
abbrev Search (α : Type) : Type := EStateM Fault State α

namespace TrackedGraph

/-- A graph with a forest that has not been built. -/
def fresh (g : Graph) : TrackedGraph := ⟨g, .singletons g⟩

/-- Puts a question to the forest after bringing it up to date. -/
def ask (t : TrackedGraph) (a : Assignment) (query : Except Fault (Forest.Query t.graph α)) :
    Except Fault (α × TrackedGraph) := do
  let forest ← t.forest.bringUpToDate a
  let (answer, forest) := (← query) forest
  return (answer, ⟨t.graph, forest⟩)

/-- Marks the forest as stale. -/
def invalidate (t : TrackedGraph) : TrackedGraph := ⟨t.graph, t.forest.invalidate⟩

end TrackedGraph

namespace State

/-- The state before anything was searched: every proposition is false, no
constraint has been looked at, and no forest has been built. -/
def new (p : Problem) (g : ChaCha) : State :=
  { assignment := .allFalse p.propositionCount
    violated := .empty p.constraints.size
    marks := Array.replicate p.constraints.size {}
    forests := p.graphs.map .fresh
    generator := g }

end State

namespace Search

/-- An outcome as a step. -/
def of (outcome : Except Fault α) : Search α :=
  match outcome with
  | .ok a => pure a
  | .error e => throw e

/-- A refusal as a step. -/
def reject (cause : Rejection) : Search α := throw (.rejected cause)

/-- Draws from the generator. -/
def draw (f : ChaCha → α × ChaCha) : Search α :=
  modifyGet fun s => let (a, g) := f s.generator; (a, { s with generator := g })

/-! ## The assignment -/

/-- The value of proposition `v`. -/
def value (v : Nat) : Search Bool := do
  of ((← get).assignment.value v)

/-- Gives proposition `v` a value and tells no constraint. -/
def assign (v : Nat) (b : Bool) : Search Unit := do
  let a ← of ((← get).assignment.set v b)
  modify fun s => { s with assignment := a }

/-! ## The constraints -/

/-- What is kept for a constraint. -/
def marksOf (id : Nat) : Search Marks := do
  of (entryAt (← get).marks id)

/-- Changes what is kept for a constraint. -/
def changeMarks (id : Nat) (change : Marks → Marks) : Search Unit := do
  let m ← marksOf id
  modify fun s => { s with marks := s.marks.setIfInBounds id (change m) }

/-- Whether a constraint is recorded as violated. -/
def isViolated (id : Nat) : Search Bool := do
  of ((← get).violated.contains id)

/-- Records whether a constraint is satisfied. -/
def record (id : Nat) (satisfied : Bool) : Search Unit := do
  let v ← of ((← get).violated.update id satisfied)
  modify fun s => { s with violated := v }

/-! ## The forests -/

/-- The graph with a number, and its forest as it is. -/
def tracked (id : Nat) : Search TrackedGraph := do
  of (entryAt (← get).forests id)

/-- Replaces the forest of a graph. -/
def putTracked (id : Nat) (t : TrackedGraph) : Search Unit :=
  modify fun s => { s with forests := s.forests.setIfInBounds id t }

/-- Puts a question to the forest of a graph after bringing it up to date. -/
def askForest (id : Nat) (query : (g : Graph) → Except Fault (Forest.Query g α)) :
    Search α := do
  let t ← tracked id
  let (answer, t) ← of (t.ask (← get).assignment (query t.graph))
  putTracked id t
  return answer

/-- Puts a question about the edge that a proposition backs to the forest of a
graph. If it backs none, the forest is left alone and there is no answer. -/
def askEdge (id v : Nat) (query : (g : Graph) → g.EdgeId → Except Fault (Forest.Query g α)) :
    Search (Option α) := do
  let t ← tracked id
  match t.graph.edgeBackedBy? v with
  | none => return none
  | some e =>
    let (answer, t) ← of (t.ask (← get).assignment (query t.graph e))
    putTracked id t
    return some answer

/-- Marks the forest of a graph as stale. -/
def invalidate (id : Nat) : Search Unit := do
  putTracked id (← tracked id).invalidate

/-- Tells the forest of a graph that a proposition changed. The answer is the
number of the edge that it backs, if it backs one. -/
def noteFlip (id v : Nat) (present : Bool) : Search (Option Nat) := do
  let t ← tracked id
  match t.graph.edgeBackedBy? v with
  | none => return none
  | some e =>
    putTracked id ⟨t.graph, t.forest.note e present⟩
    return some e.val

/-! ## The counters -/

/-- Changes the counters of the attempt under way. -/
def count (change : Stats → Stats) : Search Unit :=
  modify fun s => { s with tally := change s.tally }

/-- Runs a step with counters of its own, which it hands out. The counters from
before come back afterwards, also when the step fails. -/
def counting (step : Search α) : Search (α × Stats) := fun s =>
  match step { s with tally := {} } with
  | .ok a s' => .ok (a, s'.tally) { s' with tally := s.tally }
  | .error e s' => .error e { s' with tally := s.tally }

end Search
end LocalRepair
