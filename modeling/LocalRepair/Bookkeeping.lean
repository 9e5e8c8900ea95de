import LocalRepair.State
import LocalRepair.Graph.Path

/-!
# Keeping track of constraints

A search never evaluates the problem as a whole. It keeps, for every constraint,
just enough to say whether it is violated, and brings that up to date flip by
flip: a clause keeps its number of true literals, a demand on a graph shares the
graph's forest with all others on the same graph, and a pair of vertices also
keeps a path that connects it.

Starting and following are two ways to the same record. `Constraint.evaluate`
computes it from the assignment alone, `Constraint.follow` from the record
before a flip.

## Main definitions

* `Constraint.evaluate`, `Constraint.reset`: starting afresh.
* `Constraint.holdsNow`: whether a constraint holds, by what is kept for it.
* `Constraint.follow`: bringing the record up to date after a flip.
* `Constraint.risk`, `Constraint.favours`: what a flip would do.
* `Problem.evaluateAll`, `Problem.violatedBy`.
-/

namespace LocalRepair

/-! ## Clauses -/

namespace Clause

/-- Number of true literals. -/
def countTrue (c : Clause) (a : Assignment) : Except Fault Nat := do
  let count ← c.literals.foldlM (fun n l => do if ← a.holds l then return n + 1 else return n) 0
  return inWord count

/-- The estimated effect on the number of violated constraints when the literals
of one proposition change their values one after the other, starting from a
number of true literals. -/
def riskAlong (c : Clause) (value : Bool) : List Literal → Nat → Int
  | [], _ => 0
  | l :: rest, count =>
    if l.isTrueUnder value then c.changeUp count + riskAlong c value rest (inWord (count + 1))
    else c.changeDown count + riskAlong c value rest (count - 1)

/-- The estimate for proposition `v` taking the value `value`, none when the
clause does not mention it. -/
def risk (c : Clause) (count v : Nat) (value : Bool) : Option Int :=
  match c.literalsOf v with
  | [] => none
  | ls => some (c.riskAlong value ls count)

/-- Whether proposition `v` taking the value `value` moves the number of true
literals towards the window. -/
def wants (c : Clause) (count v : Nat) (value : Bool) : Bool :=
  (count < c.min && 0 < c.shift v value) || (c.max < count && c.shift v value < 0)

end Clause

namespace Constraint

open Search

/-! ## Starting afresh -/

/-- Drops what is kept for a constraint and does not come from the assignment:
the forest of a graph and the path of a pair. -/
def reset (id : Nat) : Constraint → Search Unit
  | clause _ => return
  | graph g demand => do
    invalidate g
    match demand with
    | .pair _ _ => changeMarks id fun m => { m with path := [] }
    | _ => return

/-- Whether a constraint holds, by what is kept for it. -/
def holdsNow (id : Nat) : Constraint → Search Bool
  | clause c => do return c.accepts (← marksOf id).trueLiterals
  | graph g demand => askForest g fun g => do return (← demand.resolve g).isMet

/-- Keeps the shortest path between two vertices. Without one the path is kept
empty. -/
def keepShortestPath (id g source target : Nat) : Search Unit := do
  let t ← tracked g
  let path ← of (t.graph.shortestPath (← get).assignment source target)
  changeMarks id fun m => { m with path := (path.getD []).map Fin.val }

/-- Evaluates a constraint from scratch and records the result. -/
def evaluate (id : Nat) : Constraint → Search Unit
  | clause c => do
    let count ← of (c.countTrue (← get).assignment)
    changeMarks id fun m => { m with trueLiterals := count }
    record id (c.accepts count)
  | graph g demand => do
    let satisfied ← holdsNow id (graph g demand)
    match demand with
    | .pair source target =>
      if satisfied then keepShortestPath id g source target
      else changeMarks id fun m => { m with path := [] }
    | _ => pure ()
    record id satisfied

/-! ## Following a flip -/

/-- Brings the path of a pair up to date. It is found anew when the pair has
just become connected, or when it lost an edge of its path and is connected
still. -/
def followPath (id g source target edge : Nat) (present wasMet isMet : Bool) :
    Search Unit := do
  if !isMet then changeMarks id fun m => { m with path := [] }
  else if !wasMet || (!present && (← marksOf id).path.contains edge) then
    keepShortestPath id g source target

/-- Brings the record of a constraint up to date after proposition `v` took the
value `value`. -/
def follow (id v : Nat) (value : Bool) : Constraint → Search Unit
  | clause c => do
    let count : Int := (← marksOf id).trueLiterals + c.shift v value
    if count < 0 ∨ (c.literals.length : Int) < count then reject (.impossibleCount id v)
    else
      let count := Clause.inWord count.toNat
      changeMarks id fun m => { m with trueLiterals := count }
      record id (c.accepts count)
  | graph g demand => do
    match ← noteFlip g v value with
    | none => return
    | some edge =>
      let wasMet := !(← isViolated id)
      let isMet ← holdsNow id (graph g demand)
      match demand with
      | .pair source target => followPath id g source target edge value wasMet isMet
      | _ => pure ()
      record id isMet

/-! ## Looking ahead -/

/-- The estimated effect on the number of violated constraints when proposition
`v` takes the value `value`, none when it does not matter to the constraint. -/
def risk (id v : Nat) (value : Bool) : Constraint → Search (Option Int)
  | clause c => do return c.risk (← marksOf id).trueLiterals v value
  | graph g demand => do
    let path := (← marksOf id).path
    askEdge g v fun g e => do return (← demand.resolve g).risk e value (path.contains e.val)

/-- Whether flipping proposition `v` moves the constraint towards being
satisfied. -/
def favours (id v : Nat) (c : Constraint) : Search Bool := do
  match c with
  | clause c => return c.wants (← marksOf id).trueLiterals v (!(← Search.value v))
  | graph g demand =>
    match ← risk id v (!(← Search.value v)) (graph g demand) with
    | some risk => return risk < 0
    | none => return false

/-- What one more or one fewer true literal would do to a clause with a given
number of true literals. Other constraints count no literals. -/
def countStep (id : Nat) (step : CountStep) (count : Nat) : Constraint → Except Rejection Int
  | clause c => .ok (match step with
    | .increase => c.changeUp count
    | .decrease => c.changeDown count)
  | c => .error (.unsupported step id c.kindName)

end Constraint

/-! ## The whole problem -/

namespace Problem

/-- Evaluates every constraint from scratch. All of them are reset first, so
that a forest that several of them share is built once. -/
def evaluateAll (p : Problem) : Search Unit := do
  p.constraintIds.forM fun id => do (← Search.of (p.constraint id)).reset id
  p.constraintIds.forM fun id => do (← Search.of (p.constraint id)).evaluate id

/-- A state that holds an assignment, with every constraint evaluated. -/
def stateOf (p : Problem) (a : Assignment) (g : ChaCha) : Except Fault State :=
  match p.evaluateAll { State.new p g with assignment := a } with
  | .ok _ s => .ok s
  | .error e _ => .error e

/-- The constraints that an assignment violates, in ascending order. -/
def violatedBy (p : Problem) (a : Assignment) : Except Fault (List Nat) := do
  let s ← p.stateOf a (.seeded 0)
  return s.violated.toList.mergeSort

/-- Whether an assignment violates no constraint. -/
def isSolvedBy (p : Problem) (a : Assignment) : Except Fault Bool := do
  return (← p.violatedBy a).isEmpty

end Problem
end LocalRepair
