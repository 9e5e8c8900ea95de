import LocalRepair.Problem

/-!
# Building problems

A builder takes in propositions, constraints and graphs and refuses what cannot
be: references to nothing, priors outside `[0, 1]`, and demands that no
assignment can meet.

Two tables serve the checks. The clauses that were taken in are looked up, so
that an equal clause is not taken in twice but answered with the number of the
first. And the literals that clauses decide are noted, so that a clause that
decides the opposite is refused.

Building is a computation with a state and rejections, and the state survives a
rejection. That a refused request changes nothing is therefore something to be
seen from the definitions, where every check comes before the first change.

## Main definitions

* `Builder`, `Build`.
* `Builder.addClause`, `Builder.addConstraint`, `Builder.demand`: constraints.
* `Builder.addGraph`, `Builder.completeGraph`: graphs.
* `Builder.toProblem`: the finished problem.
-/

namespace LocalRepair

/-- A note that a clause decides a proposition. -/
structure Decision where
  proposition : Nat
  value : Bool
  constraint : Nat
  clause : Clause
  deriving DecidableEq, Repr

/-- A problem under construction. -/
structure Builder where
  names : Array String := #[]
  priors : Array (Option Float) := #[]
  constraints : Array Constraint := #[]
  clauseIds : List (Clause × Nat) := []
  decisions : List Decision := []
  graphs : Array Graph := #[]

/-- A step of building. -/
abbrev Build (α : Type) : Type := EStateM Rejection Builder α

namespace Builder

/-- A builder with nothing in it. -/
def empty : Builder := {}

/-- The outcome of a check as a step. -/
def checked (outcome : Except Rejection α) : Build α :=
  match outcome with
  | .ok a => pure a
  | .error e => throw e

/-! ## Propositions -/

/-- Takes in a proposition and answers its number. Numbers of propositions have 32
bits, so fewer than `2 ^ 32` propositions are taken in. -/
def newProposition (name : String) : Build Nat := do
  modify fun b => { b with names := b.names.push name, priors := b.priors.push none }
  return (← get).names.size

/-- Takes in `count` propositions, named by `stem` and a running number. -/
def newPropositions (stem : String) (count : Nat) : Build (List Nat) :=
  (List.range count).mapM fun i => newProposition (stem ++ toString i)

/-- Refuses a number that names no proposition. -/
def checkProposition (v : Nat) : Build Unit := do
  if v = 0 ∨ (← get).names.size < v then throw (.unknownProposition v)

/-- Sets the chance for a proposition to start out true. -/
def setPrior (v : Nat) (p : Float) : Build Unit := do
  checkProposition v
  if isProbability p then
    modify fun b => { b with priors := b.priors.setIfInBounds (v - 1) (some p) }
  else throw (.improperPrior p v)

/-! ## Clauses and other constraints -/

/-- The earlier note on a proposition. -/
def decisionOn? (b : Builder) (v : Nat) : Option Decision :=
  b.decisions.find? (·.proposition == v)

/-- Takes in a clause that is known to be new, and notes what it decides. -/
def storeClause (c : Clause) : Build Nat := do
  let id := (← get).constraints.size
  if let some l := c.decided? then
    match (← get).decisionOn? l.proposition with
    | some earlier =>
      if earlier.value ≠ l.isPositive then
        throw (.contradiction (.opposed c earlier.constraint earlier.clause))
    | none =>
      modify fun b => { b with
        decisions := ⟨l.proposition, l.isPositive, id, c⟩ :: b.decisions }
  modify fun b => { b with
    clauseIds := (c, id) :: b.clauseIds
    constraints := b.constraints.push (.clause c) }
  return id

/-- Takes in a clause, or finds the equal one that was taken in before, and
answers its number. -/
def addClause (c : Clause) : Build Nat := do
  c.literals.forM fun l => checkProposition l.proposition
  match (← get).clauseIds.lookup c with
  | some id => return id
  | none =>
    if c.isHopeless then throw (.contradiction (.hopelessClause c))
    else storeClause c

/-- Demands that a literal is true. -/
def require (l : Literal) : Build Nat := addClause (.unit l)

/-- Takes in a constraint and answers its number. -/
def addConstraint : Constraint → Build Nat
  | .clause c => addClause c
  | .graph graph demand => do
    let c := Constraint.graph graph demand
    (c.propositions (← get).graphs).forM checkProposition
    let id := (← get).constraints.size
    modify fun b => { b with constraints := b.constraints.push c }
    return id

/-! ## Graphs -/

/-- Takes in a graph and answers its number. -/
def addGraph (g : Graph) : Build Nat := do
  g.propositions.forM checkProposition
  let id := (← get).graphs.size
  modify fun b => { b with graphs := b.graphs.push g }
  return id

/-- The graph with a number. -/
def graph (id : Nat) : Build Graph := do
  match (← get).graphs[id]? with
  | some g => return g
  | none => throw (.unknownGraph id)

/-- The pairs of vertices, ordered by the first and then by the second. -/
def vertexPairs (vertexCount : Nat) : List (Nat × Nat) :=
  (List.range vertexCount).flatMap fun a =>
    (List.range' (a + 1) (vertexCount - (a + 1))).map fun b => (a, b)

/-- A graph with an edge between any two vertices, each backed by a new
proposition. The graph is not taken in. -/
def completeGraph (vertexCount : Nat) : Build Graph := do
  let edges ← (vertexPairs vertexCount).mapM fun (a, b) => do
    let v ← newProposition ("edge(" ++ toString a ++ "," ++ toString b ++ ")")
    return (a, b, v)
  checked (Graph.ofEdges vertexCount edges)

/-! ## Demands on graphs -/

/-- Puts a demand on a graph. -/
def demand (id : Nat) (d : Connectivity Nat) : Build Nat := do
  checked (d.check id (← graph id))
  addConstraint (.graph id d)

/-- Demands that between `min` and `max` edges of a graph are present. -/
def boundEdges (id min max : Nat) : Build Nat := do
  let g ← graph id
  addClause (.window (g.propositions.map Literal.positive) min max)

/-! ## The finished problem -/

/-- Adds a constraint to the lists of the propositions it mentions. -/
def mention (graphs : Array Graph) (lists : Array (List Nat)) (entry : Constraint × Nat) :
    Array (List Nat) :=
  (entry.1.propositions graphs).foldl (fun lists v => lists.modify v (· ++ [entry.2])) lists

/-- The problem that was built. -/
def toProblem (b : Builder) : Problem :=
  { names := b.names
    priors := b.priors
    constraints := b.constraints
    occurrences := b.constraints.toList.zipIdx.foldl (mention b.graphs)
      (Array.replicate (b.names.size + 1) [])
    graphs := b.graphs }

end Builder
end LocalRepair
