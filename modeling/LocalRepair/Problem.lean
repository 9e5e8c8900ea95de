import LocalRepair.Constraint

/-!
# Problems

A problem is what a search works on: named propositions, for some of them the
chance of starting out true, the constraints, and the graphs that constraints
speak of. For every proposition it also lists the constraints that mention it,
so that a flip visits only those.

Problems are made by a `Builder`, which sees to it that everything in them
refers to something in them.
-/

namespace LocalRepair

/-- A problem. Proposition `v` has its name and prior at position `v - 1`, and
`occurrences` has a list at position `v`, with an empty one at position `0`. -/
structure Problem where
  names : Array String
  priors : Array (Option Float)
  constraints : Array Constraint
  occurrences : Array (List Nat)
  graphs : Array Graph

namespace Problem

/-- Number of propositions. -/
def propositionCount (p : Problem) : Nat := p.names.size

/-- The propositions in order. -/
def propositions (p : Problem) : List Nat := List.range' 1 p.propositionCount

/-- The numbers of the constraints in order. -/
def constraintIds (p : Problem) : List Nat := List.range p.constraints.size

/-- The constraint with a number. -/
def constraint (p : Problem) (id : Nat) : Except Fault Constraint := entryAt p.constraints id

/-- The propositions that matter to a constraint of the problem. -/
def propositionsOf (p : Problem) (c : Constraint) : List Nat := c.propositions p.graphs

/-- The constraints that mention proposition `v`, in order. -/
def mentioning (p : Problem) (v : Nat) : Except Fault (List Nat) := entryAt p.occurrences v

/-- The entry for proposition `v` in a table that starts with proposition
`1`. -/
def entryFor (table : Array α) (v : Nat) : Except Fault α :=
  if v = 0 then .error .outOfRange else entryAt table (v - 1)

/-- The name of proposition `v`. -/
def name (p : Problem) (v : Nat) : Except Fault String := entryFor p.names v

/-- The chance for proposition `v` to start out true, if the problem has one. -/
def prior (p : Problem) (v : Nat) : Except Fault (Option Float) := entryFor p.priors v

end Problem
end LocalRepair
