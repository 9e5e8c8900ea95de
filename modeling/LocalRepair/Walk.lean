import LocalRepair.Pick
import LocalRepair.Solution

/-!
# Walks

A walk is one attempt at a problem. It seeds an assignment, and then, as long as
a constraint is violated and flips are left, it selects a violated constraint,
lets it pick one of its propositions, greedily or now and then at random, and
flips that.

The loop looks at the record of violated constraints and at nothing else. That
the record is right is the business of `Walk.flip`, which tells every constraint
that mentions the flipped proposition and afterwards checks each of them.

## Main definitions

* `Walk`: the settings of a walk.
* `Walk.start`, `Walk.flip`, `Walk.run`, `Walk.attempt`.
-/

namespace LocalRepair

/-- Which violated constraint is repaired next: any with equal chance, or the
one with the lowest number. -/
inductive Selection where
  | random
  | lowest
  deriving DecidableEq, Repr

/-- How propositions start out: false, or true by chance, with their own prior
where the problem has one and with `default` otherwise. -/
inductive Seeding where
  | allFalse
  | byPrior (default : Float)

/-- The settings of a walk. `randomStep` is the chance that a step picks at
random instead of greedily. -/
structure Walk where
  selection : Selection := .random
  seeding : Seeding := .byPrior 0.5
  maxFlips : Nat
  randomStep : Float := 0.0

/-- A violated constraint, none when no constraint is violated. -/
def Selection.select : Selection → Search (Option Nat)
  | random => do
    let s ← get
    Search.draw s.violated.choose
  | lowest => do return (← get).violated.least?

/-- The value that proposition `v` starts out with. -/
def Seeding.seedValue (p : Problem) (v : Nat) : Seeding → Search Bool
  | allFalse => return false
  | byPrior default => do
    let chance := (← Search.of (p.prior v)).getD default
    let (b, g) ← Search.of ((← get).generator.chance chance)
    modify fun s => { s with generator := g }
    return b

namespace Walk

open Search

/-- Sets the chance of a random step, moved into `[0, 1]` if it lies outside.
-/
def withRandomStep (w : Walk) (p : Float) : Walk :=
  { w with randomStep := if p < 0.0 then 0.0 else if 1.0 < p then 1.0 else p }

/-! ## Starting -/

/-- Forgets what is kept for constraints and graphs. -/
def clear : Search Unit := do
  let violated ← of (← get).violated.clear
  modify fun s => { s with
    violated
    marks := s.marks.map fun _ => {}
    forests := s.forests.map TrackedGraph.invalidate }

/-- Seeds an assignment and evaluates every constraint. -/
def start (w : Walk) (p : Problem) : Search Unit := do
  clear
  p.propositions.forM fun v => do assign v (← w.seeding.seedValue p v)
  p.evaluateAll

/-! ## Flipping -/

/-- Turns a proposition over and counts the flip. -/
def turnOver (v : Nat) : Search Bool := do
  let (value, a) ← of ((← get).assignment.flip v)
  modify fun s => { s with assignment := a, flips := s.flips + 1 }
  count fun t => { t with flips := t.flips + 1 }
  return value

/-- Lets a constraint follow a flip, and counts it if that moved the constraint
in or out of the violated ones. -/
def tell (p : Problem) (v : Nat) (value : Bool) (id : Nat) : Search Unit := do
  let before ← isViolated id
  (← of (p.constraint id)).follow id v value
  if (← isViolated id) != before then count fun t => t.countTransition id

/-- Checks the record of a constraint against what is kept for it. -/
def checkRecord (p : Problem) (id : Nat) : Search Unit := do
  let holds ← (← of (p.constraint id)).holdsNow id
  if holds == (← isViolated id) then throw .contradictoryRecord

/-- Flips proposition `v` and brings every constraint that mentions it up to
date. -/
def flip (p : Problem) (v : Nat) : Search Unit := do
  let value ← turnOver v
  let ids ← of (p.mentioning v)
  ids.forM (tell p v value)
  ids.forM (checkRecord p)

/-! ## Walking -/

/-- Picks a proposition for a violated constraint. The chance of a random step
is drawn only if there is one. -/
def pick (w : Walk) (p : Problem) (id : Nat) : Search Nat := do
  let c ← of (p.constraint id)
  let atRandom ←
    if 0.0 < w.randomStep then do
      let (b, g) ← of ((← get).generator.chance w.randomStep)
      modify fun s => { s with generator := g }
      pure b
    else pure false
  if atRandom then randomPickFor p id c else greedyPickFor p id c

/-- One step: a pick for a violated constraint, and the flip. -/
def step (w : Walk) (p : Problem) (id : Nat) : Search Unit := do
  let v ← w.pick p id
  count fun t => t.countPick id
  flip p v

/-- Walks with a number of flips left. The answer tells whether no constraint is
violated any more. -/
def runFor (w : Walk) (p : Problem) : Nat → Search Bool
  | 0 => do return (← get).violated.isEmpty
  | left + 1 => do
    if (← get).violated.isEmpty then return true
    else match ← w.selection.select with
      | none => return true
      | some id =>
        w.step p id
        runFor w p left

/-- Walks from the present assignment until no constraint is violated or the
flips are used up. -/
def run (w : Walk) (p : Problem) : Search Bool := w.runFor p w.maxFlips

/-- Starts and walks, and counts the random picks. -/
def startAndRun (w : Walk) (p : Problem) : Search (Option Solution) := do
  count fun t => { t with attempts := 1 }
  w.start p
  let before := (← get).randomPicks
  let solved ← w.run p
  let s ← get
  count fun t => { t with randomPicks := s.randomPicks - before }
  if solved then return some (.ofProblem p s.assignment) else return none

/-- One attempt: a solution if one was found, and the statistics of the
attempt. -/
def attempt (w : Walk) (p : Problem) : Search (Option Solution × Stats) :=
  counting (w.startAndRun p)

end Walk
end LocalRepair
