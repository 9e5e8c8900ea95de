import LocalRepair.Walk

/-!
# Strategies

A single walk can get stuck, so walks are repeated from fresh assignments. A
strategy is a walk, or another strategy that is repeated for as long as a
restart policy allows.

A policy decides by the number of attempts so far, and every repetition adds at
least one. The number of attempts that a policy allows therefore bounds the
repetitions, and serves as fuel.

## Main definitions

* `Restarts`, `Restarts.allows`.
* `Strategy`, `Strategy.solve`.
-/

namespace LocalRepair

/-- When to try again: never, or until a number of attempts is reached. -/
inductive Restarts where
  | never
  | upTo (attempts : Nat)
  deriving DecidableEq, Repr

namespace Restarts

/-- Whether another attempt is allowed after some. -/
def allows (policy : Restarts) (soFar : Stats) : Bool :=
  match policy with
  | never => false
  | upTo attempts => soFar.attempts < attempts

/-- A number of repetitions that no run exceeds. -/
def bound : Restarts → Nat
  | never => 0
  | upTo attempts => attempts

end Restarts

/-- A walk, or a strategy that is repeated. -/
inductive Strategy where
  | walk (w : Walk)
  | restarting (inner : Strategy) (policy : Restarts)

namespace Strategy

/-- Repeats a search until it finds a solution or the policy allows no further
attempt, at most `further` more times after the first. -/
def repeated (search : Search (Option Solution × Stats)) (policy : Restarts) :
    Nat → Stats → Search (Option Solution × Stats)
  | 0, total => do
    let (solution, stats) ← search
    return (solution, total.add stats)
  | further + 1, total => do
    let (solution, stats) ← search
    let total := total.add stats
    if solution.isSome || !policy.allows total then return (solution, total)
    else repeated search policy further total

/-- Searches a problem. Without a solution the budget is used up, which is an
answer and no failure. -/
def solve (p : Problem) : Strategy → Search (Option Solution × Stats)
  | walk w => w.attempt p
  | restarting inner policy => repeated (inner.solve p) policy policy.bound {}

end Strategy
end LocalRepair
