import LocalRepair.Settings
import LocalRepair.Strategy

/-!
# Engines

An engine runs one search after the other. It draws the seed of each search
from a generator of its own, so that a seeded engine repeats the same sequence
of searches, and it keeps the state that the last search left behind.

An engine without a seed takes one from outside when it is made, as the place
where randomness enters.

## Main definitions

* `Engine`, `Engine.withStrategy`, `Engine.ofSettings`.
* `Engine.solve`, `Engine.reset`.
-/

namespace LocalRepair

/-- An engine. `origin` is the seed of its generator. -/
structure Engine where
  strategy : Strategy
  origin : UInt64
  generator : ChaCha
  lastState : Option State

namespace Engine

/-- An engine for a strategy. Without a seed, `entropy` takes its place. -/
def withStrategy (strategy : Strategy) (seed : Option Nat) (entropy : UInt64) : Engine :=
  let origin := (seed.map Nat.toUInt64).getD entropy
  { strategy, origin, generator := .seeded origin, lastState := none }

/-- The strategy of some settings: walks that select at random and start from
priors, repeated up to the number of attempts. -/
def strategyOf (s : Settings) : Strategy :=
  let w : Walk := { maxFlips := s.maxFlips }
  .restarting (.walk (w.withRandomStep s.randomStep)) (.upTo s.maxAttempts)

/-- An engine for some settings. -/
def ofSettings (s : Settings) (entropy : UInt64) : Engine :=
  withStrategy (strategyOf s) s.seed entropy

/-- Searches a problem from a fresh state. -/
def solve (e : Engine) (p : Problem) : Except Fault (Option Solution × Stats) × Engine :=
  let (seed, generator) := e.generator.doubleWord
  match e.strategy.solve p (.new p (.seeded seed)) with
  | .ok answer s => (.ok answer, { e with generator, lastState := some s })
  | .error fault s => (.error fault, { e with generator, lastState := some s })

/-- Forgets the last search and starts the generator over. -/
def reset (e : Engine) : Engine :=
  { e with generator := .seeded e.origin, lastState := none }

end Engine
end LocalRepair
