import LocalRepair.Clause
import LocalRepair.Decimal.Shortest

/-!
# What can go wrong

Two kinds of failure are kept apart.

A `Rejection` is an answer: the caller asked for something that the rules
refuse, is told why, and goes on. Its wording is `Rejection.message`.

A `Fault` is either a rejection or a broken agreement between caller and
library: a number that names nothing, a probability outside `[0, 1]`, an empty
range to draw from, or bookkeeping that contradicts itself. What broke the
agreement is named, but there is no wording for it, because nothing sensible
can follow.

## Main definitions

* `Contradiction`: why no assignment can satisfy a demand.
* `Rejection`, `Rejection.message`.
* `Fault`.
* `isProbability`: the one test that settings, priors and draws share.
-/

namespace LocalRepair

/-- Whether a number lies in `[0, 1]`. What is not a number does not. -/
def isProbability (p : Float) : Bool := 0.0 ≤ p && p ≤ 1.0

/-- Why a demand cannot be met by any assignment. -/
inductive Contradiction where
  /-- The clause's window is empty. -/
  | hopelessClause (clause : Clause)
  /-- The clause decides a literal whose opposite an earlier clause decides. -/
  | opposed (clause : Clause) (earlier : Nat) (earlierClause : Clause)
  /-- A graph cannot fall into that many components. -/
  | componentCount (graph vertices components : Nat)
  /-- One of two vertex sets to be connected is empty. -/
  | emptySide (graph : Nat)
  deriving DecidableEq, Repr

namespace Contradiction

/-- The demand that cannot be met. -/
def subject : Contradiction → String
  | hopelessClause clause | opposed clause _ _ => clause.describe
  | componentCount graph _ _ => "ComponentCountConstraint on graph #" ++ toString graph
  | emptySide graph => "SubsetsConnectedConstraint on graph #" ++ toString graph

/-- Why it cannot be met. -/
def reason : Contradiction → String
  | hopelessClause clause => clause.hopelessReason
  | opposed _ earlier earlierClause =>
    "conflicts with constraint #" ++ toString earlier ++ " (" ++ earlierClause.describe ++ ")"
  | componentCount _ vertices components =>
    toString vertices ++ " vertices cannot form " ++ toString components ++ " components"
  | emptySide _ => "an empty vertex set cannot be connected to anything"

end Contradiction

/-- The two questions that only constraints which count literals answer. -/
inductive CountStep where
  | increase
  | decrease
  deriving DecidableEq, Repr

/-- The name of the question. -/
def CountStep.name : CountStep → String
  | increase => "threat_delta_on_increase"
  | decrease => "threat_delta_on_decrease"

/-- A request that the rules refuse. -/
inductive Rejection where
  /-- The demand cannot be met, whatever the search does. -/
  | contradiction (cause : Contradiction)
  /-- A question about literal counts, put to a constraint that counts none. -/
  | unsupported (step : CountStep) (constraint : Nat) (kind : String)
  /-- Zero was given as a literal. -/
  | zeroLiteral
  /-- No proposition has this number. -/
  | unknownProposition (v : Nat)
  /-- No graph has this number. -/
  | unknownGraph (graph : Nat)
  /-- The graph has too few vertices. -/
  | unknownVertex (vertex vertices : Nat)
  /-- Two edges of a graph are backed by one proposition. -/
  | sharedProposition (v : Nat)
  /-- The prior is no probability. -/
  | improperPrior (prior : Float) (v : Nat)
  /-- A constraint without propositions was asked to pick one. -/
  | nothingToFlip (constraint : Nat)
  /-- The number of true literals that was kept for a clause cannot be right. -/
  | impossibleCount (constraint v : Nat)
  /-- The settings' chance of a random step is no probability. -/
  | improperWalk (probability : Float)
  /-- The settings could not be read at all. -/
  | unreadableSettings

namespace Rejection

/-- The wording of a rejection. Settings that could not be read have none of
their own. -/
def message : Rejection → String
  | contradiction cause =>
    "structural contradiction in " ++ cause.subject ++ ": " ++ cause.reason
  | unsupported step constraint kind =>
    step.name ++ " is unsupported for constraint #" ++ toString constraint ++ " (" ++ kind ++ ")"
  | zeroLiteral => "literal 0 does not name a proposition"
  | unknownProposition v => "unknown proposition " ++ toString v
  | unknownGraph graph => "unknown graph " ++ toString graph
  | unknownVertex vertex vertices =>
    "vertex " ++ toString vertex ++ " is out of range for a graph of "
      ++ toString vertices ++ " vertices"
  | sharedProposition v => "proposition " ++ toString v ++ " backs more than one edge"
  | improperPrior prior v =>
    "prior " ++ shortestText prior ++ " for " ++ toString v ++ " is not a probability"
  | nothingToFlip constraint =>
    "constraint #" ++ toString constraint ++ " has no variables to flip"
  | impossibleCount constraint v =>
    "true count of clause #" ++ toString constraint ++ " left its range after flipping "
      ++ toString v
  | improperWalk probability =>
    "invalid configuration: random_walk_probability must be within [0, 1], got "
      ++ shortestText probability
  | unreadableSettings => "invalid configuration"

end Rejection

/-- A failure of an operation. -/
inductive Fault where
  /-- The request was refused. -/
  | rejected (cause : Rejection)
  /-- A number names nothing that exists. -/
  | outOfRange
  /-- A draw was asked for with a chance outside `[0, 1]`. -/
  | improperChance
  /-- The record of violated constraints contradicts the constraints. -/
  | contradictoryRecord

/-- The literal with a given encoding; zero is refused. -/
def Literal.ofInt (encoded : Int) : Except Rejection Literal :=
  match Literal.ofInt? encoded with
  | some l => .ok l
  | none => .error .zeroLiteral

/-- The entry at a position, or a fault when there is none. -/
def entryAt (xs : Array α) (i : Nat) : Except Fault α :=
  match xs[i]? with
  | some x => .ok x
  | none => .error .outOfRange

end LocalRepair
