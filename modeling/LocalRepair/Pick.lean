import LocalRepair.Bookkeeping
import LocalRepair.Random.Stride

/-!
# Picking a proposition to flip

A violated constraint is repaired by flipping one of its propositions. A
greedy pick looks for one that helps the constraint and, over all constraints
that mention it, does no net harm; failing that, for the one that does the least
harm. A random pick takes any.

Both avoid the proposition that the same constraint picked last time. Without
that rule two constraints with opposite wishes would undo each other's flips for
ever.

## Main definitions

* `Problem.netRisk`: the estimated net effect of a flip.
* `Search.greedyPick`, `Search.randomPick`.
* `Search.greedyPickFor`: a greedy pick among a constraint's own propositions.
-/

namespace LocalRepair

open Search

/-- The estimated net effect of a flip on the number of violated constraints:
the sum of the risks over some constraints, leaving out those to which the
proposition does not matter. -/
def Problem.sumRisks (p : Problem) (v : Nat) (value : Bool) : List Nat → Int → Search Int
  | [], sum => return sum
  | id :: rest, sum => do
    let risk ← (← Search.of (p.constraint id)).risk id v value
    sumRisks p v value rest (sum + risk.getD 0)

/-- The estimated net effect on the number of violated constraints when
proposition `v` takes the value `value`. -/
def Problem.netRisk (p : Problem) (v : Nat) (value : Bool) : Search Int := do
  p.sumRisks v value (← Search.of (p.mentioning v)) 0

namespace Search

/-- Notes which proposition a constraint picked. -/
def notePick (id v : Nat) : Search Nat := do
  changeMarks id fun m => { m with lastPick := some v }
  return v

/-- A random candidate other than the one the constraint picked last. If there
is no other, the first candidate is taken without a draw. -/
def randomPick (id : Nat) (candidates : List Nat) : Search Nat := do
  let last := (← marksOf id).lastPick
  let allowed := candidates.filter fun v => some v != last
  let v ←
    if h : 0 < allowed.length then do
      let i ← draw (ChaCha.below allowed.length h)
      pure allowed[i]
    else match candidates with
      | v :: _ => pure v
      | [] => reject (.nothingToFlip id)
  modify fun s => { s with randomPicks := s.randomPicks + 1 }
  notePick id v

/-- The better of the best candidate so far and another one, by their net
effects; the earlier one wins a tie. -/
def better (best : Option (Int × Nat)) (delta : Int) (v : Nat) : Option (Int × Nat) :=
  match best with
  | some (least, _) => if delta < least then some (delta, v) else best
  | none => some (delta, v)

/-- Goes through candidates in a given order. One that was picked last or does
not help is skipped; the first with a net effect of at most zero is taken; and
at the end the one with the least net effect is taken, if there is any. -/
def scan (p : Problem) (last : Option Nat) (helps : Nat → Search Bool) :
    List Nat → Option (Int × Nat) → Search (Option Nat)
  | [], best => return best.map (·.2)
  | v :: rest, best => do
    if some v == last then scan p last helps rest best
    else if !(← helps v) then scan p last helps rest best
    else
      let delta ← p.netRisk v (!(← value v))
      if delta ≤ 0 then return some v
      else scan p last helps rest (better best delta v)

/-- The best helpful candidate, in the sense of `scan`, in a random order; a
random pick if no candidate is left. -/
def greedyPick (p : Problem) (id : Nat) (candidates : List Nat) (helps : Nat → Search Bool) :
    Search Nat := do
  if candidates.isEmpty then reject (.nothingToFlip id)
  else
    let last := (← marksOf id).lastPick
    let order ← draw (StridedOrder.new candidates.length)
    let inOrder ← of (order.toList.mapM (entryAt candidates.toArray))
    match ← scan p last helps inOrder none with
    | some v => notePick id v
    | none => randomPick id candidates

/-- A greedy pick of a constraint among its own propositions. -/
def greedyPickFor (p : Problem) (id : Nat) (c : Constraint) : Search Nat :=
  greedyPick p id (p.propositionsOf c) fun v => c.favours id v

/-- A random pick of a constraint among its own propositions. -/
def randomPickFor (p : Problem) (id : Nat) (c : Constraint) : Search Nat :=
  randomPick id (p.propositionsOf c)

end Search
end LocalRepair
