import LocalRepair.Fault

/-!
# Assignments

One truth value for every proposition. The table has a slot for number `0`, so
that proposition `v` is at position `v`; the slot backs no proposition, starts
false, and is left out wherever an assignment is listed.

Numbers beyond the table are faults: an assignment knows its own size and
nothing else.

## Main definitions

* `Assignment.value`, `Assignment.set`, `Assignment.flip`.
* `Assignment.entries`: the pairs of proposition and value, in order.
* `Assignment.isTrue`: the value as a total function, false beyond the table.
-/

namespace LocalRepair

/-- A truth value for every proposition. -/
structure Assignment where
  values : Array Bool
  deriving DecidableEq, Repr

namespace Assignment

/-- All of `count` propositions are false. -/
def allFalse (count : Nat) : Assignment := ⟨Array.replicate (count + 1) false⟩

/-- Number of propositions. -/
def propositionCount (a : Assignment) : Nat := a.values.size - 1

/-- The value of proposition `v`. -/
def value (a : Assignment) (v : Nat) : Except Fault Bool := entryAt a.values v

/-- The value of proposition `v`, false when the assignment does not cover
it. -/
def isTrue (a : Assignment) (v : Nat) : Bool := a.values.getD v false

/-- Gives proposition `v` a value. Number `0` is no proposition. -/
def set (a : Assignment) (v : Nat) (value : Bool) : Except Fault Assignment :=
  if 0 < v ∧ v < a.values.size then .ok ⟨a.values.setIfInBounds v value⟩
  else .error .outOfRange

/-- Turns proposition `v` over and tells its new value. -/
def flip (a : Assignment) (v : Nat) : Except Fault (Bool × Assignment) :=
  match a.values[v]? with
  | some old => .ok (!old, ⟨a.values.setIfInBounds v (!old)⟩)
  | none => .error .outOfRange

/-- Whether a literal is true. -/
def holds (a : Assignment) (l : Literal) : Except Fault Bool := do
  return l.isTrueUnder (← a.value l.proposition)

/-- Every proposition with its value, in order, without slot `0`. -/
def entries (a : Assignment) : List (Nat × Bool) :=
  (a.values.toList.zipIdx.drop 1).map fun (value, v) => (v, value)

/-- The true propositions in order. -/
def trueOnes (a : Assignment) : List Nat :=
  (a.entries.filter (·.2)).map (·.1)

/-- Of `count` propositions, those in the list are true and the others false.
-/
def ofTrueOnes (count : Nat) (vs : List Nat) : Except Fault Assignment :=
  vs.foldlM (fun a v => a.set v true) (allFalse count)

end Assignment
end LocalRepair
