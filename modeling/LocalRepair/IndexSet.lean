import LocalRepair.Fault
import LocalRepair.Random.Draw

/-!
# Sets of indices with a fixed universe

The constraints that an assignment violates are kept as a set of indices below
a fixed number. Adding, removing, asking and drawing a random member take
constant time: the members stand in a row, and for every index the set knows
its place in the row.

Removing moves the last member into the gap. The order of the row is therefore
an effect of the history, and it is not hidden: a random draw is a place in the
row.

The two tables are inverse to each other. Each operation looks up both of them
and reports a fault when a place or an index lies outside, so that "the tables
fit together" is a statement about the operations rather than an assumption.

## Main definitions

* `IndexSet`, `IndexSet.empty`.
* `IndexSet.insert`, `IndexSet.remove`, `IndexSet.update`, `IndexSet.clear`.
* `IndexSet.contains`, `IndexSet.choose`.
-/

namespace LocalRepair

/-- Replaces the entry at a position, or is a fault when there is none. -/
def putAt (xs : Array α) (i : Nat) (x : α) : Except Fault (Array α) :=
  if i < xs.size then .ok (xs.setIfInBounds i x) else .error .outOfRange

/-- A set of indices. `members` are its members in a row, and `place` holds for
every index of the universe where in the row it stands. -/
structure IndexSet where
  members : Array Nat
  place : Array (Option Nat)
  deriving DecidableEq, Repr

namespace IndexSet

/-- The empty set with the universe `0 .. universe - 1`. -/
def empty (size : Nat) : IndexSet := { members := #[], place := Array.replicate size none }

/-- Number of members. -/
def size (s : IndexSet) : Nat := s.members.size

/-- Whether there is no member. -/
def isEmpty (s : IndexSet) : Bool := s.members.isEmpty

/-- The members in the order of the row. -/
def toList (s : IndexSet) : List Nat := s.members.toList

/-- Whether index `i` is a member. -/
def contains (s : IndexSet) (i : Nat) : Except Fault Bool := do
  return (← entryAt s.place i).isSome

/-- Adds index `i` at the end of the row, unless it is a member. -/
def insert (s : IndexSet) (i : Nat) : Except Fault IndexSet := do
  match ← entryAt s.place i with
  | some _ => return s
  | none =>
    return { members := s.members.push i, place := ← putAt s.place i (some s.members.size) }

/-- Takes the entry out of a row, moving the last entry into the gap. -/
def takeOut (row : Array Nat) (slot : Nat) : Except Fault (Array Nat) := do
  let last ← entryAt row (row.size - 1)
  return (← putAt row slot last).pop

/-- Removes index `i`, if it is a member. The member that fills the gap gets
the place that became free. -/
def remove (s : IndexSet) (i : Nat) : Except Fault IndexSet := do
  match ← entryAt s.place i with
  | none => return s
  | some slot =>
    let place ← putAt s.place i none
    let members ← takeOut s.members slot
    match members[slot]? with
    | none => return { members, place }
    | some moved => return { members, place := ← putAt place moved (some slot) }

/-- Makes index `i` a member exactly when `satisfied` is false. -/
def update (s : IndexSet) (i : Nat) (satisfied : Bool) : Except Fault IndexSet :=
  if satisfied then s.remove i else s.insert i

/-- Removes every member. -/
def clear (s : IndexSet) : Except Fault IndexSet := do
  let place ← s.members.toList.foldlM (fun place i => putAt place i none) s.place
  return { members := #[], place }

/-- A random member, none for the empty set. A lone member needs no draw. -/
def choose (s : IndexSet) (g : ChaCha) : Option Nat × ChaCha :=
  if h : 1 < s.members.size then
    let (i, g) := g.below s.members.size (by omega)
    (some s.members[i], g)
  else (s.members[0]?, g)

/-- The least member, none for the empty set. -/
def least? (s : IndexSet) : Option Nat := s.members.toList.min?

end IndexSet
end LocalRepair
