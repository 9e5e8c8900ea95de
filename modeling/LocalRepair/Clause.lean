import LocalRepair.Literal

/-!
# Counting clauses

A clause asks that the number of its true literals lies in a window from `min`
to `max`. A plain disjunction has the window from one to all; "exactly two of
these" and "at most one of these" are windows as well, so a single kind of
clause covers them.

Literals are counted by *position*: a literal that stands twice counts twice,
and a proposition may stand with both signs.

Numbers of literals are held in 32 bits. From `2 ^ 32` on they wrap round, both
when the literals of a clause are counted and when one is added to a count; a
build that checks its additions stops there instead.

## Main definitions

* `Clause.inWord`: a number as 32 bits hold it.
* `Clause` and its makers `window`, `or`, `unit`, `exactly`, `atLeast`,
  `atMost`.
* `Clause.accepts`: whether a number of true literals lies in the window.
* `Clause.changeUp`, `Clause.changeDown`: what one more or one fewer true
  literal does to the clause's contribution to the number of violated
  constraints.
* `Clause.decided?`: the literal that a clause on a single literal decides.
* `Clause.isHopeless`: the window is empty.
-/

namespace LocalRepair

/-- Between `min` and `max` of the literals are true. Two clauses are equal
when they have the same literals in the same order and the same window. -/
@[ext]
structure Clause where
  literals : List Literal
  min : Nat
  max : Nat
  max_le : max ≤ literals.length
  deriving DecidableEq, Repr

/-- Puts a number into an ascending list without repeats. -/
def insertAscending (n : Nat) : List Nat → List Nat
  | [] => [n]
  | m :: rest =>
    if n < m then n :: m :: rest
    else if n = m then m :: rest
    else m :: insertAscending n rest

/-- The distinct numbers of a list in ascending order. -/
def ascending (ns : List Nat) : List Nat := ns.foldr insertAscending []

namespace Clause

/-! ## Numbers of literals -/

/-- A number as 32 bits hold it. -/
def inWord (n : Nat) : Nat := n % Nat.pow 2 32

theorem inWord_le (n : Nat) : inWord n ≤ n := Nat.mod_le n (Nat.pow 2 32)

/-! ## Making clauses -/

/-- A number that was lowered to the number of literals is no larger. -/
theorem lowered_le (max length : Nat) : Nat.min max (inWord length) ≤ length :=
  Nat.le_trans (Nat.min_le_right _ _) (inWord_le length)

/-- The clause with a window. The upper end is lowered to the number of
literals, so that equal demands are equal clauses. -/
def window (literals : List Literal) (min max : Nat) : Clause :=
  { literals
    min
    max := Nat.min max (inWord literals.length)
    max_le := lowered_le max literals.length }

/-- At least one literal is true. -/
def or (literals : List Literal) : Clause := window literals 1 (inWord literals.length)

/-- The literal is true. -/
def unit (l : Literal) : Clause := window [l] 1 1

/-- Exactly `n` literals are true. -/
def exactly (literals : List Literal) (n : Nat) : Clause := window literals n n

/-- At least `n` literals are true. -/
def atLeast (literals : List Literal) (n : Nat) : Clause :=
  window literals n (inWord literals.length)

/-- At most `n` literals are true. -/
def atMost (literals : List Literal) (n : Nat) : Clause := window literals 0 n

/-! ## What a clause says -/

/-- The propositions of the clause, each once, in ascending order. -/
def propositions (c : Clause) : List Nat := ascending (c.literals.map Literal.proposition)

/-- Whether `count` true literals satisfy the clause. -/
def accepts (c : Clause) (count : Nat) : Bool := c.min ≤ count && count ≤ c.max

/-- What the clause adds to the number of violated constraints when `count` of
its literals are true. -/
def penalty (c : Clause) (count : Nat) : Int := if c.accepts count then 0 else 1

/-- The change of the penalty when one more literal becomes true. The largest
count that 32 bits hold is followed by zero. -/
def changeUp (c : Clause) (count : Nat) : Int := c.penalty (inWord (count + 1)) - c.penalty count

/-- The change of the penalty when one literal fewer is true. A count of zero
stays where it is. -/
def changeDown (c : Clause) (count : Nat) : Int := c.penalty (count - 1) - c.penalty count

/-- The literals of proposition `v`, in the order of the clause. -/
def literalsOf (c : Clause) (v : Nat) : List Literal :=
  c.literals.filter (·.proposition == v)

/-- How the number of true literals changes when proposition `v` takes the
value `value`, having had the other one. -/
def shift (c : Clause) (v : Nat) (value : Bool) : Int :=
  ((c.literalsOf v).map fun l => if l.isTrueUnder value then 1 else -1).foldr (· + ·) 0

/-- The literal that a clause decides on its own: a clause on one literal that
asks for it, or that forbids it. -/
def decided? (c : Clause) : Option Literal :=
  match c.literals with
  | [l] => if c.min = 1 then some l else if c.max = 0 then some l.negation else none
  | _ => none

/-- No number of true literals lies in the window. -/
def isHopeless (c : Clause) : Bool := c.max < c.min

/-! ## Text -/

/-- The name of this kind of constraint. -/
def kindName : String := "CardinalityClause"

/-- The text of a clause. -/
def describe (c : Clause) : String :=
  toString c.min ++ " <= |\x7b" ++ ", ".intercalate (c.literals.map Literal.describe)
    ++ "\x7d| <= " ++ toString c.max

/-- Why the window is empty. -/
def hopelessReason (c : Clause) : String :=
  "needs at least " ++ toString c.min ++ " of " ++ toString c.literals.length
    ++ " literals but at most " ++ toString c.max

end Clause
end LocalRepair
