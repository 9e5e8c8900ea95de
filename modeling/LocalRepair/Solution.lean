import LocalRepair.Problem
import LocalRepair.Json.Printer
import LocalRepair.Json.Reader

/-!
# Solutions

A solution is an assignment together with the names of its propositions. It
keeps the names of its problem, so it can be read and stored without the
problem.

The JSON form of an assignment lists the values in order, slot `0` included, as
the field `values` of a record; that of a solution adds the names.
-/

namespace LocalRepair

/-! ## Assignments and literals as JSON -/

namespace Assignment

/-- The JSON form of an assignment. -/
def toJson (a : Assignment) : Json :=
  Json.ofMembers [("values", .array (a.values.toList.map .bool))]

/-- Reads the JSON form of an assignment, by name or by position. -/
def ofJson? (j : Json) : Option Assignment := do
  let values ← (← j.record? ["values"]).lookup "values"
  return ⟨(← (← values.items?).mapM Json.bool?).toArray⟩

end Assignment

namespace Literal

/-- The JSON form of a literal is its encoding. -/
def toJson (l : Literal) : Json := Json.int l.encoded

/-- Reads any 32-bit integer as a literal, zero included. -/
def ofJson? (j : Json) : Option Literal :=
  (j.integer? (-2147483648) 2147483647).map Literal.mk

end Literal

/-! ## Solutions -/

/-- An assignment with the names of its propositions. -/
structure Solution where
  names : Array String
  assignment : Assignment
  deriving DecidableEq, Repr

namespace Solution

/-- An assignment as a solution of a problem. -/
def ofProblem (p : Problem) (a : Assignment) : Solution := ⟨p.names, a⟩

/-- The value of proposition `v`. -/
def value (s : Solution) (v : Nat) : Except Fault Bool := s.assignment.value v

/-- Whether a literal is true. -/
def holds (s : Solution) (l : Literal) : Except Fault Bool := s.assignment.holds l

/-- How many of the listed propositions are true; one that is listed twice
counts twice. -/
def countTrue (s : Solution) (vs : List Nat) : Except Fault Nat := do
  return (← vs.mapM s.value).count true

/-- The names of the true propositions, in order. -/
def trueNames (s : Solution) : Except Fault (List String) :=
  s.assignment.trueOnes.mapM (Problem.entryFor s.names)

/-- The JSON form of a solution. -/
def toJson (s : Solution) : Json :=
  Json.ofMembers [
    ("names", .array (s.names.toList.map Json.text)),
    ("assignment", s.assignment.toJson)]

end Solution
end LocalRepair
