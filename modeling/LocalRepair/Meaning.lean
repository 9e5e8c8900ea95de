import LocalRepair.Graph.Reach
import LocalRepair.Problem

/-!
# What constraints mean

Whether an assignment satisfies a constraint, said in terms of true literals and
of vertices joined by present edges. Nothing here mentions a search: no counts
that are kept, no forests, no record of violated constraints. The bookkeeping of
a search is right when it agrees with these definitions.

## Main definitions

* `Clause.Holds`: the number of true positions lies in the window.
* `Connectivity.Holds`: a demand on the present edges of a graph.
* `Constraint.Holds`, `Problem.Solves`.
-/

namespace LocalRepair

/-- How many positions of the clause hold a literal that the assignment makes
true. -/
def Clause.truePositions (c : Clause) (a : Assignment) : Nat :=
  c.literals.countP fun l => l.isTrueUnder (a.isTrue l.proposition)

/-- The number of true positions lies in the window. -/
def Clause.Holds (c : Clause) (a : Assignment) : Prop :=
  c.min ≤ c.truePositions a ∧ c.truePositions a ≤ c.max

instance (c : Clause) (a : Assignment) : Decidable (c.Holds a) :=
  inferInstanceAs (Decidable (_ ∧ _))

/-- A demand on a graph whose present edges are given. -/
def Connectivity.Holds (g : Graph) (present : g.EdgeId → Prop) : Connectivity g.Vertex → Prop
  | .whole => ∀ u v : g.Vertex, g.Joined present u v
  | .pieces count => ∃ row, g.Representatives present row ∧ row.length = count
  | .pair source target => g.Joined present source target
  | .sides left right => ∃ u ∈ left, ∃ v ∈ right, g.Joined present u v

/-- A constraint of a problem with the given graphs. A demand on a graph that
does not exist, or on vertices that it does not have, holds for no assignment.
-/
def Constraint.Holds (graphs : Array Graph) (a : Assignment) : Constraint → Prop
  | .clause c => c.Holds a
  | .graph id demand =>
    ∃ g d, graphs[id]? = some g ∧ demand.resolve g = .ok d
      ∧ d.Holds g fun e => g.presentIn a e = true

/-- An assignment that covers the propositions of a problem and satisfies all
its constraints. -/
def Problem.Solves (p : Problem) (a : Assignment) : Prop :=
  a.values.size = p.propositionCount + 1 ∧ ∀ c ∈ p.constraints, c.Holds p.graphs a

end LocalRepair
