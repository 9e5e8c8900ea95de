import LocalRepair.Connectivity

/-!
# Constraints

A constraint is a counting clause or a demand on the connectivity of one of the
problem's graphs. The two kinds are closed: everything a search does with a
constraint is a case distinction on them.

A demand names its graph by number. What it needs to know about the graph, such
as the propositions of its edges, it is told by the row of graphs it belongs to.
-/

namespace LocalRepair

/-- Something that an assignment satisfies or violates. -/
inductive Constraint where
  | clause (clause : Clause)
  | graph (graph : Nat) (demand : Connectivity Nat)
  deriving DecidableEq, Repr

namespace Constraint

/-- The propositions that matter to a constraint: those of a clause in
ascending order, those of a graph in the order of its edges. -/
def propositions (graphs : Array Graph) : Constraint → List Nat
  | clause c => c.propositions
  | graph id _ => (graphs[id]?.map Graph.propositions).getD []

/-- Whether the constraint is something else than a clause. -/
def isCustom : Constraint → Bool
  | clause _ => false
  | graph _ _ => true

/-- The name of a kind of constraint. -/
def kindName : Constraint → String
  | clause _ => Clause.kindName
  | graph _ demand => demand.kindName

/-- The text of a constraint. -/
def describe (graphs : Array Graph) : Constraint → String
  | clause c => c.describe
  | graph id demand => demand.describe id ((graphs[id]?.map Graph.vertexCount).getD 0)

end Constraint
end LocalRepair
