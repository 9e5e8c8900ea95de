import LocalRepair.Graph.Basic

/-!
# Connection by present edges

What the spanning forests and the path search compute, said without them: two
vertices are joined when a sequence of present edges leads from one to the
other. The definition follows the sequence edge by edge and knows no parents,
ranks or queues.

The number of pieces is likewise said without counting: a row of
representatives has one vertex from every piece, and all such rows are equally
long.

## Main definitions

* `Graph.Joined`: the relation.
* `Graph.Representatives`: a row with one vertex from every piece.

## Main results

* `Graph.Joined.symm`, `Graph.Joined.trans`: being joined is an equivalence.
-/

namespace LocalRepair.Graph

variable {g : Graph} {present : g.EdgeId → Prop} {u v w : g.Vertex}

/-- Edge `e` leads from `v` to `w`, in one of its two directions. -/
def Leads (g : Graph) (e : g.EdgeId) (v w : g.Vertex) : Prop :=
  ((g.edge e).a = v ∧ (g.edge e).b = w) ∨ ((g.edge e).a = w ∧ (g.edge e).b = v)

theorem Leads.symm {e : g.EdgeId} (h : g.Leads e v w) : g.Leads e w v := Or.symm h

/-- Present edges lead from the first vertex to the second. -/
inductive Joined (g : Graph) (present : g.EdgeId → Prop) (u : g.Vertex) : g.Vertex → Prop where
  | here : Joined g present u u
  | along {v w : g.Vertex} {e : g.EdgeId} (before : Joined g present u v) (isPresent : present e)
      (leads : g.Leads e v w) : Joined g present u w

namespace Joined

/-- One present edge joins its ends. -/
theorem single {e : g.EdgeId} (hPresent : present e) (h : g.Leads e u v) :
    Joined g present u v :=
  along here hPresent h

/-- Two sequences of edges can be put one after the other. -/
theorem trans (h : Joined g present u v) (k : Joined g present v w) : Joined g present u w := by
  induction k with
  | here => exact h
  | along _ hPresent hLeads ih => exact along ih hPresent hLeads

/-- A sequence of edges can be walked backwards. -/
theorem symm (h : Joined g present u v) : Joined g present v u := by
  induction h with
  | here => exact here
  | along _ hPresent hLeads ih => exact (single hPresent hLeads.symm).trans ih

/-- More edges join no less. -/
theorem mono {fewer more : g.EdgeId → Prop} (hSub : ∀ e, fewer e → more e)
    (h : Joined g fewer u v) : Joined g more u v := by
  induction h with
  | here => exact here
  | along _ hPresent hLeads ih => exact along ih (hSub _ hPresent) hLeads

end Joined

/-- A row of vertices with exactly one from every piece of the graph. -/
structure Representatives (g : Graph) (present : g.EdgeId → Prop) (row : List g.Vertex) :
    Prop where
  /-- Every vertex is joined to some vertex of the row. -/
  covers : ∀ v : g.Vertex, ∃ r ∈ row, Joined g present r v
  /-- No two vertices of the row are joined. -/
  apart : row.Pairwise fun r s => ¬ Joined g present r s

end LocalRepair.Graph
