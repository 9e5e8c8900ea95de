import LocalRepair.Proofs.Connectivity.Answers
import LocalRepair.Proofs.Graph.Route
import LocalRepair.Proofs.Problem
import LocalRepair.Proofs.Search.Steps

/-!
# When a record is right

The record of a search is right when it says of every constraint what the
constraint means: a clause has as many true literals as are counted for it, the
forest of every graph that a demand speaks of is up to date, the path that is kept
for a pair of vertices leads from one to the other if any present edges do, and the
violated constraints are those that do not hold. This is `Tracks`.

Between two flips the record is right. During a flip it is right in part: some
constraints were told and others wait. So what is kept for a single constraint is
stated on its own, as `Settled` for an assignment, and `Touched` says which part
of the state a step for one constraint may change.

## Main results

* `Shaped.lookup`: what a demand refers to is there.
* `Touched.settled`: a step for one constraint leaves the others settled.
* `Constraint.holds_flipped_iff`, `Constraint.Routed.flipped`: a flip does not matter
  where the proposition is not mentioned.
-/

namespace LocalRepair

/-- Edge numbers that are kept for two vertices are those of a path without repeated
vertices. If no present edges join the two, there are none. -/
def Graph.Connects (g : Graph) (a : Assignment) (u w : g.Vertex) (path : List Nat) : Prop :=
  (∃ es, path = es.map Fin.val ∧ g.SimplePath (fun e => g.presentIn a e = true) u es w)
    ∨ path = [] ∧ ¬ g.Joined (fun e => g.presentIn a e = true) u w

/-- The path that is kept for a pair of vertices is right about an assignment. Nothing
is asked of what is kept for other constraints. -/
def Constraint.Routed (graphs : Array Graph) (a : Assignment) (path : List Nat) :
    Constraint → Prop
  | .graph g (.pair source target) => ∀ (gr : Graph) (u w : gr.Vertex), graphs[g]? = some gr →
      gr.vertex source = .ok u → gr.vertex target = .ok w → gr.Connects a u w path
  | _ => True

namespace Constraint

variable {graphs : Array Graph} {a a' : Assignment} {g v : Nat} {gr : Graph}
  {demand : Connectivity Nat} {d : Connectivity gr.Vertex} {path : List Nat}

/-- A demand on a graph that exists, on vertices that exist. -/
theorem holds_graph_iff (hGraph : graphs[g]? = some gr) (hResolve : demand.resolve gr = .ok d) :
    (graph g demand).Holds graphs a ↔ d.Holds gr fun e => gr.presentIn a e = true := by
  constructor
  · rintro ⟨gr', d', hGraph', hResolve', hHolds⟩
    rw [hGraph] at hGraph'
    obtain rfl := Option.some.inj hGraph'
    rw [hResolve] at hResolve'
    obtain rfl := Except.ok.inj hResolve'
    exact hHolds
  · exact fun hHolds => ⟨gr, d, hGraph, hResolve, hHolds⟩

/-- A flip changes no edge of a graph without the proposition. -/
theorem presentIn_flipped_of_not_mem (hFlip : a.Flipped v a') (h : v ∉ gr.propositions) :
    gr.presentIn a' = gr.presentIn a := by
  funext e
  refine Graph.presentIn_flipped_other hFlip fun hEq => h ?_
  exact Graph.mem_propositions.mpr ⟨e, hEq⟩

/-- A flip changes no edge of the graph that a demand speaks of without mentioning the
proposition. -/
theorem presentIn_flipped_of_not_mentioned (hFlip : a.Flipped v a')
    (h : v ∉ (graph g demand).propositions graphs) :
    ∀ gr, graphs[g]? = some gr → gr.presentIn a' = gr.presentIn a := by
  intro gr hGraph
  apply presentIn_flipped_of_not_mem hFlip
  simpa [propositions, hGraph] using h

/-- A flip does not matter to a constraint that does not mention the
proposition. -/
theorem holds_flipped_iff {c : Constraint} (hFlip : a.Flipped v a')
    (h : v ∉ c.propositions graphs) : c.Holds graphs a' ↔ c.Holds graphs a := by
  cases c with
  | clause c =>
      have hCount := Clause.truePositions_of_not_mem hFlip h
      simp only [Holds, Clause.Holds, hCount]
  | graph g demand =>
      have hSame := presentIn_flipped_of_not_mentioned hFlip h
      constructor
      · rintro ⟨gr, d, hGraph, hResolve, hHolds⟩
        exact ⟨gr, d, hGraph, hResolve, hSame gr hGraph ▸ hHolds⟩
      · rintro ⟨gr, d, hGraph, hResolve, hHolds⟩
        exact ⟨gr, d, hGraph, hResolve, (hSame gr hGraph).symm ▸ hHolds⟩

/-- Nor does it matter to a path that is kept. -/
theorem Routed.flipped {c : Constraint} (h : c.Routed graphs a path) (hFlip : a.Flipped v a')
    (hOther : v ∉ c.propositions graphs) : c.Routed graphs a' path := by
  match c with
  | graph g (.pair source target) =>
      intro gr u w hGraph hSource hTarget
      have hSame := presentIn_flipped_of_not_mentioned hFlip hOther gr hGraph
      unfold Graph.Connects
      rw [hSame]
      exact h gr u w hGraph hSource hTarget
  | clause _ | graph _ .whole | graph _ (.pieces _) | graph _ (.sides _ _) => trivial

end Constraint

/-- The forest is built, and right about the edges that an assignment makes
present. -/
structure TrackedGraph.UpToDate (t : TrackedGraph) (a : Assignment) : Prop where
  built : t.forest.built = true
  spans : t.forest.Spans fun e => t.graph.presentIn a e = true

namespace State

/-! ## What is kept for constraints and graphs -/

/-- The forest of a graph is built and right about an assignment. -/
def Follows (s : State) (g : Nat) (a : Assignment) : Prop :=
  ∃ t, s.forests[g]? = some t ∧ t.UpToDate a

/-- The forest of a graph is stale, or right about an assignment. -/
def Mirrors (s : State) (g : Nat) (a : Assignment) : Prop :=
  ∃ t, s.forests[g]? = some t ∧ t.forest.Mirrors a

theorem Follows.upToDate {s : State} {g : Nat} {a : Assignment} {t : TrackedGraph}
    (h : s.Follows g a) (hForest : s.forests[g]? = some t) : t.UpToDate a := by
  obtain ⟨t', hForest', hUpToDate⟩ := h
  rw [hForest] at hForest'
  obtain rfl := Option.some.inj hForest'
  exact hUpToDate

theorem Follows.mirrors {s : State} {g : Nat} {a : Assignment} (h : s.Follows g a) :
    s.Mirrors g a := by
  obtain ⟨t, hForest, hUpToDate⟩ := h
  exact ⟨t, hForest, fun _ => hUpToDate.spans⟩

/-- What is kept for one constraint is right about an assignment. -/
structure Records (s : State) (p : Problem) (a : Assignment) (id : Nat) (c : Constraint) :
    Prop where
  violated : id ∈ s.violated.toList ↔ ¬ c.Holds p.graphs a
  counted : ∀ k, c = .clause k → ∀ m, s.marks[id]? = some m → m.trueLiterals = k.truePositions a
  routed : ∀ m, s.marks[id]? = some m → c.Routed p.graphs a m.path

/-- What is kept for one constraint and for the graph that it speaks of is right
about an assignment. -/
structure Settled (s : State) (p : Problem) (a : Assignment) (id : Nat) (c : Constraint) : Prop
    extends Records s p a id c where
  follows : ∀ g demand, c = .graph g demand → s.Follows g a

/-- The tables of a state are of the sizes that the problem asks for. -/
structure Shaped (s : State) (p : Problem) : Prop where
  assignment : s.assignment.values.size = p.propositionCount + 1
  violated : s.violated.Fits p.constraints.size
  marks : s.marks.size = p.constraints.size
  graphs : s.forests.map TrackedGraph.graph = p.graphs

/-- The record of a state is right about its assignment. -/
structure Tracks (s : State) (p : Problem) : Prop extends Shaped s p where
  settled : ∀ id c, p.constraints[id]? = some c → s.Settled p s.assignment id c

variable {s s' s'' : State} {p : Problem} {id j g : Nat} {c c' : Constraint} {m : Marks}
  {t t' : TrackedGraph} {a a' : Assignment} {demand : Connectivity Nat}

/-! ## Looking things up -/

/-- Another forest for a graph leaves the row of graphs as it was. -/
theorem graphs_setForest (hForest : s.forests[g]? = some t) (hGraph : t'.graph = t.graph) :
    (s.setForest g t').forests.map TrackedGraph.graph = s.forests.map TrackedGraph.graph := by
  refine Array.ext_getElem? fun j => ?_
  rw [Array.getElem?_map, Array.getElem?_map]
  by_cases hj : j = g
  · subst hj
    rw [getElem?_setForest_self hForest, hForest, Option.map_some, Option.map_some, hGraph]
  · rw [getElem?_setForest_other hj]

/-- In a row of forests for some graphs every graph has a forest. -/
theorem exists_forest_of_graphs (h : s.forests.map TrackedGraph.graph = p.graphs) {gr : Graph}
    (hGraph : p.graphs[g]? = some gr) : ∃ t, s.forests[g]? = some t ∧ t.graph = gr := by
  rw [← h, Array.getElem?_map] at hGraph
  exact Option.map_eq_some_iff.mp hGraph

namespace Shaped

theorem lt_of_constraint (hc : p.constraints[id]? = some c) : id < p.constraints.size :=
  (Array.getElem?_eq_some_iff.mp hc).1

/-- Every constraint has an entry. -/
theorem exists_marks (h : s.Shaped p) (hc : p.constraints[id]? = some c) :
    ∃ m, s.marks[id]? = some m := by
  have hRange : id < s.marks.size := by
    rw [h.marks]
    exact lt_of_constraint hc
  exact ⟨s.marks[id], Array.getElem?_eq_getElem hRange⟩

/-- The forests belong to the graphs of the problem. -/
theorem getElem?_graphs (h : s.Shaped p) (g : Nat) :
    p.graphs[g]? = s.forests[g]?.map TrackedGraph.graph := by
  rw [← h.graphs, Array.getElem?_map]

/-- Every graph of the problem has a forest. -/
theorem exists_forest (h : s.Shaped p) {gr : Graph} (hGraph : p.graphs[g]? = some gr) :
    ∃ t, s.forests[g]? = some t ∧ t.graph = gr :=
  exists_forest_of_graphs h.graphs hGraph

/-- The assignment covers the graphs of a well-formed problem. -/
theorem coveredBy (h : s.Shaped p) (hp : p.WellFormed) (hForest : s.forests[g]? = some t) :
    t.graph.coveredBy s.assignment = true := by
  have hGraph : p.graphs[g]? = some t.graph := by
    rw [h.getElem?_graphs, hForest]
    rfl
  rw [Graph.coveredBy_iff]
  intro e
  have hNamed := hp.graphs t.graph (Array.mem_of_getElem? hGraph) _
    (Graph.mem_propositions.mpr ⟨e, rfl⟩)
  rw [h.assignment]
  exact Nat.lt_succ_of_le hNamed.2

/-- What a demand refers to is there. -/
theorem lookup (h : s.Shaped p) (hp : p.WellFormed)
    (hc : p.constraints[id]? = some (.graph g demand)) :
    ∃ t d, s.forests[g]? = some t ∧ p.graphs[g]? = some t.graph
      ∧ demand.resolve t.graph = .ok d := by
  obtain ⟨gr, d, hGraph, hResolve⟩ := hp.constraints _ (Array.mem_of_getElem? hc)
  obtain ⟨t, hForest, rfl⟩ := h.exists_forest hGraph
  exact ⟨t, d, hForest, hGraph, hResolve⟩

/-! ## Keeping the shape -/

/-- The shape is a matter of four tables. -/
theorem of_tables (h : s.Shaped p) (hAssignment : s'.assignment = s.assignment)
    (hViolated : s'.violated = s.violated) (hMarks : s'.marks = s.marks)
    (hForests : s'.forests = s.forests) : s'.Shaped p :=
  ⟨hAssignment ▸ h.assignment, hViolated ▸ h.violated, hMarks ▸ h.marks, hForests ▸ h.graphs⟩

theorem setMarks (h : s.Shaped p) : (s.setMarks id m).Shaped p :=
  { h with marks := by simpa [State.setMarks] using h.marks }

theorem setViolated (h : s.Shaped p) {w : IndexSet} (hw : w.Fits p.constraints.size) :
    (s.setViolated w).Shaped p :=
  { h with violated := hw }

theorem setForest (h : s.Shaped p) (hForest : s.forests[g]? = some t)
    (hGraph : t'.graph = t.graph) : (s.setForest g t').Shaped p :=
  { h with graphs := (graphs_setForest hForest hGraph).trans h.graphs }

end Shaped

/-! ## Steps for one constraint -/

/-- The two states differ at most in the tables that are kept for constraints and
graphs. -/
def OnlyTables (s s' : State) : Prop :=
  s' = { s with
    violated := s'.violated
    marks := s'.marks
    forests := s'.forests }

namespace OnlyTables

theorem refl (s : State) : OnlyTables s s := rfl

theorem trans (h : OnlyTables s s') (k : OnlyTables s' s'') : OnlyTables s s'' := by
  unfold OnlyTables at h k ⊢
  rw [k, h]

theorem assignment (h : OnlyTables s s') : s'.assignment = s.assignment := by
  rw [h]

theorem tally (h : OnlyTables s s') : s'.tally = s.tally := by
  rw [h]

end OnlyTables

/-- The two states differ at most in what is kept for one constraint and for the
graph that it speaks of. -/
structure Touched (s s' : State) (id : Nat) (c : Constraint) : Prop where
  onlyTables : OnlyTables s s'
  violated : ∀ j, j ≠ id → (j ∈ s'.violated.toList ↔ j ∈ s.violated.toList)
  marks : ∀ j, j ≠ id → s'.marks[j]? = s.marks[j]?
  forests : ∀ g, (∀ demand, c ≠ .graph g demand) → s'.forests[g]? = s.forests[g]?

namespace Touched

theorem assignment (h : Touched s s' id c) : s'.assignment = s.assignment :=
  h.onlyTables.assignment

theorem trans (h : Touched s s' id c) (k : Touched s' s'' id c) : Touched s s'' id c :=
  { onlyTables := h.onlyTables.trans k.onlyTables
    violated := fun j hj => (k.violated j hj).trans (h.violated j hj)
    marks := fun j hj => (k.marks j hj).trans (h.marks j hj)
    forests := fun g hg => (k.forests g hg).trans (h.forests g hg) }

theorem setMarks : Touched s (s.setMarks id m) id c :=
  ⟨rfl, fun _ _ => Iff.rfl, fun _ hj => getElem?_setMarks_other hj, fun _ _ => rfl⟩

theorem setViolated {w : IndexSet}
    (h : ∀ j, j ≠ id → (j ∈ w.toList ↔ j ∈ s.violated.toList)) :
    Touched s (s.setViolated w) id c :=
  ⟨rfl, h, fun _ _ => rfl, fun _ _ => rfl⟩

theorem setForest : Touched s (s.setForest g t) id (.graph g demand) := by
  refine ⟨rfl, fun _ _ => Iff.rfl, fun _ _ => rfl, fun j hj => getElem?_setForest_other ?_⟩
  rintro rfl
  exact hj demand rfl

/-- What is kept for other constraints stays. -/
theorem records (h : Touched s s' id c) (hj : j ≠ id) (k : s.Records p a j c') :
    s'.Records p a j c' :=
  { violated := (h.violated j hj).trans k.violated
    counted := fun l hl m hm => k.counted l hl m (h.marks j hj ▸ hm)
    routed := fun m hm => k.routed m (h.marks j hj ▸ hm) }

/-- Other forests stay, and the one at hand was brought up to date. -/
theorem follows (h : Touched s s' id c)
    (hSelf : ∀ g demand, c = .graph g demand → s'.Follows g a') (k : s.Follows g a) :
    s'.Follows g a ∨ s'.Follows g a' := by
  by_cases hOwn : ∃ demand, c = .graph g demand
  · obtain ⟨demand, hEq⟩ := hOwn
    exact Or.inr (hSelf g demand hEq)
  · obtain ⟨t, hForest, hUpToDate⟩ := k
    refine Or.inl ⟨t, ?_, hUpToDate⟩
    rw [h.forests g fun demand hEq => hOwn ⟨demand, hEq⟩]
    exact hForest

/-- A step that settles one constraint leaves the others settled. -/
theorem settled (h : Touched s s' id c) (hSelf : s'.Settled p a id c) (hj : j ≠ id)
    (k : s.Settled p a j c') : s'.Settled p a j c' :=
  { toRecords := h.records hj k.toRecords
    follows := fun g demand hEq => (h.follows hSelf.follows (k.follows g demand hEq)).elim
      (fun hFollows => hFollows) fun hFollows => hFollows }

end Touched

end State
end LocalRepair
