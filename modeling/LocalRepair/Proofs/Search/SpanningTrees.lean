import LocalRepair.Proofs.Forest.Tree
import LocalRepair.Proofs.Search.Verdict

/-!
# Connected with one edge fewer than vertices

A problem can ask of a graph that it is connected and that it has a certain number of
edges. With one edge fewer than vertices these two constraints together say that the
present edges make a spanning tree, which neither of them says alone.

The first is answered from a forest, the second is a clause that counts propositions. Every
edge has a proposition of its own, and the positive literal of a proposition is true when
the edge is present, as long as the number of the proposition fits into a literal. So the
clause counts present edges.

## Main definitions

* `Graph.TreeOf`: the present edges of an assignment make a spanning tree.

## Main results

* `Graph.truePositions_edges`: the clause counts present edges.
* `connected_with_few_edges_is_tree`: assignments that meet both constraints, among
  them all solutions that are found, make spanning trees.
-/

namespace LocalRepair

/-! ## Counting edges -/

namespace Graph

variable {g : Graph} {a : Assignment} {min max : Nat}

/-- A clause on the propositions of a graph counts present edges. -/
theorem truePositions_edges (hNamed : ∀ v ∈ g.propositions, 0 < v ∧ v < 2 ^ 31) :
    (Clause.window (g.propositions.map Literal.positive) min max).truePositions a
      = (g.edgeIds.filter (g.presentIn a)).length := by
  show (g.propositions.map Literal.positive).countP _ = _
  rw [propositions_eq, List.map_map]
  refine Clause.countP_map_literals _ _ _ fun e _ => ?_
  obtain ⟨hPos, hFits⟩ := hNamed _ (mem_propositions.mpr ⟨e, rfl⟩)
  rw [Function.comp_apply, Literal.isTrueUnder_positive hPos hFits,
    Literal.proposition_positive hFits, presentIn]

/-- An assignment that covers the literals of such a clause covers the graph. -/
theorem coveredBy_of_literals (hNamed : ∀ v ∈ g.propositions, 0 < v ∧ v < 2 ^ 31)
    (h : ∀ l ∈ (Clause.window (g.propositions.map Literal.positive) min max).literals,
      l.proposition < a.values.size) : g.coveredBy a = true := by
  rw [coveredBy_iff]
  intro e
  have hMem : (g.edge e).proposition ∈ g.propositions := mem_propositions.mpr ⟨e, rfl⟩
  have hRange := h (Literal.positive (g.edge e).proposition) (List.mem_map_of_mem hMem)
  rwa [Literal.proposition_positive (hNamed _ hMem).2] at hRange

/-- The present edges of an assignment make a spanning tree, and a forest that is rebuilt for
the assignment, whatever it was before, has exactly these edges. -/
structure TreeOf (g : Graph) (a : Assignment) : Prop where
  spanning : g.SpanningTree fun e => g.presentIn a e = true
  rebuilt : ∀ f : Forest g, ∃ f', f.rebuild a = .ok f'
    ∧ f'.joiningEdges = g.edgeIds.filter (g.presentIn a)

/-- A covered graph that is connected and has one edge fewer than vertices makes a tree. -/
theorem treeOf_of_count (hCovered : g.coveredBy a = true)
    (hJoined : ∀ u v, g.Joined (fun e => g.presentIn a e = true) u v)
    (hCount : (g.edgeIds.filter (g.presentIn a)).length + 1 = g.vertexCount) : g.TreeOf a := by
  refine ⟨(Forest.buildFrom_spans _ (.singletons g)).spanningTree hJoined hCount, fun f => ?_⟩
  refine ⟨f.buildFrom (g.presentIn a), if_pos hCovered, ?_⟩
  rw [Forest.joiningEdges, (Forest.buildFrom_spans _ f).contains_of_count hJoined hCount]

end Graph

/-! ## Both constraints together -/

variable {p : Problem} {n i j : Nat} {g : Graph}

/-- A solution that an engine answers with was found by its strategy, in a new state. -/
theorem Engine.exists_run {e : Engine} {solution : Solution} {stats : Stats}
    (h : (e.solve p).1 = .ok (some solution, stats)) :
    ∃ generator s', e.strategy.solve p (.new p generator) = .ok (some solution, stats) s' := by
  refine ⟨.seeded e.generator.doubleWord.1, ?_⟩
  cases hRun : e.strategy.solve p (.new p (.seeded e.generator.doubleWord.1)) with
  | ok answer s' =>
      simp only [Engine.solve, hRun] at h
      exact ⟨s', by rw [Except.ok.inj h]⟩
  | error fault s' =>
      simp only [Engine.solve, hRun] at h
      cases h

/-- Let a problem ask of a graph, with at least one vertex, that it is connected and has
exactly one edge fewer than vertices. In an assignment of which neither constraint is
reported as violated, whatever its length, the present edges make a spanning tree: any two
vertices are the ends of exactly one simple path, no present edge is a loop, and a rebuilt
forest has exactly the present edges. The same is true of every solution that a strategy or
an engine answers with. -/
theorem connected_with_few_edges_is_tree (hp : p.Built) (hFits : p.propositionCount < 2 ^ 31)
    (hGraph : p.graphs[n]? = some g) (hSome : 0 < g.vertexCount)
    (hConnected : p.constraints[i]? = some (.graph n .whole))
    (hEdges : p.constraints[j]? = some (.clause (.window (g.propositions.map Literal.positive)
      (g.vertexCount - 1) (g.vertexCount - 1)))) :
    (∀ a ids, p.violatedBy a = .ok ids → i ∉ ids → j ∉ ids → g.TreeOf a)
      ∧ (∀ (strategy : Strategy) (s s' : State) (solution : Solution) (stats : Stats),
        Visited p s → strategy.solve p s = .ok (some solution, stats) s' →
          g.TreeOf solution.assignment)
      ∧ ∀ (e : Engine) (solution : Solution) (stats : Stats),
        (e.solve p).1 = .ok (some solution, stats) → g.TreeOf solution.assignment := by
  have hWellFormed := hp.wellFormed
  have hNamed : ∀ v ∈ g.propositions, 0 < v ∧ v < 2 ^ 31 := by
    intro v hv
    have hRange := hWellFormed.graphs g (Array.mem_of_getElem? hGraph) v hv
    exact ⟨hRange.1, Nat.lt_of_le_of_lt hRange.2 hFits⟩
  have hReported : ∀ a ids, p.violatedBy a = .ok ids → i ∉ ids → j ∉ ids → g.TreeOf a := by
    intro a ids hReport hi hj
    obtain ⟨_, hFirst⟩ := Problem.told_of_violatedBy hWellFormed hReport hConnected
    obtain ⟨hRead, hSecond⟩ := Problem.told_of_violatedBy hWellFormed hReport hEdges
    have hResolve : (Connectivity.whole : Connectivity Nat).resolve g = .ok .whole := rfl
    have hWhole : ∀ u v, g.Joined (fun e => g.presentIn a e = true) u v :=
      (Constraint.holds_graph_iff hGraph hResolve).mp (not_not.mp (mt hFirst.mpr hi))
    obtain ⟨hLower, hUpper⟩ : Clause.Holds _ a := not_not.mp (mt hSecond.mpr hj)
    rw [Graph.truePositions_edges hNamed] at hLower hUpper
    have hMost : (g.edgeIds.filter (g.presentIn a)).length ≤ g.vertexCount - 1 :=
      Nat.le_trans hUpper (Nat.min_le_left _ _)
    have hLeast : g.vertexCount - 1 ≤ (g.edgeIds.filter (g.presentIn a)).length := hLower
    exact Graph.treeOf_of_count (Graph.coveredBy_of_literals hNamed (hRead _ rfl)) hWhole
      (by omega)
  have hFound : ∀ (strategy : Strategy) (s s' : State) (solution : Solution) (stats : Stats),
      Visited p s → strategy.solve p s = .ok (some solution, stats) s' →
        g.TreeOf solution.assignment := by
    intro strategy s s' solution stats hVisited hRun
    have hSolves := ((strategy.finds_solve hWellFormed s hVisited.shaped).of_ok hRun).2 solution rfl
    exact hReported _ [] (hSolves.violatedBy_eq hWellFormed) (by simp) (by simp)
  refine ⟨hReported, hFound, fun e solution stats hAnswer => ?_⟩
  obtain ⟨generator, s', hRun⟩ := Engine.exists_run hAnswer
  exact hFound e.strategy _ s' solution stats (.new generator) hRun

/-- A circle of five vertices with a loop and two edges between the same vertices. -/
def Graph.parallel : Graph :=
  ⟨5, #[⟨0, 1, 1⟩, ⟨1, 1, 2⟩, ⟨1, 0, 3⟩, ⟨1, 2, 4⟩, ⟨2, 3, 5⟩, ⟨3, 4, 6⟩, ⟨4, 0, 7⟩], by decide⟩

/-- A problem that asks for spanning trees, with a proposition that occurs nowhere. -/
def Problem.treeing : Problem :=
  Builder.toProblem <| Builder.after [
    .newPropositions "x" 8,
    .addGraph .parallel,
    .demand 0 .whole,
    .boundEdges 0 4 4]

theorem Problem.built_treeing : treeing.Built :=
  ⟨_, rfl, ⟨trivial, trivial, trivial, trivial, trivial⟩, by decide, by decide⟩

/-- One edge between two vertices and three more along the circle make a spanning tree, and an
assignment with these edges can do without a value for the proposition that occurs nowhere. A
walk finds a spanning tree as well. -/
theorem connected_with_few_edges_is_tree_parallel :
    (∃ a : Assignment, a.propositionCount < Problem.treeing.propositionCount
        ∧ Problem.treeing.violatedBy a = .ok [] ∧ Graph.parallel.TreeOf a)
      ∧ ∃ solution stats s', Strategy.solve .treeing
          (.walk { selection := .lowest, seeding := .allFalse, maxFlips := 5 })
          (.new .treeing (.seeded 0)) = .ok (some solution, stats) s'
        ∧ Graph.parallel.TreeOf solution.assignment := by
  have hFits : Problem.treeing.propositionCount < 2 ^ 31 := by decide
  have hGraph : Problem.treeing.graphs[0]? = some Graph.parallel := rfl
  have hSome : 0 < Graph.parallel.vertexCount := by decide
  have hConnected : Problem.treeing.constraints[0]? = some (.graph 0 .whole) := rfl
  have hEdges : Problem.treeing.constraints[1]? = some (.clause
      (.window (Graph.parallel.propositions.map Literal.positive) 4 4)) := by rfl
  obtain ⟨hReported, hFound, _⟩ :=
    connected_with_few_edges_is_tree Problem.built_treeing hFits hGraph hSome hConnected hEdges
  constructor
  · let a : Assignment := ⟨#[false, true, false, false, true, true, true, false]⟩
    have hSeen : (Problem.treeing.violatedBy a).toOption = some [] := by decide +kernel
    cases hReport : Problem.treeing.violatedBy a with
    | ok ids =>
        rw [hReport] at hSeen
        obtain rfl : ids = [] := Option.some.inj hSeen
        exact ⟨a, by decide, hReport, hReported a [] hReport (by simp) (by simp)⟩
    | error fault =>
        rw [hReport] at hSeen
        cases hSeen
  · have hSeen : ((Strategy.solve .treeing
        (.walk { selection := .lowest, seeding := .allFalse, maxFlips := 5 })).run'
          (.new .treeing (.seeded 0))).any (·.1.isSome) = true := by decide +kernel
    unfold EStateM.run' EStateM.run at hSeen
    cases hRun : Strategy.solve .treeing
        (.walk { selection := .lowest, seeding := .allFalse, maxFlips := 5 })
        (.new .treeing (.seeded 0)) with
    | error fault s' =>
        rw [hRun] at hSeen
        cases hSeen
    | ok answer s' =>
        rw [hRun] at hSeen
        obtain ⟨solution, hSolution⟩ := Option.isSome_iff_exists.mp hSeen
        obtain ⟨_, stats⟩ := answer
        obtain rfl := hSolution
        exact ⟨solution, stats, s', rfl, hFound _ _ s' solution stats (.new (.seeded 0)) hRun⟩

end LocalRepair
