import Mathlib.Data.List.Nodup
import LocalRepair.Proofs.Graph.Edges

/-!
# Making graphs

A graph is made of edges that are written down as two numbers and a proposition. What is
written down is checked edge by edge, and an edge that passes is added as it stands. So a
graph that was made has the written edges, all of them and in their order; and it can be
made if the numbers are those of vertices and no proposition is written twice.

## Main results

* `checkVertices_eq_ok_iff`: which numbers pass for vertices.
* `exists_addEdges`: which edges can be added.
* `written_of_ofEdges`: the edges of a graph that was made.
-/

namespace LocalRepair

/-- An edge as it is written down: the numbers of its ends and its proposition. -/
def Edge.written {n : Nat} (e : Edge n) : Nat × Nat × Nat := (e.a.val, e.b.val, e.proposition)

/-- An edge is known by how it is written down. -/
theorem Edge.written_eq_iff {n v : Nat} {e : Edge n} {x y : Fin n} :
    e.written = (x.val, y.val, v) ↔ e = ⟨x, y, v⟩ := by
  cases e
  simp [written, Fin.ext_iff]

namespace Graph

variable {g g' : Graph} {a b v : Nat}

/-- The edges of a graph as they are written down. -/
def written (g : Graph) : List (Nat × Nat × Nat) := g.edges.toList.map Edge.written

/-- What is written down belongs to an edge of the graph. -/
theorem mem_written_iff {entry : Nat × Nat × Nat} :
    entry ∈ g.written ↔ ∃ e : g.EdgeId, (g.edge e).written = entry :=
  List.mem_map.trans exists_mem_edges_iff

/-- Numbers pass for vertices exactly if all of them are in range. -/
theorem checkVertices_eq_ok_iff {vs : List Nat} :
    g.checkVertices vs = .ok () ↔ ∀ v ∈ vs, v < g.vertexCount := by
  unfold checkVertices
  cases hFound : vs.find? fun v => decide (g.vertexCount ≤ v) with
  | none =>
      rw [List.find?_eq_none] at hFound
      exact iff_of_true rfl fun v hv => by simpa using hFound v hv
  | some v =>
      have hBeyond : g.vertexCount ≤ v := by simpa using List.find?_some hFound
      refine iff_of_false (by simp) fun hRange => ?_
      exact absurd (hRange v (List.mem_of_find?_eq_some hFound)) (Nat.not_lt.mpr hBeyond)

/-! ## Adding edges -/

/-- Edges between vertices, each with a proposition that backs no other edge, can
all be added. -/
theorem exists_addEdges :
    ∀ (edges : List (Nat × Nat × Nat)) (g : Graph),
      (∀ e ∈ edges, e.1 < g.vertexCount ∧ e.2.1 < g.vertexCount) →
      (g.propositions ++ edges.map (·.2.2)).Nodup →
      ∃ g', edges.foldlM (fun g (a, b, proposition) => g.addEdge a b proposition) g
        = Except.ok g' := by
  intro edges
  induction edges with
  | nil => exact fun g _ _ => ⟨g, rfl⟩
  | cons e edges ih =>
      intro g hEnds hDistinct
      obtain ⟨a, b, v⟩ := e
      obtain ⟨ha, hb⟩ := hEnds (a, b, v) (by simp)
      have hNew : v ∉ g.edges.toList.map Edge.proposition := by
        intro hMem
        exact (List.nodup_append.mp hDistinct).2.2 v hMem v (by simp) rfl
      let g' : Graph := ⟨g.vertexCount, g.edges.push ⟨⟨a, ha⟩, ⟨b, hb⟩, v⟩, by
        simpa [propositions] using hDistinct.sublist (by simp [propositions])⟩
      have hAdd : g.addEdge a b v = .ok g' := by
        unfold addEdge
        rw [dif_pos ha, dif_pos hb, dif_neg hNew]
      have hMore : (g'.propositions ++ edges.map (·.2.2)).Nodup := by
        simpa [g', propositions] using hDistinct
      obtain ⟨g'', hRest⟩ := ih g' (fun e he => hEnds e (List.mem_cons_of_mem _ he)) hMore
      refine ⟨g'', ?_⟩
      rw [List.foldlM_cons]
      show (g.addEdge a b v >>= _) = _
      rw [hAdd]
      exact hRest

/-- An edge that can be added comes last. -/
theorem written_of_addEdge (h : g.addEdge a b v = .ok g') :
    g'.vertexCount = g.vertexCount ∧ g'.written = g.written ++ [(a, b, v)] := by
  unfold addEdge at h
  split at h
  · split at h
    · split at h
      · cases h
      · cases h
        simp [written, Edge.written]
    · cases h
  · cases h

/-- Edges that can all be added are added in their order. -/
theorem written_of_addEdges :
    ∀ (edges : List (Nat × Nat × Nat)) (g : Graph),
      edges.foldlM (fun g (a, b, proposition) => g.addEdge a b proposition) g = Except.ok g' →
      g'.vertexCount = g.vertexCount ∧ g'.written = g.written ++ edges := by
  intro edges
  induction edges with
  | nil =>
      intro g h
      cases h
      simp
  | cons e edges ih =>
      intro g h
      obtain ⟨a, b, v⟩ := e
      rw [List.foldlM_cons] at h
      cases hAdd : g.addEdge a b v with
      | error cause =>
          simp [hAdd, bind, Except.bind] at h
      | ok g₁ =>
          simp only [hAdd, bind, Except.bind] at h
          obtain ⟨hCount, hWritten⟩ := written_of_addEdge hAdd
          obtain ⟨hCount', hWritten'⟩ := ih g₁ h
          refine ⟨hCount'.trans hCount, ?_⟩
          rw [hWritten', hWritten, List.append_assoc, List.singleton_append]

/-- A graph that is made of some edges has these edges. -/
theorem written_of_ofEdges {vertexCount : Nat} {edges : List (Nat × Nat × Nat)}
    (h : ofEdges vertexCount edges = .ok g) :
    g.vertexCount = vertexCount ∧ g.written = edges := by
  obtain ⟨hCount, hWritten⟩ := written_of_addEdges edges (edgeless vertexCount) h
  exact ⟨hCount, hWritten⟩

end Graph
end LocalRepair
