import Mathlib.Data.List.Nodup
import LocalRepair.Proofs.Assignment
import LocalRepair.Graph.Reach

/-!
# Edges and their propositions

No proposition backs two edges, so looking up the edge of a proposition and
asking an edge for its proposition undo each other. An assignment that covers a
graph tells of every edge whether it is present.

## Main results

* `mem_incident_iff`: the edges at a vertex.
* `proposition_injective`: an edge is known by its proposition.
* `edgeBackedBy?_eq_some_iff`, `edgeBackedBy?_eq_none_iff`: looking up an edge.
* `presentIn_flipped_iff`: a flip changes the presence of one edge at most.
-/

namespace LocalRepair.Graph

variable {g : Graph} {d e : g.EdgeId} {v : Nat} {a a' : Assignment}

/-- The vertex with a number has that number. -/
theorem val_of_vertex {i : Nat} {u : g.Vertex} (h : g.vertex i = .ok u) : u.val = i := by
  unfold vertex at h
  split at h <;> cases h
  rfl

/-- A vertex is the one with its number. -/
theorem vertex_val (u : g.Vertex) : g.vertex u = .ok u := by
  rw [vertex, dif_pos u.isLt]

/-! ## Edges at a vertex -/

section Ends

variable {u w x : g.Vertex}

/-- An edge that leads on from a vertex leads to its opposite end. -/
theorem Leads.opposite (h : g.Leads e u w) : (g.edge e).opposite u = w := by
  unfold Edge.opposite
  rcases h with ⟨rfl, rfl⟩ | ⟨rfl, rfl⟩
  · simp
  · by_cases hLoop : (g.edge e).a = (g.edge e).b <;> simp [hLoop]

/-- An edge leads on to one vertex only. -/
theorem Leads.unique (h : g.Leads e u w) (k : g.Leads e u x) : w = x :=
  h.opposite.symm.trans k.opposite

/-- The edges at a vertex are those that lead on from it. -/
theorem mem_incident_iff : e ∈ g.incident u ↔ ∃ w, g.Leads e u w := by
  simp only [incident, edgeIds, List.mem_filter, List.mem_finRange, true_and, Edge.touches,
    Bool.or_eq_true, beq_iff_eq]
  constructor
  · rintro (rfl | rfl)
    · exact ⟨_, Or.inl ⟨rfl, rfl⟩⟩
    · exact ⟨_, Or.inr ⟨rfl, rfl⟩⟩
  · rintro ⟨w, ⟨hEnd, _⟩ | ⟨_, hEnd⟩⟩
    · exact Or.inl hEnd
    · exact Or.inr hEnd

end Ends

/-! ## Propositions -/

/-- The row of edges has the edges of the graph. -/
theorem exists_mem_edges_iff {P : Edge g.vertexCount → Prop} :
    (∃ x ∈ g.edges.toList, P x) ↔ ∃ e : g.EdgeId, P (g.edge e) := by
  simp only [Array.mem_toList_iff, Array.mem_iff_getElem]
  constructor
  · rintro ⟨_, ⟨i, hi, rfl⟩, hEdge⟩
    exact ⟨⟨i, hi⟩, hEdge⟩
  · rintro ⟨e, hEdge⟩
    exact ⟨g.edge e, ⟨e.val, e.isLt, rfl⟩, hEdge⟩

/-- Propositions of a graph are those of its edges. -/
theorem mem_propositions : v ∈ g.propositions ↔ ∃ e : g.EdgeId, (g.edge e).proposition = v :=
  List.mem_map.trans exists_mem_edges_iff

/-- The row of propositions follows the row of edges. -/
theorem getElem_propositions (e : g.EdgeId) (h : e.val < g.propositions.length) :
    g.propositions[e.val] = (g.edge e).proposition := by
  simp only [propositions, List.getElem_map]
  rfl

/-- The propositions are those of the edges, in the same order. -/
theorem propositions_eq (g : Graph) :
    g.propositions = g.edgeIds.map fun e => (g.edge e).proposition := by
  have hLength : g.propositions.length = g.edgeIds.length := by
    rw [edgeIds, List.length_finRange, propositions, List.length_map, Array.length_toList,
      edgeCount]
  refine List.ext_getElem (by rw [hLength, List.length_map]) fun i h _ => ?_
  have hi : i < g.edgeCount := by simpa [propositions, edgeCount] using h
  rw [getElem_propositions ⟨i, hi⟩ h]
  simp [edgeIds]

/-- An edge is known by its proposition. -/
theorem proposition_injective (h : (g.edge d).proposition = (g.edge e).proposition) : d = e := by
  have hSize : g.edgeCount = g.propositions.length := by
    simp [propositions, edgeCount]
  have hd : d.val < g.propositions.length := Nat.lt_of_lt_of_eq d.isLt hSize
  have he : e.val < g.propositions.length := Nat.lt_of_lt_of_eq e.isLt hSize
  rw [← getElem_propositions d hd, ← getElem_propositions e he] at h
  exact Fin.ext (g.distinct.getElem_inj_iff.mp h)

/-- The edge found for a proposition is the one that it backs. -/
theorem edgeBackedBy?_eq_some_iff : g.edgeBackedBy? v = some e ↔ (g.edge e).proposition = v := by
  constructor
  · intro h
    simpa using List.find?_some h
  · intro h
    cases hFound : g.edgeBackedBy? v with
    | none =>
        rw [edgeBackedBy?, List.find?_eq_none] at hFound
        have := hFound e (by simp [edgeIds])
        simp [h] at this
    | some d =>
        have hd : (g.edge d).proposition = v := by simpa using List.find?_some hFound
        rw [proposition_injective (hd.trans h.symm)]

/-- No edge is found for a proposition that backs none. -/
theorem edgeBackedBy?_eq_none_iff : g.edgeBackedBy? v = none ↔ v ∉ g.propositions := by
  rw [mem_propositions, edgeBackedBy?, List.find?_eq_none]
  simp [edgeIds]

/-- An edge is found for a proposition that backs one. -/
theorem exists_edgeBackedBy (h : v ∈ g.propositions) : ∃ e, g.edgeBackedBy? v = some e := by
  obtain ⟨e, he⟩ := mem_propositions.mp h
  exact ⟨e, edgeBackedBy?_eq_some_iff.mpr he⟩

/-! ## Presence -/

/-- An assignment covers a graph when its table reaches to every edge. -/
theorem coveredBy_iff :
    g.coveredBy a = true ↔ ∀ e : g.EdgeId, (g.edge e).proposition < a.values.size := by
  rw [coveredBy, List.all_eq_true]
  constructor
  · intro h e
    simpa using h _ (mem_propositions.mpr ⟨e, rfl⟩)
  · intro h p hp
    obtain ⟨e, rfl⟩ := mem_propositions.mp hp
    simpa using h e

/-- Whether an edge of a covered graph is present. -/
theorem isPresent_eq (h : g.coveredBy a = true) (e : g.EdgeId) :
    g.isPresent a e = .ok (g.presentIn a e) :=
  Assignment.value_eq (coveredBy_iff.mp h e)

/-- A flip leaves a graph covered. -/
theorem coveredBy_flipped (h : g.coveredBy a = true) (hFlip : a.Flipped v a') :
    g.coveredBy a' = true := by
  rw [coveredBy_iff] at h ⊢
  intro e
  rw [hFlip.size]
  exact h e

/-- Flipping a proposition turns over the edge that it backs. -/
theorem presentIn_flipped_self (hFlip : a.Flipped (g.edge e).proposition a') :
    g.presentIn a' e = !g.presentIn a e :=
  hFlip.self

/-- Flipping a proposition leaves the edges alone that it does not back. -/
theorem presentIn_flipped_other (hFlip : a.Flipped v a') (h : (g.edge d).proposition ≠ v) :
    g.presentIn a' d = g.presentIn a d :=
  hFlip.other _ h

end LocalRepair.Graph
