import LocalRepair.Proofs.Forest.Spanning
import LocalRepair.Proofs.Graph.Edges
import LocalRepair.Proofs.Graph.Route

/-!
# Spanning trees

Present edges make a spanning tree when any two vertices are the ends of exactly one
path that comes through no vertex twice, and no edge is a loop. Paths are told apart by
their edges, so that two edges between the same vertices make two paths.

That there is such a path follows from the vertices being joined: a route that would
come through its last vertex a second time is cut off there. That there is only one
follows from all edges being bridges: where two paths part, the one bypasses the first
edge of the other.

A connected graph with one edge fewer than vertices is a spanning tree, and a forest
shows it. A forest that is made from scratch counts one component, so it has as many
edges as are present. Its edges are present, so it has them all, and the edges of a
forest are bridges.

## Main results

* `AllBridges.simplePath_unique`: among bridges a path is known by its ends.
* `Joined.exists_simplePath`: joined vertices are the ends of a path.
* `AllBridges.spanningTree`: bridges that join everything make a spanning tree.
* `contains_of_count`: the forest of a connected graph with one edge fewer than vertices
  has all present edges.
-/

namespace LocalRepair

namespace Graph

variable {g : Graph} {present : g.EdgeId → Prop} {u v w x : g.Vertex} {e d : g.EdgeId}
  {es ds : List g.EdgeId} {vs : List g.Vertex}

/-- Any two vertices are the ends of exactly one path of present edges without repeated
vertices, and no present edge is a loop. -/
structure SpanningTree (g : Graph) (present : g.EdgeId → Prop) : Prop where
  uniquePath : ∀ u w : g.Vertex, ∃! es, SimplePath g present u es w
  noLoop : ∀ e, present e → (g.edge e).a ≠ (g.edge e).b

/-! ## Paths between joined vertices -/

/-- A route can be cut off at any vertex that it comes through. -/
theorem Route.exists_prefix (h : Route g present u es vs w) (hx : x ∈ vs) :
    ∃ ds xs, Route g present u ds xs x ∧ xs <+: vs := by
  induction h with
  | stay u =>
      obtain rfl := List.mem_singleton.mp hx
      exact ⟨[], [x], .stay x, List.prefix_refl _⟩
  | @step u v w e es vs isPresent leads further ih =>
      rcases List.mem_cons.mp hx with rfl | hLater
      · exact ⟨[], [x], .stay x, by simp⟩
      · obtain ⟨ds, xs, hRoute, hPrefix⟩ := ih hLater
        exact ⟨e :: ds, u :: xs, .step isPresent leads hRoute,
          (List.prefix_cons_inj u).mpr hPrefix⟩

/-- Joined vertices are the ends of a path without repeated vertices. -/
theorem Joined.exists_simplePath (h : Joined g present u w) :
    ∃ es, SimplePath g present u es w := by
  induction h with
  | here => exact ⟨[], [u], .stay u, by simp⟩
  | @along v w e _ hPresent hLeads ih =>
      obtain ⟨es, vs, hRoute, hNodup⟩ := ih
      by_cases hAgain : w ∈ vs
      · obtain ⟨ds, xs, hCut, hPrefix⟩ := hRoute.exists_prefix hAgain
        exact ⟨ds, xs, hCut, hNodup.sublist hPrefix.sublist⟩
      · refine ⟨es ++ [e], vs ++ [w], hRoute.snoc hPresent hLeads, ?_⟩
        exact List.nodup_append.mpr ⟨hNodup, by simp, fun y hy z hz hEq =>
          hAgain (List.mem_singleton.mp hz ▸ hEq ▸ hy)⟩

/-! ## Bridges -/

/-- A route that does not come through an end of an edge does without the edge. -/
theorem Route.joined_minus (h : Route g present v es vs w) (hLeads : g.Leads e u x)
    (hOutside : u ∉ vs) : Joined g (minus present e) v w := by
  have hWithout : ∀ d ∈ es, present d → minus present e d := by
    rintro d hd hPresent
    refine ⟨hPresent, ?_⟩
    rintro rfl
    have hEnds := h.ends_mem hd
    rcases hLeads with ⟨rfl, _⟩ | ⟨_, rfl⟩
    · exact hOutside hEnds.1
    · exact hOutside hEnds.2
  exact (h.mono hWithout).joined

namespace AllBridges

/-- The ends of a bridge are not joined without it, in whichever direction it is
followed. -/
theorem not_joined (h : AllBridges g present) (hPresent : present e) (hLeads : g.Leads e u v) :
    ¬ Joined g (minus present e) u v := by
  intro hJoined
  rcases hLeads with ⟨rfl, rfl⟩ | ⟨rfl, rfl⟩
  · exact h e hPresent hJoined
  · exact h e hPresent hJoined.symm

/-- Bridges are no loops. -/
theorem noLoop (h : AllBridges g present) (hPresent : present e) :
    (g.edge e).a ≠ (g.edge e).b := by
  intro hLoop
  exact h e hPresent (hLoop ▸ Joined.here)

/-- Two routes from a vertex to the same end, neither of which comes back to where it
started, begin with the same edge: otherwise the one would bypass the first edge of the
other. -/
theorem first_unique {xs : List g.Vertex} (h : AllBridges g present) (hPresent : present e)
    (hLeads : g.Leads e u v) (hRoute : Route g present v es vs w) (hOutside : u ∉ vs)
    (hPresent' : present d) (hLeads' : g.Leads d u x) (hRoute' : Route g present x ds xs w)
    (hOutside' : u ∉ xs) : e = d := by
  by_contra hOther
  have hThere : Joined g (minus present e) u x :=
    Joined.single ⟨hPresent', fun hSame => hOther hSame.symm⟩ hLeads'
  have hOn : Joined g (minus present e) x w := hRoute'.joined_minus hLeads hOutside'
  have hBack : Joined g (minus present e) w v := (hRoute.joined_minus hLeads hOutside).symm
  exact h.not_joined hPresent hLeads ((hThere.trans hOn).trans hBack)

/-- Among bridges, a path without repeated vertices is known by its ends. -/
theorem simplePath_unique (h : AllBridges g present) (hFirst : SimplePath g present u es w)
    (hSecond : SimplePath g present u ds w) : es = ds := by
  obtain ⟨vs, hRoute, hNodup⟩ := hFirst
  induction hRoute generalizing ds with
  | stay u =>
      obtain ⟨xs, hRoute', hNodup'⟩ := hSecond
      exact ((hRoute'.eq_nil_iff hNodup').mpr rfl).symm
  | @step u v w e es vs hPresent hLeads hRest ih =>
      obtain ⟨hOutside, hNodup⟩ := List.nodup_cons.mp hNodup
      obtain ⟨xs, hRoute', hNodup'⟩ := hSecond
      cases hRoute' with
      | stay u => exact absurd hRest.end_mem hOutside
      | @step _ x _ d ds xs hPresent' hLeads' hRest' =>
          obtain ⟨hOutside', hNodup'⟩ := List.nodup_cons.mp hNodup'
          obtain rfl := h.first_unique hPresent hLeads hRest hOutside hPresent' hLeads' hRest'
            hOutside'
          obtain rfl := hLeads.unique hLeads'
          rw [ih ⟨xs, hRest', hNodup'⟩ hNodup]

/-- Bridges that join everything make a spanning tree. -/
theorem spanningTree (h : AllBridges g present) (hJoined : ∀ u v, Joined g present u v) :
    SpanningTree g present := by
  refine ⟨fun u w => ?_, fun e hPresent => h.noLoop hPresent⟩
  obtain ⟨es, hPath⟩ := (hJoined u w).exists_simplePath
  exact ⟨es, hPath, fun ds hOther => h.simplePath_unique hOther hPath⟩

end AllBridges
end Graph

namespace Forest

variable {g : Graph} {f : Forest g} {isPresent : g.EdgeId → Bool}

/-- A forest that is right about a connected graph with one edge fewer than vertices has
all the present edges. -/
theorem Spans.contains_of_count (h : f.Spans fun e => isPresent e = true)
    (hJoined : ∀ u v, g.Joined (fun e => isPresent e = true) u v)
    (hCount : (g.edgeIds.filter isPresent).length + 1 = g.vertexCount) :
    f.contains = isPresent := by
  have hComponents : f.components = 1 := by
    have hSome : 0 < f.components := by
      obtain ⟨r, hr, _⟩ := h.representatives.covers ⟨0, by omega⟩
      rw [h.components]
      exact List.length_pos_of_mem hr
    have hOne : f.components ≤ 1 := by
      rw [h.components, h.representatives.length_le_one_iff]
      exact hJoined
    omega
  have hSublist : f.joiningEdges.Sublist (g.edgeIds.filter isPresent) :=
    List.monotone_filter_right _ fun e he => h.present_of_contains e he
  have hLength : f.joiningEdges.length = (g.edgeIds.filter isPresent).length := by
    have hTotal := h.total
    have hSize := h.size
    omega
  have hSame : f.joiningEdges = g.edgeIds.filter isPresent := hSublist.eq_of_length hLength
  funext e
  have hIff : f.contains e = true ↔ isPresent e = true := by
    rw [← mem_joiningEdges, hSame]
    simp [Graph.edgeIds]
  exact Bool.eq_iff_iff.mpr hIff

/-- A connected graph with one edge fewer than vertices is a spanning tree. -/
theorem Spans.spanningTree (h : f.Spans fun e => isPresent e = true)
    (hJoined : ∀ u v, g.Joined (fun e => isPresent e = true) u v)
    (hCount : (g.edgeIds.filter isPresent).length + 1 = g.vertexCount) :
    g.SpanningTree fun e => isPresent e = true := by
  have hBridges : Graph.AllBridges g fun e => f.contains e = true := h.bridges
  rw [h.contains_of_count hJoined hCount] at hBridges
  exact hBridges.spanningTree hJoined

end Forest
end LocalRepair
