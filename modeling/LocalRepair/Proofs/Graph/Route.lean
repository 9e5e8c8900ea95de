import LocalRepair.Graph.Reach

/-!
# Routes

A route follows present edges one after the other, like a walk, and names the
vertices that it comes through as well as the edges. A route that comes through no
vertex twice is what the search for a path is after: it uses no edge twice, and it is
without edges only if it stays where it is.

A route is present as long as its own edges are. What happens to other edges does
not matter to it, which is why a route can be kept for some time.

## Main results

* `Route.snoc`: a route is prolonged at its end.
* `Route.mono`: a route stays while its edges are present.
* `Route.nodup_edges`, `Route.eq_nil_iff`: the edges of a route without repeated
  vertices.
-/

namespace LocalRepair.Graph

variable {g : Graph} {present present' : g.EdgeId → Prop} {u v w x : g.Vertex} {e : g.EdgeId}
  {es : List g.EdgeId} {vs : List g.Vertex}

/-- The edges of the list are present and lead, in this order, from the first vertex
to the last, through the listed vertices. -/
inductive Route (g : Graph) (present : g.EdgeId → Prop) :
    g.Vertex → List g.EdgeId → List g.Vertex → g.Vertex → Prop where
  | stay (u : g.Vertex) : Route g present u [] [u] u
  | step {u v w : g.Vertex} {e : g.EdgeId} {es : List g.EdgeId} {vs : List g.Vertex}
      (isPresent : present e) (leads : g.Leads e u v) (further : Route g present v es vs w) :
      Route g present u (e :: es) (u :: vs) w

/-- The edges make a route that comes through no vertex twice. -/
def SimplePath (g : Graph) (present : g.EdgeId → Prop) (u : g.Vertex) (es : List g.EdgeId)
    (w : g.Vertex) : Prop :=
  ∃ vs, Route g present u es vs w ∧ vs.Nodup

namespace Route

/-- A route comes through the vertex where it ends. -/
theorem end_mem (h : Route g present u es vs w) : w ∈ vs := by
  induction h with
  | stay u => simp
  | step _ _ _ ih => exact List.mem_cons_of_mem _ ih

/-- A route comes through the vertex where it starts. -/
theorem start_mem (h : Route g present u es vs w) : u ∈ vs := by
  cases h <;> simp

/-- A route that ends elsewhere starts along an edge. -/
theorem exists_next (h : Route g present u es vs w) (hElsewhere : u ≠ w) :
    ∃ e v, present e ∧ g.Leads e u v ∧ v ∈ vs := by
  cases h with
  | stay u => exact absurd rfl hElsewhere
  | step isPresent leads further =>
      exact ⟨_, _, isPresent, leads, List.mem_cons_of_mem _ further.start_mem⟩

/-- A route uses present edges only. -/
theorem present_of_mem (h : Route g present u es vs w) (he : e ∈ es) : present e := by
  induction h with
  | stay u => simp at he
  | step isPresent _ _ ih =>
      rcases List.mem_cons.mp he with rfl | he
      · exact isPresent
      · exact ih he

/-- A route comes through the ends of its edges. -/
theorem ends_mem (h : Route g present u es vs w) (he : e ∈ es) :
    (g.edge e).a ∈ vs ∧ (g.edge e).b ∈ vs := by
  induction h with
  | stay u => simp at he
  | step _ leads further ih =>
      rcases List.mem_cons.mp he with rfl | he
      · have hNext := further.start_mem
        rcases leads with ⟨rfl, rfl⟩ | ⟨rfl, rfl⟩ <;> simp [hNext]
      · exact ⟨List.mem_cons_of_mem _ (ih he).1, List.mem_cons_of_mem _ (ih he).2⟩

/-- A route is prolonged by one edge at its end. -/
theorem snoc (h : Route g present u es vs v) (hPresent : present e) (hLeads : g.Leads e v w) :
    Route g present u (es ++ [e]) (vs ++ [w]) w := by
  induction h with
  | stay u => exact .step hPresent hLeads (.stay w)
  | step isPresent leads _ ih => exact .step isPresent leads (ih hLeads)

/-- A route stays as long as its own edges are present. -/
theorem mono (h : Route g present u es vs w) (hKept : ∀ e ∈ es, present e → present' e) :
    Route g present' u es vs w := by
  induction h with
  | stay u => exact .stay u
  | step isPresent leads _ ih =>
      refine .step (hKept _ (by simp) isPresent) leads (ih fun d hd => ?_)
      exact hKept d (List.mem_cons_of_mem _ hd)

/-- A route joins its ends. -/
theorem joined (h : Route g present u es vs w) : Joined g present u w := by
  induction h with
  | stay u => exact .here
  | step isPresent leads _ ih => exact (Joined.single isPresent leads).trans ih

/-- A route that comes through no vertex twice uses no edge twice: an edge has an end
where it is used, and the route does not come back there. -/
theorem nodup_edges (h : Route g present u es vs w) (hNodup : vs.Nodup) : es.Nodup := by
  induction h with
  | stay u => simp
  | @step u v w e es vs _ leads further ih =>
      rw [List.nodup_cons] at hNodup ⊢
      refine ⟨fun he => hNodup.1 ?_, ih hNodup.2⟩
      have hEnds := further.ends_mem he
      rcases leads with ⟨rfl, _⟩ | ⟨_, rfl⟩
      · exact hEnds.1
      · exact hEnds.2

/-- A route that comes through no vertex twice is without edges exactly when it ends
where it starts. -/
theorem eq_nil_iff (h : Route g present u es vs w) (hNodup : vs.Nodup) : es = [] ↔ u = w := by
  cases h with
  | stay u => simp
  | step _ _ further =>
      have hElsewhere : u ≠ w := by
        rintro rfl
        exact (List.nodup_cons.mp hNodup).1 further.end_mem
      simp [hElsewhere]

end Route

namespace SimplePath

theorem mono (h : SimplePath g present u es w) (hKept : ∀ e ∈ es, present e → present' e) :
    SimplePath g present' u es w := by
  obtain ⟨vs, hRoute, hNodup⟩ := h
  exact ⟨vs, hRoute.mono hKept, hNodup⟩

theorem joined (h : SimplePath g present u es w) : Joined g present u w := by
  obtain ⟨vs, hRoute, _⟩ := h
  exact hRoute.joined

end SimplePath
end LocalRepair.Graph
