import LocalRepair.Proofs.Graph.Edges
import LocalRepair.Proofs.Graph.Route

/-!
# A search that carries its trails

The search for a shortest path notes one edge at each vertex that it reaches, and
reads the path off at the end. What it knows on the way is easier to say of a search
that keeps with each vertex in its queue the whole trail that led there. This file
has that search, `TrailSearch`, and what it knows; that both searches answer the same
is said elsewhere.

`TrailSearch.Explores` is what the search knows at any moment. Every trail in the
queue is a route through reached vertices, so prolonging it to a vertex that is
reached for the first time keeps it without repeated vertices. And an edge between a
reached vertex and one that is not is still ahead: its reached end waits in the queue,
or is the vertex that is being looked around from. With an empty queue nothing is
ahead, so the reached vertices are all that are joined to the source.

A vertex leaves the unreached ones when it enters the queue. Waiting and unreached
vertices together therefore get fewer by one in every round, and as many rounds as
there are vertices suffice.

## Main definitions

* `TrailSearch.lookAround`: one round of the search.
* `TrailSearch.Explores`: what it knows.

## Main results

* `Explores.reaching`, `Explores.lookedAlong`, `Explores.taking`: the steps.
* `Explores.not_joined`: what is known at the end.
-/

namespace LocalRepair.Graph

variable {g : Graph} {present : g.EdgeId → Prop} {source v w x : g.Vertex} {target : Nat}
  {e : g.EdgeId} {trail : List g.EdgeId}

/-- A table that is filled with one value has it everywhere. -/
theorem get_replicate {α : Type} {n : Nat} (x : α) (i : Fin n) :
    (Vector.replicate n x).get i = x :=
  Vector.getElem_replicate i.isLt

/-! ## The search -/

/-- A search that keeps with each vertex in its queue the trail of edges that led
there, last edge first. -/
structure TrailSearch (g : Graph) where
  reached : Vector Bool g.vertexCount
  queue : List (g.Vertex × List g.EdgeId)

namespace TrailSearch

/-- The search before its first round. -/
def start (source : g.Vertex) : TrailSearch g :=
  { reached := withEntry (Vector.replicate g.vertexCount false) source true
    queue := [(source, [])] }

/-- The search after it reached a vertex for the first time. -/
def reaching (search : TrailSearch g) (w : g.Vertex) (trail : List g.EdgeId) : TrailSearch g :=
  { reached := withEntry search.reached w true
    queue := search.queue ++ [(w, trail)] }

/-- Looks along some edges at vertex `v`, which `trail` led to. -/
def lookAround (asks : g.EdgeId → Except Fault Bool) (target : Nat) (v : g.Vertex)
    (trail : List g.EdgeId) :
    List g.EdgeId → TrailSearch g → Except Fault (List g.EdgeId ⊕ TrailSearch g)
  | [], search => .ok (.inr search)
  | e :: rest, search => do
    if ← asks e then
      let w := (g.edge e).opposite v
      if search.reached.get w then lookAround asks target v trail rest search
      else if w.val = target then return .inl (e :: trail).reverse
      else lookAround asks target v trail rest (search.reaching w (e :: trail))
    else lookAround asks target v trail rest search

variable {search : TrailSearch g}

/-! ## Reaching vertices -/

/-- The number of vertices that were not reached yet. -/
def unreached (search : TrailSearch g) : Nat := search.reached.count false

@[simp] theorem reached_reaching :
    (search.reaching w trail).reached.get x = true ↔ x = w ∨ search.reached.get x = true :=
  marked_withEntry

/-- What is true of everything in the queue and of the vertex that is reached stays true of
everything in the queue. -/
theorem forall_queue_reaching {P : g.Vertex × List g.EdgeId → Prop} :
    (∀ entry ∈ (search.reaching w trail).queue, P entry)
      ↔ (∀ entry ∈ search.queue, P entry) ∧ P (w, trail) := by
  rw [reaching, List.forall_mem_append, List.forall_mem_singleton]

/-- Reaching a vertex puts one more into the queue, and leaves one fewer unreached. -/
theorem length_add_unreached_reaching (h : search.reached.get w = false) (trail : List g.EdgeId) :
    (search.reaching w trail).queue.length + (search.reaching w trail).unreached
      = search.queue.length + search.unreached := by
  have hSome : 0 < search.reached.count false :=
    Vector.count_pos_iff.mpr (h ▸ Vector.getElem_mem w.isLt)
  have hEntry : search.reached[w.val] = false := h
  simp only [reaching, unreached, withEntry, List.length_append, List.length_singleton,
    Vector.count_set, hEntry]
  simp
  omega

/-! ## What is known -/

/-- The trail, last edge first, is a route from the source through reached vertices,
and comes through none of them twice. -/
def Trails (search : TrailSearch g) (present : g.EdgeId → Prop) (source v : g.Vertex)
    (trail : List g.EdgeId) : Prop :=
  ∃ vs, Route g present source trail.reverse vs v ∧ vs.Nodup ∧ ∀ x ∈ vs, search.reached.get x = true

/-- What a search knows that has not come to its target. `ahead` tells which edges at
a vertex are still to be looked along, apart from those at vertices in the queue. -/
structure Explores (search : TrailSearch g) (present : g.EdgeId → Prop) (source : g.Vertex)
    (target : Nat) (ahead : g.Vertex → g.EdgeId → Prop) : Prop where
  fromSource : search.reached.get source = true
  notThere : ∀ v : g.Vertex, v.val = target → search.reached.get v = false
  trails : ∀ entry ∈ search.queue, search.Trails present source entry.1 entry.2
  closed : ∀ (v w : g.Vertex) (e : g.EdgeId), search.reached.get v = true → present e →
    g.Leads e v w → search.reached.get w = true ∨ v ∈ search.queue.map Prod.fst ∨ ahead v e

/-- A trail stays one when more vertices are reached. -/
theorem Trails.reaching (h : search.Trails present source v trail) {further : List g.EdgeId} :
    (search.reaching w further).Trails present source v trail := by
  obtain ⟨vs, hRoute, hNodup, hReached⟩ := h
  exact ⟨vs, hRoute, hNodup, fun x hx => reached_reaching.mpr (Or.inr (hReached x hx))⟩

/-- A trail is prolonged to a vertex that was not reached. -/
theorem Trails.route (h : search.Trails present source v trail) (hPresent : present e)
    (hLeads : g.Leads e v w) (hNew : search.reached.get w = false) :
    ∃ vs, Route g present source (e :: trail).reverse (vs ++ [w]) w ∧ (vs ++ [w]).Nodup
      ∧ ∀ x ∈ vs, search.reached.get x = true := by
  obtain ⟨vs, hRoute, hNodup, hReached⟩ := h
  have hFresh : w ∉ vs := by
    intro hw
    simp [hReached w hw] at hNew
  refine ⟨vs, ?_, ?_, hReached⟩
  · rw [List.reverse_cons]
    exact hRoute.snoc hPresent hLeads
  · refine List.nodup_append.mpr ⟨hNodup, by simp, fun x hx y hy hEq => hFresh ?_⟩
    rwa [← List.mem_singleton.mp hy, ← hEq]

namespace Explores

variable {ahead ahead' : g.Vertex → g.EdgeId → Prop}

/-- An edge that leads to a reached vertex is ahead no longer. -/
theorem narrow (h : search.Explores present source target ahead)
    (hNarrow : ∀ v w e, present e → g.Leads e v w → ahead v e →
      search.reached.get w = true ∨ ahead' v e) :
    search.Explores present source target ahead' := by
  refine { h with closed := fun v w e hv hPresent hLeads => ?_ }
  rcases h.closed v w e hv hPresent hLeads with hReached | hWaiting | hAhead
  · exact Or.inl hReached
  · exact Or.inr (Or.inl hWaiting)
  · exact (hNarrow v w e hPresent hLeads hAhead).imp_right Or.inr

/-- A vertex other than the target that is reached for the first time waits in the
queue. -/
theorem reaching (h : search.Explores present source target ahead)
    (hTrail : search.Trails present source v trail) (hPresent : present e)
    (hLeads : g.Leads e v w) (hNew : search.reached.get w = false) (hElsewhere : w.val ≠ target) :
    (search.reaching w (e :: trail)).Explores present source target ahead := by
  constructor
  · exact reached_reaching.mpr (Or.inr h.fromSource)
  · intro x hx
    have hOther : x ≠ w := fun hEq => hElsewhere (hEq ▸ hx)
    rw [← Bool.not_eq_true, reached_reaching]
    simp [hOther, h.notThere x hx]
  · refine forall_queue_reaching.mpr ⟨fun entry hOld => (h.trails entry hOld).reaching, ?_⟩
    obtain ⟨vs, hRoute, hNodup, hReached⟩ := hTrail.route hPresent hLeads hNew
    refine ⟨vs ++ [w], hRoute, hNodup, fun x hx => reached_reaching.mpr ?_⟩
    rcases List.mem_append.mp hx with hx | hx
    · exact Or.inr (hReached x hx)
    · exact Or.inl (List.mem_singleton.mp hx)
  · intro x y d hx hd hy
    have hQueue : (search.reaching w (e :: trail)).queue.map Prod.fst
        = search.queue.map Prod.fst ++ [w] := by
      simp [TrailSearch.reaching]
    rw [hQueue, List.mem_append, List.mem_singleton]
    rcases reached_reaching.mp hx with rfl | hx
    · exact Or.inr (Or.inl (Or.inr rfl))
    · rcases h.closed x y d hx hd hy with hReached | hWaiting | hAhead
      · exact Or.inl (reached_reaching.mpr (Or.inr hReached))
      · exact Or.inr (Or.inl (Or.inl hWaiting))
      · exact Or.inr (Or.inr hAhead)

/-- An edge that leads nowhere new is not ahead any more. -/
theorem lookedAlong {row : List g.EdgeId}
    (h : search.Explores present source target fun x d => x = v ∧ d ∈ e :: row)
    (hLeads : g.Leads e v w) (hReached : present e → search.reached.get w = true) :
    search.Explores present source target fun x d => x = v ∧ d ∈ row := by
  apply h.narrow
  rintro x y d hPresent hxy ⟨rfl, hIn⟩
  rcases List.mem_cons.mp hIn with rfl | hRest
  · obtain rfl : w = y := hLeads.opposite.symm.trans hxy.opposite
    exact Or.inl (hReached hPresent)
  · exact Or.inr ⟨rfl, hRest⟩

/-- A vertex leaves the queue, and the edges at it are ahead. -/
theorem taking {waiting : List (g.Vertex × List g.EdgeId)}
    (h : search.Explores present source target fun _ _ => False)
    (hQueue : search.queue = (v, trail) :: waiting) :
    TrailSearch.Explores { search with queue := waiting } present source target
      (fun x e => x = v ∧ e ∈ g.incident v) := by
  refine ⟨h.fromSource, h.notThere, fun entry hEntry => ?_, fun x y e hx hPresent hLeads => ?_⟩
  · exact h.trails entry (by simp [hQueue, hEntry])
  · have hCases := h.closed x y e hx hPresent hLeads
    rw [hQueue, List.map_cons, List.mem_cons] at hCases
    rcases hCases with hReached | (rfl | hWaiting) | hNever
    · exact Or.inl hReached
    · exact Or.inr (Or.inr ⟨rfl, mem_incident_iff.mpr ⟨y, hLeads⟩⟩)
    · exact Or.inr (Or.inl hWaiting)
    · exact hNever.elim

/-- With an empty queue and nothing ahead, everything that is joined to the source
was reached, and the target was not. -/
theorem not_joined (h : search.Explores present source target fun _ _ => False)
    (hEmpty : search.queue = []) (hw : w.val = target) : ¬ Joined g present source w := by
  have hAll : ∀ x, Joined g present source x → search.reached.get x = true := by
    intro x hJoined
    induction hJoined with
    | here => exact h.fromSource
    | along _ hPresent hLeads ih => simpa [hEmpty] using h.closed _ _ _ ih hPresent hLeads
  intro hJoined
  exact absurd (hAll w hJoined) (by simp [h.notThere w hw])

end Explores

/-- Before its first round a search has reached its source. -/
theorem explores_start (h : source.val ≠ target) :
    (TrailSearch.start source).Explores present source target fun _ _ => False := by
  have hReached : ∀ x, (TrailSearch.start source).reached.get x = true ↔ x = source := by
    intro x
    rw [start, marked_withEntry, get_replicate]
    simp
  constructor
  · exact (hReached source).mpr rfl
  · intro x hx
    rw [← Bool.not_eq_true, hReached]
    exact fun hEq => h (hEq ▸ hx)
  · intro entry hEntry
    obtain rfl : entry = (source, []) := by simpa [start] using hEntry
    exact ⟨[source], .stay source, by simp, fun x hx =>
      (hReached x).mpr (List.mem_singleton.mp hx)⟩
  · intro x y e hx _ _
    exact Or.inr (Or.inl (by simp [(hReached x).mp hx, start]))

theorem length_add_unreached_start (source : g.Vertex) :
    (TrailSearch.start source).queue.length + (TrailSearch.start source).unreached
      = g.vertexCount := by
  have hPositive : 0 < g.vertexCount := source.pos
  simp [start, unreached, withEntry, Vector.count_set]
  omega

end TrailSearch

end LocalRepair.Graph
