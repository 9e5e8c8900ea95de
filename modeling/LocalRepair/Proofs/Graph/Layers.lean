import LocalRepair.Proofs.Graph.Trails
import LocalRepair.Proofs.Graph.Walk

/-!
# The layers of a breadth-first search

The queue of a breadth-first search never spans more than two layers. While vertices
at one depth are looked around from, everything that a walk of this depth or less leads
to was reached, and what waits is at this depth or one deeper, the less deep first. So
a vertex that is reached for the first time is reached as soon as it can be: a shorter
walk would have led there before.

The step to the next layer is the one that needs the whole picture. When the first
vertex of the queue is one deeper than those before, the queue holds nothing of the
old depth any more. A walk of the new depth ends with an edge from a vertex of the old
one. That vertex was reached and does not wait, so it was looked around from, and
what the edge leads to was reached as well.

## Main results

* `Layered.reaching`, `Layered.taking`: the steps.
* `Layered.depth_lt`: no short walk leads to a vertex that was not reached.
-/

namespace LocalRepair.Graph

variable {g : Graph} {present : g.EdgeId → Prop} {source u v w x : g.Vertex} {target : Nat}
  {e : g.EdgeId} {es trail : List g.EdgeId} {depth : Nat}

/-- A route is a walk with its vertices named. -/
theorem Route.walk {vs : List g.Vertex} (h : Route g present u es vs w) :
    Walk g present u es w := by
  induction h with
  | stay u => exact .stay u
  | step isPresent leads _ ih => exact .step isPresent leads ih

/-- The edges make a path without repeated vertices, and no walk between its ends is
shorter. -/
structure ShortestPath (g : Graph) (present : g.EdgeId → Prop) (u : g.Vertex)
    (es : List g.EdgeId) (w : g.Vertex) : Prop where
  simple : SimplePath g present u es w
  shortest : ∀ ds, Walk g present u ds w → es.length ≤ ds.length

namespace TrailSearch

variable {search : TrailSearch g}

/-- A search that looks around from vertices at some depth has reached what walks of
this depth or less lead to, its queue holds this layer before the next one, and it came
to every vertex in the queue as fast as possible. -/
structure Layered (search : TrailSearch g) (present : g.EdgeId → Prop) (source : g.Vertex)
    (depth : Nat) : Prop where
  near : ∀ (x : g.Vertex) (es : List g.EdgeId), Walk g present source es x →
    es.length ≤ depth → search.reached.get x = true
  span : ∀ entry ∈ search.queue, depth ≤ entry.2.length ∧ entry.2.length ≤ depth + 1
  ordered : search.queue.Pairwise fun first second => first.2.length ≤ second.2.length
  shortest : ∀ entry ∈ search.queue, ∀ es, Walk g present source es entry.1 →
    entry.2.length ≤ es.length

namespace Layered

/-- Only walks that are deeper lead to a vertex that was not reached. -/
theorem depth_lt (h : search.Layered present source depth) (hNew : search.reached.get w = false)
    (hWalk : Walk g present source es w) : depth < es.length := by
  by_contra hShort
  have hReached := h.near w es hWalk (Nat.le_of_not_lt hShort)
  simp [hNew] at hReached

/-- A vertex that is reached from the present layer belongs to the next. -/
theorem reaching (h : search.Layered present source trail.length)
    (hNew : search.reached.get w = false) :
    (search.reaching w (e :: trail)).Layered present source trail.length := by
  have hQueue : (search.reaching w (e :: trail)).queue = search.queue ++ [(w, e :: trail)] := rfl
  constructor
  · intro x es hWalk hShort
    exact reached_reaching.mpr (Or.inr (h.near x es hWalk hShort))
  · exact forall_queue_reaching.mpr ⟨h.span, by simp⟩
  · rw [hQueue]
    refine List.pairwise_append.mpr ⟨h.ordered, by simp, fun entry hOld last hLast => ?_⟩
    obtain rfl := List.mem_singleton.mp hLast
    exact (h.span entry hOld).2
  · exact forall_queue_reaching.mpr ⟨h.shortest, fun es hWalk => h.depth_lt hNew hWalk⟩

/-- Once nothing of a layer waits any more, everything in the next one was reached. -/
theorem near_succ (h : search.Layered present source depth)
    (hExplores : search.Explores present source target fun _ _ => False)
    (hDeeper : ∀ entry ∈ search.queue, depth < entry.2.length)
    (hWalk : Walk g present source es x) (hLength : es.length = depth + 1) :
    search.reached.get x = true := by
  obtain ⟨ds, e, y, hBefore, hOne, hPresent, hLeads⟩ := hWalk.exists_last (by
    rintro rfl
    cases hLength)
  have hShort : ds.length = depth := by omega
  have hReached : search.reached.get y = true := h.near y ds hBefore (Nat.le_of_eq hShort)
  rcases hExplores.closed y x e hReached hPresent hLeads with hThere | hWaiting | hNever
  · exact hThere
  · -- `y` cannot wait: it would be deeper than the walk that leads there.
    obtain ⟨entry, hEntry, rfl⟩ := List.mem_map.mp hWaiting
    have hLower := hDeeper entry hEntry
    have hUpper := h.shortest entry hEntry ds hBefore
    omega
  · exact hNever.elim

/-- The first vertex of the queue is at the present depth or starts the next layer. -/
theorem taking {waiting : List (g.Vertex × List g.EdgeId)}
    (h : search.Layered present source depth)
    (hExplores : search.Explores present source target fun _ _ => False)
    (hQueue : search.queue = (v, trail) :: waiting) :
    TrailSearch.Layered { search with queue := waiting } present source trail.length := by
  have hOrdered := hQueue ▸ h.ordered
  rw [List.pairwise_cons] at hOrdered
  have hFirst : (v, trail) ∈ search.queue := by simp [hQueue]
  have hRest : ∀ entry ∈ waiting, entry ∈ search.queue := fun entry hEntry => by
    simp [hQueue, hEntry]
  have hDepth : depth ≤ trail.length ∧ trail.length ≤ depth + 1 := h.span _ hFirst
  constructor
  · intro x es hWalk hShort
    show search.reached.get x = true
    by_cases hOld : es.length ≤ depth
    · exact h.near x es hWalk hOld
    · have hDeeper : ∀ entry ∈ search.queue, depth < entry.2.length := by
        intro entry hEntry
        rw [hQueue] at hEntry
        rcases List.mem_cons.mp hEntry with rfl | hLater
        · show depth < trail.length
          omega
        · have hAfter : trail.length ≤ entry.2.length := hOrdered.1 entry hLater
          omega
      exact h.near_succ hExplores hDeeper hWalk (by omega)
  · intro entry hEntry
    have hAfter : trail.length ≤ entry.2.length := hOrdered.1 entry hEntry
    have hUpper := (h.span entry (hRest entry hEntry)).2
    exact ⟨hAfter, by omega⟩
  · exact hOrdered.2
  · exact fun entry hEntry => h.shortest entry (hRest entry hEntry)

end Layered

/-- Before its first round a search is at depth zero. -/
theorem layered_start (source : g.Vertex) :
    (TrailSearch.start source).Layered present source 0 := by
  constructor
  · intro x es hWalk hShort
    obtain rfl : es = [] := List.length_eq_zero_iff.mp (by omega)
    cases hWalk
    exact marked_withEntry.mpr (Or.inl rfl)
  · simp [start]
  · simp [start]
  · simp [start]

end TrailSearch
end LocalRepair.Graph
