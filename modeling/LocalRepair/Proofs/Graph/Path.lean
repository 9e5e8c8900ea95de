import LocalRepair.Proofs.Graph.Backtrack
import LocalRepair.Proofs.Graph.Layers

/-!
# Looking for a path finds a shortest one if there is one

The search for a shortest path asks edge by edge whether an edge is present, and
an edge that the assignment does not cover is a fault. On a graph that is covered
as a whole there is none, whatever the search comes across.

The search that carries its trails ends with a path or with all that can be reached,
because it knows what it explored and in which layers. The search that notes one edge
at each vertex goes along with it, round by round.

A search whose rounds have run out answers as one that has found nothing. `Explored` is
the loop without a bound on its rounds, in which only an empty queue is answered that way.
It ends, since every vertex is taken from the queue at most once. So rounds never run out
if there are as many as vertices, and more change nothing.

## Main definitions

* `Explored`: the loop of the search, with the number of vertices that it takes.

## Main results

* `TrailSearch.lookAround_explores`: one round of the search.
* `TrailSearch.exists_explored`: the loop ends with a shortest path, or with all that can
  be reached.
* `path_found_is_shortest`: what the answer for two vertices says.
-/

namespace LocalRepair.Graph

variable {g : Graph} {asks : g.EdgeId → Except Fault Bool} {has : g.EdgeId → Bool}
  {source v w : g.Vertex} {target : Nat} {trail : List g.EdgeId}

namespace TrailSearch

/-- Looking along edges at a vertex finds a shortest path to the target, or ends with
all of them looked along and the search still in the same layer. -/
theorem lookAround_explores (hAsks : ∀ e, asks e = .ok (has e)) :
    ∀ (row : List g.EdgeId) (search : TrailSearch g), (∀ e ∈ row, ∃ w, g.Leads e v w) →
      search.Trails (fun e => has e = true) source v trail →
      search.Explores (fun e => has e = true) source target (fun x e => x = v ∧ e ∈ row) →
      search.Layered (fun e => has e = true) source trail.length →
      (∃ (path : List g.EdgeId) (w : g.Vertex),
        lookAround asks target v trail row search = .ok (.inl path) ∧ w.val = target
          ∧ ShortestPath g (fun e => has e = true) source path w)
        ∨ ∃ after : TrailSearch g, lookAround asks target v trail row search = .ok (.inr after)
          ∧ after.Explores (fun e => has e = true) source target (fun _ _ => False)
          ∧ after.Layered (fun e => has e = true) source trail.length
          ∧ after.queue.length + after.unreached = search.queue.length + search.unreached := by
  intro row
  induction row with
  | nil =>
      intro search _ _ hExplores hLayered
      exact Or.inr ⟨search, rfl, hExplores.narrow (by simp), hLayered, rfl⟩
  | cons e row ih =>
      intro search hRow hTrail hExplores hLayered
      obtain ⟨w, hLeads⟩ := hRow e (by simp)
      have hRest : ∀ d ∈ row, ∃ w, g.Leads d v w := fun d hd => hRow d (List.mem_cons_of_mem _ hd)
      rw [lookAround, hAsks]
      cases hHas : has e with
      | false =>
          exact ih search hRest hTrail (hExplores.lookedAlong hLeads (by simp [hHas])) hLayered
      | true =>
          simp only [bind, Except.bind, if_true, hLeads.opposite]
          by_cases hReached : search.reached.get w = true
          · rw [if_pos hReached]
            exact ih search hRest hTrail (hExplores.lookedAlong hLeads fun _ => hReached) hLayered
          · have hNew : search.reached.get w = false := by simpa using hReached
            rw [if_neg hReached]
            by_cases hTarget : w.val = target
            · obtain ⟨vs, hRoute, hNodup, _⟩ := hTrail.route hHas hLeads hNew
              have hShortest : ∀ ds, Walk g (fun e => has e = true) source ds w →
                  (e :: trail).reverse.length ≤ ds.length := by
                intro ds hWalk
                rw [List.length_reverse, List.length_cons]
                exact hLayered.depth_lt hNew hWalk
              rw [if_pos hTarget]
              exact Or.inl ⟨_, w, rfl, hTarget, ⟨_, hRoute, hNodup⟩, hShortest⟩
            · rw [if_neg hTarget, ← length_add_unreached_reaching hNew (e :: trail)]
              have hFurther := hExplores.reaching hTrail hHas hLeads hNew hTarget
              have hReachedNow : (search.reaching w (e :: trail)).reached.get w = true :=
                reached_reaching.mpr (Or.inl rfl)
              exact ih (search.reaching w (e :: trail)) hRest hTrail.reaching
                (hFurther.lookedAlong hLeads fun _ => hReachedNow) (hLayered.reaching hNew)

end TrailSearch

/-! ## The loop ends -/

/-- The loop of the search as it is, without a bound on its rounds: it takes so many vertices
from the queue and comes to an answer. Only when the queue is empty does it answer that there
is no path. -/
inductive Explored (asks : g.EdgeId → Except Fault Bool) (target steps : Nat) :
    Frontier g → Nat → Except Fault (Option (List g.EdgeId)) → Prop where
  | emptied {search : Frontier g} (nothingWaits : search.queue = []) :
      Explored asks target steps search 0 (.ok none)
  | failed {search : Frontier g} {v : g.Vertex} {waiting : List g.Vertex} {fault : Fault}
      (first : search.queue = v :: waiting)
      (round : g.lookAround asks target steps v (g.incident v) { search with queue := waiting }
        = .error fault) : Explored asks target steps search 1 (.error fault)
  | arrived {search : Frontier g} {v : g.Vertex} {waiting : List g.Vertex} {path : List g.EdgeId}
      (first : search.queue = v :: waiting)
      (round : g.lookAround asks target steps v (g.incident v) { search with queue := waiting }
        = .ok (.inl path)) : Explored asks target steps search 1 (.ok (some path))
  | goesOn {search after : Frontier g} {v : g.Vertex} {waiting : List g.Vertex} {taken : Nat}
      {answer : Except Fault (Option (List g.EdgeId))} (first : search.queue = v :: waiting)
      (round : g.lookAround asks target steps v (g.incident v) { search with queue := waiting }
        = .ok (.inr after)) (rest : Explored asks target steps after taken answer) :
      Explored asks target steps search (taken + 1) answer

/-- With rounds for all vertices that the loop takes, the search has the answer of the loop. -/
theorem Explored.explore_eq {steps taken rounds : Nat} {search : Frontier g}
    {answer : Except Fault (Option (List g.EdgeId))}
    (h : Explored asks target steps search taken answer) (hRounds : taken ≤ rounds) :
    g.explore asks target steps rounds search = answer := by
  induction h generalizing rounds with
  | emptied nothingWaits =>
      cases rounds with
      | zero => rfl
      | succ rounds => simp only [explore, nothingWaits]
  | failed first round =>
      obtain ⟨spare, rfl⟩ := Nat.exists_eq_add_of_lt hRounds
      simp only [explore, first, round, bind, Except.bind]
  | arrived first round =>
      obtain ⟨spare, rfl⟩ := Nat.exists_eq_add_of_lt hRounds
      simp only [explore, first, round, bind, Except.bind, pure, Except.pure]
  | goesOn first round _ ih =>
      obtain ⟨spare, rfl⟩ := Nat.exists_eq_add_of_lt hRounds
      simp only [explore, first, round, bind, Except.bind]
      exact ih (Nat.le_add_right _ spare)

/-- What there is to answer: a shortest path from the source to the target, or none if present
edges do not join them. -/
def PathAnswer (g : Graph) (present : g.EdgeId → Prop) (source : g.Vertex) (target : Nat) :
    Option (List g.EdgeId) → Prop
  | some path => ∃ w : g.Vertex, w.val = target ∧ ShortestPath g present source path w
  | none => ∀ w : g.Vertex, w.val = target → ¬ Joined g present source w

/-- Where the queue is empty, all that can be reached was reached, and the loop is over. -/
theorem TrailSearch.explored_of_empty {carrying : TrailSearch g}
    (h : carrying.Explores (fun e => has e = true) source target (fun _ _ => False))
    (hEmpty : carrying.queue = []) :
    PathAnswer g (fun e => has e = true) source target none
      ∧ ∀ (steps : Nat) (search : Frontier g), search.Follows carrying →
        Explored asks target steps search 0 (.ok none) := by
  refine ⟨fun w => h.not_joined hEmpty, fun steps search hFollows => .emptied ?_⟩
  rw [hFollows.queue, hEmpty, List.map_nil]

/-- A search that follows one that carries its trails comes to the right answer. It takes no
more vertices than wait in the queue or are unreached. -/
theorem TrailSearch.exists_explored (hAsks : ∀ e, asks e = .ok (has e)) :
    ∀ (bound depth : Nat) (carrying : TrailSearch g),
      carrying.Explores (fun e => has e = true) source target (fun _ _ => False) →
      carrying.Layered (fun e => has e = true) source depth →
      carrying.queue.length + carrying.unreached ≤ bound →
      ∃ taken found, taken ≤ bound ∧ PathAnswer g (fun e => has e = true) source target found
        ∧ ∀ (steps : Nat) (search : Frontier g), g.vertexCount ≤ steps →
          search.Follows carrying → Explored asks target steps search taken (.ok found) := by
  intro bound
  induction bound with
  | zero =>
      intro depth carrying hExplores _ hBound
      have hEmpty : carrying.queue = [] := List.length_eq_zero_iff.mp (by omega)
      obtain ⟨hNone, hOver⟩ := explored_of_empty hExplores hEmpty
      exact ⟨0, none, Nat.le_refl 0, hNone, fun steps search _ => hOver steps search⟩
  | succ bound ih =>
      intro depth carrying hExplores hLayered hBound
      cases hQueue : carrying.queue with
      | nil =>
          obtain ⟨hNone, hOver⟩ := explored_of_empty hExplores hQueue
          exact ⟨0, none, Nat.zero_le _, hNone, fun steps search _ => hOver steps search⟩
      | cons entry waiting =>
          obtain ⟨v, trail⟩ := entry
          have hFirst : ∀ {search : Frontier g}, search.Follows carrying →
              search.queue = v :: waiting.map Prod.fst := by
            intro search hFollows
            rw [hFollows.queue, hQueue, List.map_cons]
          have hTrail : carrying.Trails (fun e => has e = true) source v trail :=
            hExplores.trails (v, trail) (by simp [hQueue])
          rcases lookAround_explores hAsks (g.incident v) { carrying with queue := waiting }
            (fun e => mem_incident_iff.mp) hTrail (hExplores.taking hQueue)
            (hLayered.taking hExplores hQueue) with
            ⟨path, w, hFound, hw, hPath⟩ | ⟨after, hOn, hAfter, hLayers, hLength⟩
          · refine ⟨1, some path, by omega, ⟨w, hw, hPath⟩, fun steps search hSteps hFollows => ?_⟩
            exact .arrived (hFirst hFollows) (hFound ▸ hFollows.round hQueue hSteps).of_found
          · have hFewer : after.queue.length + after.unreached ≤ bound := by
              rw [hQueue, List.length_cons] at hBound
              simp only [unreached] at hLength hBound ⊢
              omega
            obtain ⟨taken, found, hTaken, hAnswer, hRest⟩ :=
              ih trail.length after hAfter hLayers hFewer
            refine ⟨taken + 1, found, by omega, hAnswer, fun steps search hSteps hFollows => ?_⟩
            obtain ⟨search', hRound, hFollows'⟩ :=
              (hOn ▸ hFollows.round hQueue hSteps).of_goesOn
            exact .goesOn (hFirst hFollows) hRound (hRest steps search' hSteps hFollows')

/-! ## The answer -/

/-- On a covered graph the loop that looks for a path to another vertex takes each vertex from
the queue at most once, and comes to the right answer. -/
theorem exists_explored_start {a : Assignment} (hCovered : g.coveredBy a = true) {u : g.Vertex}
    (hOther : u.val ≠ target) :
    ∃ taken found, taken ≤ g.vertexCount
      ∧ PathAnswer g (fun e => g.presentIn a e = true) u target found
      ∧ ∀ steps, g.vertexCount ≤ steps →
        Explored (g.isPresent a) target steps (.start u) taken (.ok found) := by
  obtain ⟨taken, found, hTaken, hAnswer, hExplored⟩ :=
    TrailSearch.exists_explored (isPresent_eq hCovered) g.vertexCount 0 _
      (TrailSearch.explores_start hOther) (TrailSearch.layered_start u)
      (Nat.le_of_eq (TrailSearch.length_add_unreached_start u))
  exact ⟨taken, found, hTaken, hAnswer,
    fun steps hSteps => hExplored steps _ hSteps (Frontier.follows_start u)⟩

/-- On a covered graph, looking for a path between two vertices comes to the right answer, with
at least as many rounds and steps as there are vertices. -/
theorem exists_pathWithin {a : Assignment} (hCovered : g.coveredBy a = true) (u w : g.Vertex) :
    ∃ found, PathAnswer g (fun e => g.presentIn a e = true) u w found
      ∧ (u ≠ w → ∃ taken ≤ g.vertexCount, ∀ steps, g.vertexCount ≤ steps →
        Explored (g.isPresent a) w steps (.start u) taken (.ok found))
      ∧ ∀ rounds steps, g.vertexCount ≤ rounds → g.vertexCount ≤ steps →
        g.pathWithin a rounds steps u w = .ok found := by
  by_cases hSame : u = w
  · subst hSame
    refine ⟨some [], ⟨u, rfl, ⟨[u], .stay u, by simp⟩, by simp⟩, fun hOther => absurd rfl hOther,
      fun rounds steps _ _ => if_pos rfl⟩
  · have hOther : u.val ≠ w.val := Fin.val_ne_of_ne hSame
    obtain ⟨taken, found, hTaken, hAnswer, hExplored⟩ := exists_explored_start hCovered hOther
    refine ⟨found, hAnswer, fun _ => ⟨taken, hTaken, hExplored⟩, ?_⟩
    intro rounds steps hRounds hSteps
    rw [pathWithin, if_neg hOther, vertex_val]
    exact (hExplored steps hSteps).explore_eq (Nat.le_trans hTaken hRounds)

/-- On a covered graph, looking for a path between two vertices finds one without
repeated vertices, unless present edges do not join them. -/
theorem shortestPath_finds {a : Assignment} (hCovered : g.coveredBy a = true) {start goal : Nat}
    {u : g.Vertex} (hStart : g.vertex start = .ok u) (hGoal : g.vertex goal = .ok w) :
    (∃ path, g.shortestPath a start goal = .ok (some path)
        ∧ SimplePath g (fun e => g.presentIn a e = true) u path w)
      ∨ g.shortestPath a start goal = .ok none
        ∧ ¬ Joined g (fun e => g.presentIn a e = true) u w := by
  obtain rfl : u.val = start := val_of_vertex hStart
  obtain rfl : w.val = goal := val_of_vertex hGoal
  obtain ⟨found, hAnswer, _, hFound⟩ := exists_pathWithin hCovered u w
  have hShortest := hFound _ _ (Nat.le_refl g.vertexCount) (Nat.le_refl g.vertexCount)
  cases found with
  | some path =>
      obtain ⟨x, hx, hPath⟩ := hAnswer
      obtain rfl : x = w := Fin.ext hx
      exact Or.inl ⟨path, hShortest, hPath.simple⟩
  | none => exact Or.inr ⟨hShortest, hAnswer w rfl⟩

/-- On a covered graph the search ends by itself: between different vertices its loop takes no
more vertices from the queue than there are, and without a bound on its rounds it comes to the
same answer as with one. Steps for the way back beyond the number of vertices change nothing.
The answer is none exactly if no walk of present edges leads from the one vertex to the other.
Otherwise it is made of present edges that lead from the one to the other and come through no
vertex twice, and no walk of present edges between the two is shorter. -/
theorem path_found_is_shortest {a : Assignment} (hCovered : g.coveredBy a = true)
    (u w : g.Vertex) :
    ∃ found : Option (List g.EdgeId),
      (u ≠ w → ∃ taken ≤ g.vertexCount, ∀ steps, g.vertexCount ≤ steps →
        Explored (g.isPresent a) w steps (.start u) taken (.ok found))
      ∧ (∀ rounds steps, g.vertexCount ≤ rounds → g.vertexCount ≤ steps →
        g.pathWithin a rounds steps u w = .ok found)
      ∧ g.shortestPath a u w = .ok found
      ∧ (found = none ↔ ¬ ∃ es, Walk g (fun e => g.presentIn a e = true) u es w)
      ∧ ∀ es, found = some es →
        (∀ e ∈ es, g.presentIn a e = true)
        ∧ (∃ vs, Route g (fun e => g.presentIn a e = true) u es vs w ∧ vs.Nodup)
        ∧ ∀ ds, Walk g (fun e => g.presentIn a e = true) u ds w → es.length ≤ ds.length := by
  obtain ⟨found, hAnswer, hEnds, hFound⟩ := exists_pathWithin hCovered u w
  refine ⟨found, hEnds, hFound, hFound _ _ (Nat.le_refl _) (Nat.le_refl _), ?_⟩
  cases found with
  | some path =>
      obtain ⟨x, hx, hPath⟩ := hAnswer
      obtain rfl : x = w := Fin.ext hx
      obtain ⟨vs, hRoute, hNodup⟩ := hPath.simple
      have hWalks : ∃ es, Walk g (fun e => g.presentIn a e = true) u es x := ⟨path, hRoute.walk⟩
      refine ⟨by simp [hWalks], fun es hSame => ?_⟩
      obtain rfl := Option.some.inj hSame
      exact ⟨fun e he => hRoute.present_of_mem he, ⟨vs, hRoute, hNodup⟩, hPath.shortest⟩
  | none =>
      have hNoWalk : ¬ ∃ es, Walk g (fun e => g.presentIn a e = true) u es w := by
        rw [← joined_iff_exists_walk]
        exact hAnswer w rfl
      exact ⟨by simp [hNoWalk], by simp⟩

/-- A short way and a long way from the first vertex to the last, with a loop and two edges
between the same vertices on the long way. -/
def detour : Graph :=
  ⟨4, #[⟨0, 1, 1⟩, ⟨1, 1, 2⟩, ⟨1, 2, 3⟩, ⟨2, 1, 4⟩, ⟨2, 3, 5⟩, ⟨0, 3, 6⟩], by decide⟩

/-- Without the short way three edges are needed, and the first of the two edges between
the same vertices is taken. Without both of these no path is left. -/
theorem path_found_is_shortest_detour :
    ∃ a b : Assignment,
      (detour.coveredBy a = true
        ∧ detour.shortestPath a 0 3 = .ok (some [(0 : Fin 6), (2 : Fin 6), (4 : Fin 6)])
        ∧ ∀ ds, Walk detour (fun e => detour.presentIn a e = true) (0 : Fin 4) ds (3 : Fin 4) →
          3 ≤ ds.length)
      ∧ detour.coveredBy b = true
        ∧ detour.shortestPath b 0 3 = .ok none
        ∧ ¬ ∃ ds,
          Walk detour (fun e => detour.presentIn b e = true) (0 : Fin 4) ds (3 : Fin 4) := by
  let a : Assignment := ⟨#[false, true, true, true, true, true, false]⟩
  let b : Assignment := ⟨#[false, true, true, false, false, true, false]⟩
  have hLong : detour.shortestPath a 0 3
      = .ok (some [(0 : Fin 6), (2 : Fin 6), (4 : Fin 6)]) := by rfl
  have hNone : detour.shortestPath b 0 3 = .ok none := by rfl
  have hCovered : detour.coveredBy a = true ∧ detour.coveredBy b = true := by decide
  refine ⟨a, b, ⟨hCovered.1, hLong, ?_⟩, hCovered.2, hNone, ?_⟩
  · obtain ⟨found, _, _, hFound, _, hBest⟩ :=
      path_found_is_shortest hCovered.1 (0 : Fin 4) (3 : Fin 4)
    obtain rfl := Except.ok.inj (hLong.symm.trans hFound)
    exact (hBest _ rfl).2.2
  · obtain ⟨found, _, _, hFound, hExact, _⟩ :=
      path_found_is_shortest hCovered.2 (0 : Fin 4) (3 : Fin 4)
    obtain rfl := Except.ok.inj (hNone.symm.trans hFound)
    exact hExact.mp rfl

end LocalRepair.Graph
