import LocalRepair.Proofs.Forest.Spanning
import LocalRepair.Proofs.Graph.Edges
import LocalRepair.Proofs.Outcome

/-!
# A forest in use

An assignment and a forest go along together. Propositions of edges are turned
over, and each time the forest is told at once, perhaps more than once; in
between it is asked, declared stale, brought up to date or rebuilt, in any order.

Whatever happened, the forest mirrors the assignment: it is stale, or it is
right. So when it is brought up to date, it answers with the connection by
present edges, and no rebuild is needed if it counts as built.

## Main results

* `Event.after_mirrors`: one event.
* `run_mirrors`: any course of events.
* `run_bringUpToDate`: what an up-to-date forest knows after any course.
-/

namespace LocalRepair.Forest

open LocalRepair.Graph (Acyclic Representatives)

variable {g : Graph}

/-- What can happen to a forest that goes along with an assignment. -/
inductive Event (g : Graph) where
  /-- The proposition of an edge is turned over, and the forest is told. -/
  | turn (e : g.EdgeId)
  /-- The forest is told once more what an edge is now. -/
  | tell (e : g.EdgeId)
  /-- The forest is asked for the root of a vertex. -/
  | find (v : g.Vertex)
  /-- The forest is asked whether two vertices are in one class. -/
  | joined (u v : g.Vertex)
  /-- The forest is asked whether an edge would join two classes. -/
  | bridges (u v : g.Vertex) (e : g.EdgeId)
  | invalidate
  | bringUpToDate
  | rebuild

namespace Event

/-- The assignment and the forest after an event. -/
def after : Event g → Assignment × Forest g → Except Fault (Assignment × Forest g)
  | turn e, (a, f) => do
    let (value, a) ← a.flip (g.edge e).proposition
    return (a, f.note e value)
  | tell e, (a, f) => do return (a, f.note e (← g.isPresent a e))
  | find v, (a, f) => return (a, (Forest.find v f).2)
  | joined u v, (a, f) => return (a, (Forest.joined u v f).2)
  | bridges u v e, (a, f) =>
    -- The answer needs no compression, so the forest stays as it is.
    let _answer := f.bridges u v e
    return (a, f)
  | invalidate, (a, f) => return (a, f.invalidate)
  | bringUpToDate, (a, f) => do return (a, ← f.bringUpToDate a)
  | rebuild, (a, f) => do return (a, ← f.rebuild a)

/-- After any event the assignment still covers the graph, and the forest is
stale or right. -/
theorem after_mirrors (event : Event g) {a : Assignment} {f : Forest g}
    (hCovered : g.coveredBy a = true) (hMirrors : f.Mirrors a) :
    ∃ a' f', event.after (a, f) = .ok (a', f') ∧ g.coveredBy a' = true ∧ f'.Mirrors a' := by
  cases event with
  | turn e =>
      obtain ⟨a', hFlip, hFlipped⟩ := Assignment.flip_eq (Graph.coveredBy_iff.mp hCovered e)
      refine ⟨a', f.note e (!g.presentIn a e), ?_, Graph.coveredBy_flipped hCovered hFlipped, ?_⟩
      · rw [after, hFlip]
        rfl
      · refine Mirrors.note hMirrors ?_ (Graph.presentIn_flipped_self hFlipped)
        intro d hd
        rw [Graph.presentIn_flipped_other hFlipped fun hEq => hd (Graph.proposition_injective hEq)]
  | tell e =>
      refine ⟨a, f.note e (g.presentIn a e), ?_, hCovered, ?_⟩
      · rw [after, Graph.isPresent_eq hCovered]
        rfl
      · exact Mirrors.note hMirrors (fun _ _ => Iff.rfl) rfl
  | find v =>
      refine ⟨a, (Forest.find v f).2, rfl, hCovered, fun hBuilt => ?_⟩
      have hSpans := hMirrors hBuilt
      exact hSpans.redirected (find_redirected hSpans.ranked v)
  | joined u v =>
      refine ⟨a, (Forest.joined u v f).2, rfl, hCovered, fun hBuilt => ?_⟩
      have hSpans := hMirrors hBuilt
      exact hSpans.redirected (asks_joined u v f (.refl hSpans.ranked)).2
  | bridges u v e => exact ⟨a, f, rfl, hCovered, hMirrors⟩
  | invalidate => exact ⟨a, f.invalidate, rfl, hCovered, mirrors_of_stale rfl⟩
  | bringUpToDate =>
      obtain ⟨f', hStep, _, hSpans, _⟩ := hMirrors.bringUpToDate hCovered
      refine ⟨a, f', ?_, hCovered, fun _ => hSpans⟩
      rw [after, hStep]
      rfl
  | rebuild =>
      refine ⟨a, f.buildFrom (g.presentIn a), ?_, hCovered, fun _ => buildFrom_spans _ f⟩
      rw [after, Forest.rebuild, if_pos hCovered]
      rfl

end Event

/-- The assignment and the forest after a course of events. -/
def run (events : List (Event g)) (start : Assignment × Forest g) :
    Except Fault (Assignment × Forest g) :=
  events.foldlM (fun now event => event.after now) start

/-- No course of events fails, and at its end the forest is stale or right. -/
theorem run_mirrors :
    ∀ (events : List (Event g)) {a : Assignment} {f : Forest g}, g.coveredBy a = true →
      f.Mirrors a →
      ∃ a' f', run events (a, f) = .ok (a', f') ∧ g.coveredBy a' = true ∧ f'.Mirrors a' := by
  intro events a f hCovered hMirrors
  have hStep : ∀ (now : Assignment × Forest g) (event : Event g),
      (g.coveredBy now.1 = true ∧ now.2.Mirrors now.1) → True →
      ∃ now', event.after now = .ok now' ∧ g.coveredBy now'.1 = true ∧ now'.2.Mirrors now'.1 := by
    rintro ⟨a, f⟩ event ⟨hCovered, hMirrors⟩ _
    obtain ⟨a', f', hAfter, hEnd⟩ := event.after_mirrors hCovered hMirrors
    exact ⟨(a', f'), hAfter, hEnd⟩
  obtain ⟨⟨a', f'⟩, hRun, hEnd⟩ :=
    foldlM_keeps hStep events (a, f) ⟨hCovered, hMirrors⟩ fun _ _ => trivial
  exact ⟨a', f', hRun, hEnd⟩

/-- What a forest tells about the edges that an assignment makes present: which
vertices they join and how many pieces there are. Its own edges are present,
contain no cycle and join the same vertices, and their number and that of the
pieces add up to the number of vertices. -/
structure Tells (f : Forest g) (a : Assignment) : Prop where
  joined : ∀ u v, (Forest.joined u v f).1 = true ↔ g.Joined (fun e => g.presentIn a e = true) u v
  pieces : ∀ row, Representatives g (fun e => g.presentIn a e = true) row →
    row.length = f.components
  exists_row : ∃ row, Representatives g (fun e => g.presentIn a e = true) row
  present : ∀ e ∈ f.joiningEdges, g.presentIn a e = true
  acyclic : Acyclic g (· ∈ f.joiningEdges)
  joined_by_edges : ∀ u v, g.Joined (· ∈ f.joiningEdges) u v
    ↔ g.Joined (fun e => g.presentIn a e = true) u v
  size : f.size = f.joiningEdges.length
  total : f.size + f.components = g.vertexCount

/-- A forest that is right tells what it is asked for. -/
theorem Spans.tells {f : Forest g} {a : Assignment}
    (h : f.Spans fun e => g.presentIn a e = true) : f.Tells a := by
  have hEdges : (· ∈ f.joiningEdges) = fun e => f.contains e = true := by
    funext e
    exact propext mem_joiningEdges
  have hJoined : ∀ u v, (Forest.joined u v f).1 = true
      ↔ g.Joined (fun e => g.presentIn a e = true) u v := by
    intro u v
    rw [(asks_joined u v f (.refl h.ranked)).1, beq_iff_eq, h.root_eq_iff]
  exact
    { joined := hJoined
      pieces := fun row hRow => h.length_of_representatives hRow
      exists_row := ⟨f.roots, h.representatives⟩
      present := fun e he => h.present_of_contains e (mem_joiningEdges.mp he)
      acyclic := by rw [hEdges]; exact h.bridges.acyclic
      joined_by_edges := by rw [hEdges]; exact h.joined_contains_iff
      size := h.size
      total := h.total }

/-- After any course of events from a new forest, bringing the forest up to date
makes it tell exactly what the present edges join. A forest that counts as built
tells it without a rebuild. -/
theorem run_bringUpToDate (events : List (Event g)) (a : Assignment)
    (hCovered : g.coveredBy a = true) :
    ∃ a' f' f'', run events (a, singletons g) = .ok (a', f')
      ∧ f'.bringUpToDate a' = .ok f''
      ∧ (f'.built = true → f'' = f')
      ∧ f''.Tells a' := by
  have hStale : (singletons g).Mirrors a := mirrors_of_stale rfl
  obtain ⟨a', f', hRun, hCovered', hMirrors⟩ := run_mirrors events hCovered hStale
  obtain ⟨f'', hUpdate, _, hSpans, hKeep⟩ := hMirrors.bringUpToDate hCovered'
  exact ⟨a', f', f'', hRun, hUpdate, hKeep, hSpans.tells⟩

/-- A triangle with a loop and a double edge. -/
def triangle : Graph :=
  ⟨3, #[⟨0, 1, 1⟩, ⟨1, 2, 2⟩, ⟨2, 0, 3⟩, ⟨1, 1, 4⟩, ⟨1, 0, 5⟩], by decide⟩

/-- Three edges of the triangle appear, and the first of them disappears again;
some of this is told twice. -/
theorem run_bringUpToDate_triangle :
    triangle.coveredBy (.allFalse 5) = true
      ∧ ∃ a' f' f'', run [.turn ⟨0, by decide⟩, .tell ⟨0, by decide⟩, .turn ⟨1, by decide⟩,
          .bringUpToDate, .turn ⟨2, by decide⟩, .find ⟨2, by decide⟩, .turn ⟨0, by decide⟩,
          .tell ⟨0, by decide⟩] (.allFalse 5, singletons triangle) = .ok (a', f')
        ∧ f'.bringUpToDate a' = .ok f'' ∧ f''.Tells a' := by
  have hCovered : triangle.coveredBy (.allFalse 5) = true := by decide
  obtain ⟨a', f', f'', hRun, hUpdate, _, hTells⟩ := run_bringUpToDate _ (.allFalse 5) hCovered
  exact ⟨hCovered, a', f', f'', hRun, hUpdate, hTells⟩

end LocalRepair.Forest
