import LocalRepair.Proofs.Connectivity.Effects
import LocalRepair.Proofs.Search.Risk

/-!
# The risk of an added edge is exact

Risks are estimates, and of an edge that is lost a search cannot know better: whether
something replaces it takes a search of its own. For an edge that is added it can know. Two
classes of the forest become one or nothing changes, and the roots of the vertices tell
which classes these are.

So the risk of turning on a proposition that backs an edge can be read back. Under a demand
for pieces it is the change of the penalty, and under the demand for a connected graph it
counts the components that are lost. A pair or two sides are mended by the edges whose risk
is two off zero and by no others.

## Main definitions

* `State.Mends`: a constraint is violated before and not after.

## Main results

* `risk_of_added_edge_is_exact`.
-/

namespace LocalRepair

open Search State

variable {p : Problem} {s s' : State} {id g : Nat} {c : Constraint} {demand : Connectivity Nat}
  {gr : Graph}

/-- The constraint is recorded as violated in the first state and no longer in the second. -/
def State.Mends (s s' : State) (id : Nat) : Prop :=
  id ∈ s.violated.toList ∧ id ∉ s'.violated.toList

/-- Between two right records a constraint is mended if it holds then and did not before. -/
theorem State.Tracks.mends_iff (h : s.Tracks p) (h' : s'.Tracks p)
    (hc : p.constraints[id]? = some c) :
    s.Mends s' id ↔ ¬ c.Holds p.graphs s.assignment ∧ c.Holds p.graphs s'.assignment := by
  unfold State.Mends
  rw [(h.settled id c hc).violated, (h'.settled id c hc).violated, not_not]

/-- Turning on an absent edge mends a constraint on its graph if the edge is what was missing. -/
theorem State.Tracks.mends_iff_completedBy {e : gr.EdgeId} {dem : Connectivity gr.Vertex}
    (h : s.Tracks p) (h' : s'.Tracks p) (hc : p.constraints[id]? = some (.graph g demand))
    (hGraph : p.graphs[g]? = some gr) (hResolve : demand.resolve gr = .ok dem)
    (hFlip : s.assignment.Flipped (gr.edge e).proposition s'.assignment)
    (hAbsent : s.assignment.isTrue (gr.edge e).proposition = false) :
    s.Mends s' id ↔ dem.CompletedBy (fun d => gr.presentIn s.assignment d = true) e := by
  rw [h.mends_iff h' hc, Constraint.holds_graph_iff hGraph hResolve,
    Constraint.holds_graph_iff hGraph hResolve, Connectivity.holds_flipped_of_absent hFlip hAbsent]
  rfl

/-- In a reached state, asking a constraint on a graph for the risk of turning on an absent
edge is answered with a number, and then the edge can be turned on. For a number of pieces
the risk is the change of the constraint's part in the violated ones. For a connected graph
it is, up to the sign, the number of components that are lost, and the constraint is mended
exactly if that is one of two. And for a pair or two sides the constraint is mended exactly
if the risk is minus two. -/
theorem risk_of_added_edge_is_exact (hp : p.Built) (h : Reached p s)
    (hc : p.constraints[id]? = some (.graph g demand)) (hGraph : p.graphs[g]? = some gr)
    (e : gr.EdgeId) (hAbsent : s.assignment.isTrue (gr.edge e).proposition = false) :
    ∃ d s₁ s₂,
      (Constraint.graph g demand).risk id (gr.edge e).proposition true s = .ok (some d) s₁
      ∧ Walk.flip p (gr.edge e).proposition s₁ = .ok () s₂
      ∧ (∀ n, demand = .pieces n → d = s₂.violation id - s.violation id)
      ∧ (demand = .whole → ∃ m n : Nat,
          gr.FallsInto s.assignment m ∧ gr.FallsInto s₂.assignment n ∧ -d = (m : Int) - n
          ∧ (s.Mends s₂ id ↔ d = -1 ∧ m = 2))
      ∧ (∀ source target, demand = .pair source target → (s.Mends s₂ id ↔ d = -2))
      ∧ ∀ left right, demand = .sides left right → (s.Mends s₂ id ↔ d = -2) := by
  have hWellFormed := hp.wellFormed
  have hTracks := h.tracks hWellFormed
  obtain ⟨f, dem, onPath, hSpans, hResolve, hRisk⟩ :=
    Constraint.exists_estimate hWellFormed hTracks hc hGraph e
  obtain ⟨s₁, s₂, hAsked, hFlip, hTracks₂, hFlipped⟩ :=
    (hRisk true).exists_flip hWellFormed hTracks (hWellFormed.named_edge hGraph e)
  have hAfter : ∀ (demand : Connectivity gr.Vertex),
      (demand.Holds gr fun d => gr.presentIn s₂.assignment d = true)
        ↔ demand.Holds gr (Graph.plus (fun d => gr.presentIn s.assignment d = true) e) :=
    fun _ => Connectivity.holds_flipped_of_absent hFlipped hAbsent
  have hMends := hTracks.mends_iff_completedBy hTracks₂ hc hGraph hResolve hFlipped hAbsent
  refine ⟨_, s₁, s₂, hAsked, hFlip, ?_, ?_, ?_, ?_⟩
  · rintro n rfl
    obtain rfl : Connectivity.pieces n = dem := Except.ok.inj hResolve
    have hBefore := hTracks.isPenalty hc
    have hThen := hTracks₂.isPenalty hc
    rw [Constraint.holds_graph_iff hGraph hResolve] at hBefore hThen
    rw [hAfter] at hThen
    exact Connectivity.adding_pieces_eq hSpans hBefore hThen
  · rintro rfl
    obtain rfl : Connectivity.whole = dem := Except.ok.inj hResolve
    obtain ⟨f', hSpans'⟩ := Connectivity.exists_spans gr
      (Graph.plus (fun d => gr.presentIn s.assignment d = true) e)
    refine ⟨f.components, f'.components, (Connectivity.holds_pieces_iff hSpans _).mpr rfl,
      (hAfter _).mpr ((Connectivity.holds_pieces_iff hSpans' _).mpr rfl),
      Connectivity.adding_whole_eq hSpans hSpans', ?_⟩
    rw [hMends]
    exact Connectivity.completedBy_whole_iff hSpans
  · rintro source target rfl
    obtain ⟨u, w, _, _, rfl⟩ := Connectivity.exists_of_resolve_pair hResolve
    rw [hMends]
    exact Connectivity.completedBy_pair_iff hSpans
  · rintro left right rfl
    obtain ⟨us, ws, _, _, rfl⟩ := Connectivity.exists_of_resolve_sides hResolve
    rw [hMends]
    exact Connectivity.completedBy_sides_iff hSpans

/-- All four demands on one graph. -/
def Problem.joining : Problem :=
  Builder.toProblem <| Builder.after [
    .newPropositions "x" 6,
    .addGraph .detour,
    .demand 0 .whole,
    .demand 0 (.pieces 3),
    .demand 0 (.pair 1 0),
    .demand 0 (.sides [0, 3] [2, 1])]

theorem Problem.built_joining : joining.Built :=
  ⟨_, rfl, ⟨trivial, trivial, trivial, trivial, trivial, trivial, trivial⟩, by decide, by decide⟩

/-- With everything false, the first edge has the risk minus two for the pair of its ends, and
turning it on mends the pair. -/
theorem risk_of_added_edge_is_exact_joining :
    ∃ s s₁ s₂, Reached .joining s
      ∧ (Constraint.graph 0 (.pair 1 0)).risk 2 1 true s = .ok (some (-2)) s₁
      ∧ Walk.flip .joining 1 s₁ = .ok () s₂ ∧ s.Mends s₂ 2 := by
  have hNew : Visited .joining (.new .joining (.seeded 0)) := .new _
  obtain ⟨_, s, hRun, _, hSame⟩ :=
    (Problem.ends_evaluateAll Problem.built_joining.wellFormed hNew.shaped).exists_ok
  have hReached : Reached .joining s := .evaluated hNew hRun
  have hPair : Problem.joining.constraints[2]? = some (.graph 0 (.pair 1 0)) := rfl
  have hGraph : Problem.joining.graphs[0]? = some .detour := rfl
  have hAbsent : s.assignment.isTrue 1 = false := by
    rw [hSame]
    rfl
  obtain ⟨d, s₁, s₂, hRisk, hFlip, _, _, hDecisive, _⟩ :=
    risk_of_added_edge_is_exact Problem.built_joining hReached hPair hGraph (0 : Fin 6) hAbsent
  have hAsked : (Constraint.graph 0 (.pair 1 0)).risk 2 1 true s = .ok (some d) s₁ := hRisk
  have hSeen : ((Problem.joining.evaluateAll >>= fun _ =>
      (Constraint.graph 0 (.pair 1 0)).risk 2 1 true).run' (.new .joining (.seeded 0)))
        = some (some (-2)) := by decide +kernel
  unfold EStateM.run' EStateM.run at hSeen
  rw [bind_of_ok hRun, hAsked] at hSeen
  obtain rfl : d = -2 := Option.some.inj (Option.some.inj hSeen)
  exact ⟨s, s₁, s₂, hReached, hAsked, hFlip, (hDecisive 1 0 rfl).mpr rfl⟩

end LocalRepair
