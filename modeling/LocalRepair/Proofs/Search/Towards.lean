import LocalRepair.Proofs.Connectivity.Effects
import LocalRepair.Proofs.Search.Answers

/-!
# Steps towards a number of pieces

A constraint favours a flip if the flip's risk is negative. For a number of pieces the risk
is a difference of penalties, and the penalty is one for every number but the wanted one.
So the constraint favours a flip that arrives at the wanted number, and no other: where two
steps or more are missing, flips that come nearer have the risk zero, as flips without any
effect have. A greedy search then has nothing to go by.

This is so in both directions, too many pieces and too few. Both times what is estimated is
what happens, since an edge that disappears and brings the number of pieces nearer does leave
one piece more.

## Main results

* `favours_nearer_iff`: of the flips that come nearer those are favoured that arrive.
* `nearer_is_not_favoured`: a flip that comes nearer and is not favoured.
-/

namespace LocalRepair

open Search State

variable {p : Problem} {s : State} {id g n : Nat} {gr : Graph} {a a' : Assignment}
  {f : Forest gr} {e : gr.EdgeId} {before after : Nat}

/-- The estimate for turning over the proposition of an edge, where that brings the number of
pieces nearer, is negative only if the number is then the wanted one. -/
theorem Connectivity.estimate_pieces_neg_iff (h : f.Spans fun d => gr.presentIn a d = true)
    (hFlip : a.Flipped (gr.edge e).proposition a') (onPath : Bool)
    (hBefore : gr.FallsInto a before) (hAfter : gr.FallsInto a' after)
    (hNearer : Nearer n before after) :
    estimate f e (!a.isTrue (gr.edge e).proposition) onPath (pieces n) < 0 ↔ after = n := by
  obtain rfl := (holds_pieces_iff h before).mp hBefore
  unfold Graph.FallsInto at hAfter
  cases hValue : a.isTrue (gr.edge e).proposition with
  | false =>
      rw [holds_flipped_of_absent hFlip hValue] at hAfter
      obtain ⟨f', h'⟩ := exists_spans gr (Graph.plus (fun d => gr.presentIn a d = true) e)
      obtain rfl := (holds_pieces_iff h' after).mp hAfter
      exact adding_pieces_neg_iff h h' hNearer
  | true =>
      rw [holds_flipped_of_present hFlip hValue] at hAfter
      obtain ⟨f', h'⟩ := exists_spans gr (Graph.minus (fun d => gr.presentIn a d = true) e)
      obtain rfl := (holds_pieces_iff h' after).mp hAfter
      exact removing_pieces_neg_iff h h' hValue onPath hNearer

/-- In a reached state, a constraint on the number of pieces can be asked whether it favours
turning over the proposition of an edge, and then the proposition can be turned over. If this
brings the number of pieces nearer to the wanted one, so that the constraint was violated, it
was favoured exactly if the number is then the wanted one. -/
theorem favours_nearer_iff (hp : p.Built) (h : Reached p s)
    (hc : p.constraints[id]? = some (.graph g (.pieces n))) (hGraph : p.graphs[g]? = some gr)
    (e : gr.EdgeId) :
    ∃ b s₁ s₂, (Constraint.graph g (.pieces n)).favours id (gr.edge e).proposition s = .ok b s₁
      ∧ Walk.flip p (gr.edge e).proposition s₁ = .ok () s₂
      ∧ ∀ before after, gr.FallsInto s.assignment before → gr.FallsInto s₂.assignment after →
        Connectivity.Nearer n before after → id ∈ s.violated.toList ∧ (b = true ↔ after = n) := by
  have hWellFormed := hp.wellFormed
  have hTracks := h.tracks hWellFormed
  obtain ⟨f, d, onPath, hSpans, hResolve, hRisk⟩ :=
    Constraint.exists_estimate hWellFormed hTracks hc hGraph e
  obtain rfl : Connectivity.pieces n = d := Except.ok.inj hResolve
  have hNamed := hWellFormed.named_edge hGraph e
  have hValue := inquires_value (s := s) (gr.edge e).proposition
  rw [Assignment.value_eq (hTracks.lt_of_named hNamed)] at hValue
  have hFavours : Inquires
      ((Constraint.graph g (.pieces n)).favours id (gr.edge e).proposition) s (.ok (decide
        (Connectivity.estimate f e (!s.assignment.isTrue (gr.edge e).proposition) onPath
          (.pieces n) < 0))) :=
    hValue.bind ((hRisk _).bind (.pure s _))
  obtain ⟨s₁, s₂, hAsked, hFlip, _, hFlipped⟩ := hFavours.exists_flip hWellFormed hTracks hNamed
  refine ⟨_, s₁, s₂, hAsked, hFlip, fun before after hBefore hAfter hNearer => ⟨?_, ?_⟩⟩
  · have hMissed : f.components ≠ n := by
      rw [(Connectivity.holds_pieces_iff hSpans before).mp hBefore]
      unfold Connectivity.Nearer at hNearer
      omega
    rw [(hTracks.settled id _ hc).violated, Constraint.holds_graph_iff hGraph hResolve]
    exact mt (Connectivity.holds_pieces_iff hSpans n).mp hMissed
  · rw [decide_eq_true_iff]
    exact Connectivity.estimate_pieces_neg_iff hSpans hFlipped onPath hBefore hAfter hNearer

/-- A problem that asks for two pieces. -/
def Problem.halving : Problem :=
  Builder.toProblem <| Builder.after [
    .newPropositions "x" 6,
    .addGraph .detour,
    .demand 0 (.pieces 2)]

theorem Problem.built_halving : halving.Built :=
  ⟨_, rfl, ⟨trivial, trivial, trivial, trivial⟩, by decide, by decide⟩

/-- Whether the constraint of that problem favours a flip, and the assignment after the flip. -/
def Problem.halvingBy (a : Assignment) (v : Nat) : Option (Bool × Assignment) :=
  (Problem.halving.evaluateAll >>= fun _ =>
    (Constraint.graph 0 (.pieces 2)).favours 0 v >>= fun favoured =>
    Walk.flip .halving v >>= fun _ => do
      return (favoured, (← get).assignment)).run'
    { State.new .halving (.seeded 0) with assignment := a, generator := .seeded 0 }

/-- What is seen of the flip happens in reached states. -/
theorem Problem.exists_of_halvingBy {v : Nat} {b : Bool} (hCovers : a.values.size = 7)
    (hSeen : halvingBy a v = some (b, a')) :
    ∃ s s₁ s₂, Reached .halving s ∧ s.assignment = a
      ∧ (Constraint.graph 0 (.pieces 2)).favours 0 v s = .ok b s₁
      ∧ Walk.flip .halving v s₁ = .ok () s₂ ∧ s₂.assignment = a' := by
  have hVisited := (Visited.new (p := .halving) (.seeded 0)).seeded a (.seeded 0) hCovers
  obtain ⟨_, s, hRun, _, hSame⟩ :=
    (Problem.ends_evaluateAll Problem.built_halving.wellFormed hVisited.shaped).exists_ok
  unfold halvingBy EStateM.run' EStateM.run at hSeen
  rw [bind_of_ok hRun] at hSeen
  cases hAsked : (Constraint.graph 0 (.pieces 2)).favours 0 v s with
  | error fault s₁ =>
      rw [bind_of_error hAsked] at hSeen
      cases hSeen
  | ok favoured s₁ =>
      rw [bind_of_ok hAsked] at hSeen
      cases hFlip : Walk.flip .halving v s₁ with
      | error fault s₂ =>
          rw [bind_of_error hFlip] at hSeen
          cases hSeen
      | ok _ s₂ =>
          rw [bind_of_ok hFlip] at hSeen
          obtain ⟨rfl, rfl⟩ := Prod.mk.inj (Option.some.inj hSeen)
          exact ⟨s, s₁, s₂, .evaluated hVisited hRun, hSame, hAsked, hFlip, rfl⟩

/-- With one edge present there are three pieces. An edge from these to another vertex arrives
at two and is favoured. -/
theorem favours_nearer_iff_halving :
    ∃ s s₁ s₂, Reached .halving s ∧ Graph.detour.FallsInto s.assignment 3
      ∧ (Constraint.graph 0 (.pieces 2)).favours 0 3 s = .ok true s₁
      ∧ Walk.flip .halving 3 s₁ = .ok () s₂ ∧ Graph.detour.FallsInto s₂.assignment 2 := by
  have hPieces : Problem.halving.constraints[0]? = some (.graph 0 (.pieces 2)) := rfl
  have hGraph : Problem.halving.graphs[0]? = some .detour := rfl
  have hSeen : Problem.halvingBy ⟨#[false, true, false, false, false, false, false]⟩ 3
      = some (true, ⟨#[false, true, false, true, false, false, false]⟩) := by decide +kernel
  obtain ⟨s, s₁', s₂', hReached, hSame, hAsked', hFlip', hSame'⟩ :=
    Problem.exists_of_halvingBy (by decide) hSeen
  have hBefore : Graph.detour.FallsInto s.assignment 3 := by
    rw [hSame]
    decide +kernel
  have hAfter : Graph.detour.FallsInto s₂'.assignment 2 := by
    rw [hSame']
    decide +kernel
  obtain ⟨b, s₁, s₂, hAsked, hFlip, hNearer⟩ :=
    favours_nearer_iff Problem.built_halving hReached hPieces hGraph (2 : Fin 6)
  obtain ⟨_, rfl⟩ := EStateM.Result.ok.inj (hAsked'.symm.trans hAsked)
  obtain ⟨_, rfl⟩ := EStateM.Result.ok.inj (hFlip'.symm.trans hFlip)
  obtain ⟨_, hFavoured⟩ := hNearer 3 2 hBefore hAfter (by decide)
  obtain rfl := hFavoured.mpr rfl
  exact ⟨s, s₁', s₂', hReached, hBefore, hAsked, hFlip, hAfter⟩

/-- With everything false there are four pieces. An edge that leaves three comes nearer to two
and is not favoured. -/
theorem nearer_is_not_favoured :
    ∃ s s₁ s₂, Reached .halving s ∧ 0 ∈ s.violated.toList
      ∧ Graph.detour.FallsInto s.assignment 4
      ∧ (Constraint.graph 0 (.pieces 2)).favours 0 1 s = .ok false s₁
      ∧ Walk.flip .halving 1 s₁ = .ok () s₂ ∧ Graph.detour.FallsInto s₂.assignment 3
      ∧ Connectivity.Nearer 2 4 3 := by
  have hPieces : Problem.halving.constraints[0]? = some (.graph 0 (.pieces 2)) := rfl
  have hGraph : Problem.halving.graphs[0]? = some .detour := rfl
  have hSeen : Problem.halvingBy (.allFalse 6) 1
      = some (false, ⟨#[false, true, false, false, false, false, false]⟩) := by decide +kernel
  obtain ⟨s, s₁, s₂, hReached, hBefore, hAsked, hFlip, hAfter⟩ :=
    Problem.exists_of_halvingBy (by decide) hSeen
  refine ⟨s, s₁, s₂, hReached, ?_, ?_, hAsked, hFlip, ?_, by decide⟩
  · have hMissed : ¬ Graph.detour.FallsInto s.assignment 2 := by
      rw [hBefore]
      decide +kernel
    have hTracks := hReached.tracks Problem.built_halving.wellFormed
    rw [(hTracks.settled 0 _ hPieces).violated, Constraint.holds_graph_iff hGraph rfl]
    exact hMissed
  · rw [hBefore]
    decide +kernel
  · rw [hAfter]
    decide +kernel

end LocalRepair
