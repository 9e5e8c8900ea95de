import LocalRepair.Proofs.Forecast
import LocalRepair.Proofs.Search.Reached

/-!
# Risks have the right sign

The risk of a flip is read off what is kept for a constraint, and part of that is
only roughly right: a path may be out of date, and an edge of the forest may not
be the only link between its ends. Where the record is right, the sign of the
risk is right all the same, for every kind of constraint and both directions of a
flip.

Two things come together here. The estimates fit the meaning of the constraints,
which is a matter of graphs and counts. And the record has the meaning of the
constraints, before the flip and after it.

## Main results

* `Constraint.exists_risk`: the risk that a constraint answers with fits.
* `risk_has_right_sign`: the same, in terms of the violated constraints.
-/

namespace LocalRepair

open Search State

variable {p : Problem} {s s' : State} {id g v : Nat} {c : Constraint} {a a' : Assignment}

/-- A question that is answered, and then a flip. -/
theorem Inquires.exists_flip {α : Type} {x : Search α} {answer : α} (hx : Inquires x s (.ok answer))
    (hp : p.WellFormed) (h : s.Tracks p) (hv : Named p.propositionCount v) :
    ∃ s₁ s₂, x s = .ok answer s₁ ∧ Walk.flip p v s₁ = .ok () s₂ ∧ s₂.Tracks p
      ∧ s.assignment.Flipped v s₂.assignment := by
  obtain ⟨_, s₁, hAsked, rfl, hRedirected⟩ := hx.ends_ok.exists_ok
  obtain ⟨_, s₂, hFlip, hTracks, hFlipped⟩ :=
    (Walk.ends_flip hp (h.redirected hRedirected) hv.2).exists_ok
  rw [hRedirected.assignment] at hFlipped
  exact ⟨s₁, s₂, hAsked, hFlip, hTracks, hFlipped⟩

/-- What a constraint adds to the number of constraints recorded as violated. -/
def State.violation (s : State) (id : Nat) : Int := if id ∈ s.violated.toList then 1 else 0

/-! ## The edge of a proposition -/

/-- The proposition of an edge is one of the problem's. -/
theorem Problem.WellFormed.named_edge {gr : Graph} (hp : p.WellFormed)
    (hGraph : p.graphs[g]? = some gr) (e : gr.EdgeId) :
    Named p.propositionCount (gr.edge e).proposition :=
  hp.graphs gr (Array.mem_of_getElem? hGraph) _ (Graph.mem_propositions.mpr ⟨e, rfl⟩)

namespace Connectivity

variable {gr : Graph} {e : gr.EdgeId} {demand : Connectivity gr.Vertex} {f : Forest gr}

/-- Turning over the proposition of an absent edge adds the edge. -/
theorem holds_flipped_of_absent (hFlip : a.Flipped (gr.edge e).proposition a')
    (hAbsent : a.isTrue (gr.edge e).proposition = false) :
    (demand.Holds gr fun d => gr.presentIn a' d = true)
      ↔ demand.Holds gr (Graph.plus (fun d => gr.presentIn a d = true) e) := by
  refine Holds.congr fun u w => Graph.Joined.congr fun d => ?_
  by_cases hd : d = e
  · subst hd
    have hSelf := hFlip.self
    rw [hAbsent] at hSelf
    simp [Graph.plus, Graph.presentIn, hSelf]
  · have hOther : (gr.edge d).proposition ≠ (gr.edge e).proposition :=
      fun hEq => hd (Graph.proposition_injective hEq)
    rw [Graph.presentIn_flipped_other hFlip hOther]
    simp [Graph.plus, hd]

/-- Turning over the proposition of a present edge takes the edge away. -/
theorem holds_flipped_of_present (hFlip : a.Flipped (gr.edge e).proposition a')
    (hPresent : a.isTrue (gr.edge e).proposition = true) :
    (demand.Holds gr fun d => gr.presentIn a' d = true)
      ↔ demand.Holds gr (Graph.minus (fun d => gr.presentIn a d = true) e) := by
  refine Holds.congr fun u w => Graph.Joined.congr fun d => ?_
  by_cases hd : d = e
  · subst hd
    have hSelf := hFlip.self
    rw [hPresent] at hSelf
    simp [Graph.minus, Graph.presentIn, hSelf]
  · have hOther : (gr.edge d).proposition ≠ (gr.edge e).proposition :=
      fun hEq => hd (Graph.proposition_injective hEq)
    rw [Graph.presentIn_flipped_other hFlip hOther]
    simp [Graph.minus, hd]

/-- The estimate for turning over the proposition of an edge fits. -/
theorem estimate_forecasts (h : f.Spans fun d => gr.presentIn a d = true)
    (hFlip : a.Flipped (gr.edge e).proposition a') (onPath : Bool) :
    Forecasts (estimate f e (!a.isTrue (gr.edge e).proposition) onPath demand)
      (demand.Holds gr fun d => gr.presentIn a d = true)
      (demand.Holds gr fun d => gr.presentIn a' d = true) := by
  cases hValue : a.isTrue (gr.edge e).proposition with
  | false =>
      rw [holds_flipped_of_absent hFlip hValue]
      exact adding_forecasts h e demand
  | true =>
      rw [holds_flipped_of_present hFlip hValue]
      exact removing_forecasts h hValue onPath demand

end Connectivity

/-! ## Risks of constraints -/

namespace Constraint

/-- Where the record is right, the risk of a flip is missing only if the
constraint does not mention the proposition, and otherwise it fits. -/
theorem exists_risk (hp : p.WellFormed) (h : s.Tracks p) (hc : p.constraints[id]? = some c)
    (v : Nat) :
    ∃ risk, Inquires (c.risk id v (!s.assignment.isTrue v)) s (.ok risk)
      ∧ (risk = none ↔ v ∉ p.propositionsOf c)
      ∧ ∀ d a', risk = some d → s.assignment.Flipped v a' →
        Forecasts d (c.Holds p.graphs s.assignment) (c.Holds p.graphs a') := by
  cases c with
  | clause k =>
      refine ⟨_, inquires_risk_clause h hc v _, k.risk_eq_none_iff _ v _, fun d a' hd hFlip => ?_⟩
      rw [← hFlip.self] at hd
      exact Clause.risk_forecasts (hp.short_clause hc) hFlip hd
  | graph g demand =>
      obtain ⟨m, hMarks⟩ := h.exists_marks hc
      obtain ⟨t, dem, hForest, hGraph, hResolve, hUpToDate⟩ := exists_upToDate hp h hc
      have hRisk :=
        inquires_risk_graph hMarks hForest hResolve hUpToDate v (!s.assignment.isTrue v)
      have hPropositions : p.propositionsOf (.graph g demand) = t.graph.propositions := by
        simp [Problem.propositionsOf, propositions, hGraph]
      refine ⟨_, hRisk, ?_, fun d a' hd hFlip => ?_⟩
      · rw [Option.map_eq_none_iff, Graph.edgeBackedBy?_eq_none_iff, hPropositions]
      · obtain ⟨e, hEdge, rfl⟩ := Option.map_eq_some_iff.mp hd
        obtain rfl := Graph.edgeBackedBy?_eq_some_iff.mp hEdge
        rw [holds_graph_iff hGraph hResolve, holds_graph_iff hGraph hResolve]
        exact Connectivity.estimate_forecasts hUpToDate.spans hFlip (m.path.contains e.val)

end Constraint

/-- In a right record a constraint adds to the violated ones what its meaning
adds. -/
theorem State.Tracks.isPenalty (h : s.Tracks p) (hc : p.constraints[id]? = some c) :
    IsPenalty (s.violation id) (c.Holds p.graphs s.assignment) := by
  have hViolated := (h.settled id c hc).violated
  unfold State.violation
  split
  · rename_i hMem
    exact Or.inr ⟨hViolated.mp hMem, rfl⟩
  · rename_i hOut
    exact Or.inl ⟨not_not.mp fun hNot => hOut (hViolated.mpr hNot), rfl⟩

/-- An estimate that fits has the sign of the difference, or the difference is
zero. -/
theorem Forecasts.sign {risk before' after' : Int} {before after : Prop}
    (h : Forecasts risk before after) (hBefore : IsPenalty before' before)
    (hAfter : IsPenalty after' after) :
    (risk = 0 → after' - before' = 0)
      ∧ (risk < 0 → after' - before' = -1 ∨ after' - before' = 0)
      ∧ (0 < risk → after' - before' = 0 ∨ after' - before' = 1) := by
  rcases hBefore with ⟨hb, rfl⟩ | ⟨hb, rfl⟩
  · rcases hAfter with ⟨ha, rfl⟩ | ⟨ha, rfl⟩
    · exact ⟨fun _ => rfl, fun _ => Or.inr rfl, fun _ => Or.inl rfl⟩
    · exact ⟨fun hZero => absurd ((h.still hZero).mp hb) ha,
        fun hLess => absurd (h.helps hLess hb) ha, fun _ => Or.inr rfl⟩
  · rcases hAfter with ⟨ha, rfl⟩ | ⟨ha, rfl⟩
    · exact ⟨fun hZero => absurd ((h.still hZero).mpr ha) hb, fun _ => Or.inl rfl,
        fun hMore => absurd (h.hurts hMore ha) hb⟩
    · exact ⟨fun _ => rfl, fun _ => Or.inr rfl, fun _ => Or.inl rfl⟩

/-- In a reached state, asking a constraint for the risk of a flip is answered.
There is no risk exactly if the constraint does not mention the proposition. If
there is one, and the proposition is then flipped, the constraint's part in the
number of violated ones changes by zero or in the direction of the risk; and it
does not change if the risk is zero. -/
theorem risk_has_right_sign (hp : p.Built) (h : Reached p s) (hc : p.constraints[id]? = some c)
    (hv : Named p.propositionCount v) :
    ∃ value risk s₁ s₂, s.assignment.value v = .ok value
      ∧ c.risk id v (!value) s = .ok risk s₁
      ∧ Walk.flip p v s₁ = .ok () s₂
      ∧ (risk = none ↔ v ∉ p.propositionsOf c)
      ∧ ∀ d, risk = some d →
        (d = 0 → s₂.violation id - s.violation id = 0)
        ∧ (d < 0 → s₂.violation id - s.violation id = -1
          ∨ s₂.violation id - s.violation id = 0)
        ∧ (0 < d → s₂.violation id - s.violation id = 0
          ∨ s₂.violation id - s.violation id = 1) := by
  have hWellFormed := hp.wellFormed
  have hTracks := h.tracks hWellFormed
  have hRange : v < s.assignment.values.size := by
    rw [hTracks.assignment]
    exact Nat.lt_succ_of_le hv.2
  obtain ⟨risk, hRisk, hNone, hForecasts⟩ := c.exists_risk hWellFormed hTracks hc v
  obtain ⟨_, s₁, hAsked, rfl, hRedirected⟩ := hRisk.ends_ok.exists_ok
  have hTracks₁ := hTracks.redirected hRedirected
  obtain ⟨_, s₂, hFlip, hTracks₂, hFlipped⟩ :=
    (Walk.ends_flip hWellFormed hTracks₁ hv.2).exists_ok
  rw [hRedirected.assignment] at hFlipped
  refine ⟨_, _, s₁, s₂, Assignment.value_eq hRange, hAsked, hFlip, hNone, fun d hd => ?_⟩
  exact (hForecasts d _ hd hFlipped).sign (hTracks.isPenalty hc) (hTracks₂.isPenalty hc)

/-- In the small problem, with everything false, the graph has a risk for the
edge between its two vertices. -/
theorem risk_has_right_sign_small :
    ∃ s d s₁ s₂, Reached .small s
      ∧ (Constraint.graph 0 .whole).risk 1 1 true s = .ok (some d) s₁
      ∧ Walk.flip .small 1 s₁ = .ok () s₂
      ∧ (d = 0 → s₂.violation 1 - s.violation 1 = 0) := by
  have hNew : Visited .small { State.new .small (.seeded 0) with
      assignment := .allFalse 3, generator := .seeded 0 } :=
    (Visited.new (.seeded 0)).seeded _ _ (by decide)
  obtain ⟨_, s, hRun, _, hSame⟩ :=
    (Problem.ends_evaluateAll Problem.built_small.wellFormed hNew.shaped).exists_ok
  have hReached : Reached .small s := .evaluated hNew hRun
  have hGraph : Problem.small.constraints[1]? = some (.graph 0 .whole) := rfl
  obtain ⟨value, risk, s₁, s₂, hValue, hRisk, hFlip, hNone, hSign⟩ :=
    risk_has_right_sign Problem.built_small hReached hGraph (v := 1) (by decide)
  have hFalse : value = false := by
    rw [hSame] at hValue
    exact (Except.ok.inj hValue).symm
  subst hFalse
  cases risk with
  | none => exact absurd (by decide) (hNone.mp rfl)
  | some d => exact ⟨s, d, s₁, s₂, hReached, hRisk, hFlip, (hSign d rfl).1⟩

end LocalRepair
