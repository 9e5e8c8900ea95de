import LocalRepair.Proofs.Search.NetRisk

/-!
# Answers read off a state

A question to a search is a step, and what it comes to depends on the state. Where
the record is right, the dependence is a plain one: the answer is a function of
the assignment, of what is kept for the constraint and of its forest, and of
nothing else. The functions are given here, and the questions are proved to come
to them.

So two states that differ in their generators, their counters or their record of
violated constraints only, have the same answers, and that is seen by looking at
the functions.

## Main results

* `Constraint.inquires_riskIn`: the risk of a flip for one constraint.
* `Constraint.inquires_favouredIn`: whether a constraint favours a flip.
* `Problem.inquires_effectIn`: the net risk of a flip.
-/

namespace LocalRepair

open Search State

variable {p : Problem} {s : State} {id v : Nat} {c : Constraint}

/-! ## Propositions of constraints -/

/-- The propositions of a constraint are propositions of the problem. -/
theorem Problem.WellFormed.named (hp : p.WellFormed) (hc : p.constraints[id]? = some c)
    (hv : v ∈ p.propositionsOf c) : Named p.propositionCount v := by
  have hGrounded := hp.constraints c (Array.mem_of_getElem? hc)
  cases c with
  | clause k =>
      obtain ⟨l, hl, rfl⟩ := Clause.mem_propositions.mp hv
      exact hGrounded l hl
  | graph g demand =>
      obtain ⟨gr, d, hGraph, _⟩ := hGrounded
      have hOwn : p.propositionsOf (.graph g demand) = gr.propositions := by
        simp [Problem.propositionsOf, Constraint.propositions, hGraph]
      rw [hOwn] at hv
      exact hp.graphs gr (Array.mem_of_getElem? hGraph) v hv

/-- The assignment of a state covers the propositions of the problem. -/
theorem State.Shaped.lt_of_named (h : s.Shaped p) (hv : Named p.propositionCount v) :
    v < s.assignment.values.size := by
  have hSize := h.assignment
  have hTop := hv.2
  omega

/-! ## Readings -/

namespace Constraint

/-- The risk of a flip for a constraint, read off a state. -/
def riskIn (s : State) (id v : Nat) (value : Bool) : Constraint → Option Int
  | clause k => k.risk (k.truePositions s.assignment) v value
  | graph g demand => do
    let m ← s.marks[id]?
    let t ← s.forests[g]?
    let d ← (demand.resolve t.graph).toOption
    let e ← t.graph.edgeBackedBy? v
    return Connectivity.estimate t.forest e value (m.path.contains e.val) d

/-- Whether a constraint favours a flip, read off a state. -/
def favouredIn (s : State) (id v : Nat) : Constraint → Bool
  | clause k => k.wants (k.truePositions s.assignment) v (!s.assignment.isTrue v)
  | graph g demand =>
    ((graph g demand).riskIn s id v (!s.assignment.isTrue v)).any fun risk => decide (risk < 0)

theorem inquires_riskIn (hp : p.WellFormed) (h : s.Tracks p) (hc : p.constraints[id]? = some c)
    (v : Nat) (value : Bool) : Inquires (c.risk id v value) s (.ok (c.riskIn s id v value)) := by
  cases c with
  | clause k => exact inquires_risk_clause h hc v value
  | graph g demand =>
      obtain ⟨m, hMarks⟩ := h.exists_marks hc
      obtain ⟨t, d, hForest, _, hResolve, hUpToDate⟩ := exists_upToDate hp h hc
      have hReading : (graph g demand).riskIn s id v value = (t.graph.edgeBackedBy? v).map fun e =>
          Connectivity.estimate t.forest e value (m.path.contains e.val) d := by
        simp only [riskIn, hMarks, hForest, Option.bind_eq_bind, Option.bind_some, hResolve,
          Except.toOption]
        cases t.graph.edgeBackedBy? v <;> rfl
      rw [hReading]
      exact inquires_risk_graph hMarks hForest hResolve hUpToDate v value

theorem inquires_favouredIn (hp : p.WellFormed) (h : s.Tracks p)
    (hc : p.constraints[id]? = some c) (hv : v < s.assignment.values.size) :
    Inquires (c.favours id v) s (.ok (c.favouredIn s id v)) := by
  have hValue := inquires_value (s := s) v
  rw [Assignment.value_eq hv] at hValue
  cases c with
  | clause k =>
      obtain ⟨m, hMarks⟩ := h.exists_marks hc
      have hCounted := (h.settled id _ hc).counted k rfl m hMarks
      show Inquires _ s (.ok (k.wants (k.truePositions s.assignment) v (!s.assignment.isTrue v)))
      rw [← hCounted]
      exact (inquires_entry hMarks).bind (hValue.bind (.pure s _))
  | graph g demand =>
      have hRisk := inquires_riskIn hp h hc v (!s.assignment.isTrue v)
      apply hValue.bind
      show Inquires _ s (.ok (((graph g demand).riskIn s id v (!s.assignment.isTrue v)).any _))
      cases hRead : (graph g demand).riskIn s id v (!s.assignment.isTrue v) with
      | none =>
          rw [hRead] at hRisk
          exact hRisk.bind (.pure s false)
      | some risk =>
          rw [hRead] at hRisk
          exact hRisk.bind (.pure s (decide (risk < 0)))

end Constraint

namespace Problem

/-- The part of one constraint in the net risk of flipping a proposition. -/
def partIn (p : Problem) (s : State) (v id : Nat) : Int :=
  ((p.constraints[id]?.bind fun c => c.riskIn s id v (!s.assignment.isTrue v)).getD 0)

/-- The net risk of flipping a proposition, read off a state. -/
def effectIn (p : Problem) (s : State) (v : Nat) : Int :=
  (((p.mentioning v).toOption.getD []).map (p.partIn s v)).sum

theorem inquires_effectIn (hp : p.WellFormed) (h : s.Tracks p)
    (hv : Named p.propositionCount v) :
    Inquires (p.netRisk v (!s.assignment.isTrue v)) s (.ok (p.effectIn s v)) := by
  obtain ⟨ids, hIds, _, hMentioning⟩ := hp.mentioning v hv.2
  have hParts : ∀ id ∈ ids, ∃ c risk, p.constraints[id]? = some c
      ∧ Inquires (c.risk id v (!s.assignment.isTrue v)) s (.ok risk)
      ∧ risk.getD 0 = p.partIn s v id := by
    intro id hId
    obtain ⟨c, hc, _⟩ := (hMentioning id).mp hId
    have hRisk := c.inquires_riskIn hp h hc v (!s.assignment.isTrue v)
    refine ⟨c, _, hc, hRisk, ?_⟩
    unfold partIn
    rw [hc, Option.bind_some]
  have hNet := inquires_netRisk hIds (!s.assignment.isTrue v) (p.partIn s v) hParts
  unfold effectIn
  rw [hIds]
  exact hNet

end Problem
end LocalRepair
