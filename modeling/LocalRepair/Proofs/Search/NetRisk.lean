import Mathlib.Algebra.BigOperators.Ring.Finset
import LocalRepair.Proofs.Search.Risk

/-!
# The net effect of a flip

A greedy pick weighs a flip by its net risk, the sum of the risks over the
constraints that mention the proposition. For a clause the risk is no estimate
but the difference that the flip makes, however often and with whatever signs the
proposition stands in it. So where clauses alone mention a proposition, the net
risk is the change of the number of violated constraints.

Both numbers are sums of the same differences. The net risk runs through the list
of the constraints that mention the proposition, and the number of violated
constraints runs through all of them; the constraints that are in one row only
are those that the flip leaves as they were.

## Main results

* `Problem.inquires_netRisk`: the net risk is the sum of the risks.
* `State.Tracks.size_change`: the change of the number of violated constraints.
* `net_risk_is_exact`: the two agree where clauses alone are concerned.
-/

namespace LocalRepair

open Search State

variable {p : Problem} {s s' : State} {id n v : Nat} {c : Constraint} {k : Clause}
  {a a' : Assignment}

/-! ## Counting violated constraints -/

/-- The number of violated constraints is what the single constraints add to it.
-/
theorem State.size_eq_sum (h : s.violated.Fits n) :
    (s.violated.size : Int) = ∑ id ∈ Finset.range n, s.violation id := by
  have hMembers : (Finset.range n).filter (· ∈ s.violated.toList) = s.violated.toList.toFinset := by
    ext id
    simp only [Finset.mem_filter, Finset.mem_range, List.mem_toFinset]
    exact ⟨And.right, fun hMem => ⟨h.lt_of_mem hMem, hMem⟩⟩
  have hLength : s.violated.size = s.violated.toList.length := by
    simp [IndexSet.size, IndexSet.toList]
  simp only [State.violation]
  rw [Finset.sum_boole, hMembers, List.toFinset_card_of_nodup h.nodup, hLength]

namespace State.Tracks

/-- What a clause adds to the number of violated constraints. -/
theorem violation_clause (h : s.Tracks p) (hc : p.constraints[id]? = some (.clause k)) :
    s.violation id = k.penalty (k.truePositions s.assignment) :=
  (h.isPenalty hc).eq (k.isPenalty_penalty s.assignment)

/-- A flip leaves the part of a constraint alone that does not mention the
proposition. -/
theorem violation_of_not_mem (h : s.Tracks p) (k : s'.Tracks p)
    (hFlip : s.assignment.Flipped v s'.assignment) (hc : p.constraints[id]? = some c)
    (hv : v ∉ p.propositionsOf c) : s'.violation id = s.violation id := by
  have hPenalty := k.isPenalty hc
  rw [Constraint.holds_flipped_iff hFlip hv] at hPenalty
  exact hPenalty.eq (h.isPenalty hc)

/-- The change of the number of violated constraints is the sum of the changes
over the constraints that mention the proposition. -/
theorem size_change (h : s.Tracks p) (k : s'.Tracks p)
    (hFlip : s.assignment.Flipped v s'.assignment) {ids : List Nat} (hNodup : ids.Nodup)
    (hIds : ∀ id, id ∈ ids ↔ ∃ c, p.constraints[id]? = some c ∧ v ∈ p.propositionsOf c) :
    (s'.violated.size : Int) - s.violated.size
      = (ids.map fun id => s'.violation id - s.violation id).sum := by
  have hSub : ids.toFinset ⊆ Finset.range p.constraints.size := by
    intro id hId
    obtain ⟨c, hc, _⟩ := (hIds id).mp (List.mem_toFinset.mp hId)
    exact Finset.mem_range.mpr (Shaped.lt_of_constraint hc)
  have hRest : ∀ id ∈ Finset.range p.constraints.size, id ∉ ids.toFinset →
      s'.violation id - s.violation id = 0 := by
    intro id hRange hOut
    have hc := Array.getElem?_eq_getElem (Finset.mem_range.mp hRange)
    have hv : v ∉ p.propositionsOf _ :=
      fun hv => hOut (List.mem_toFinset.mpr ((hIds id).mpr ⟨_, hc, hv⟩))
    rw [h.violation_of_not_mem k hFlip hc hv, Int.sub_self]
  calc (s'.violated.size : Int) - s.violated.size
      = ∑ id ∈ Finset.range p.constraints.size, (s'.violation id - s.violation id) := by
        rw [State.size_eq_sum k.violated, State.size_eq_sum h.violated, Finset.sum_sub_distrib]
    _ = ∑ id ∈ ids.toFinset, (s'.violation id - s.violation id) :=
        (Finset.sum_subset hSub hRest).symm
    _ = (ids.map fun id => s'.violation id - s.violation id).sum := List.sum_toFinset _ hNodup

end State.Tracks

/-! ## Adding up risks -/

namespace Problem

/-- Where the risks of some constraints are known, so is their sum. -/
theorem inquires_sumRisks (v : Nat) (value : Bool) (risks : Nat → Int) :
    ∀ (ids : List Nat) (sum : Int),
      (∀ id ∈ ids, ∃ c risk, p.constraints[id]? = some c
        ∧ Inquires (c.risk id v value) s (.ok risk) ∧ risk.getD 0 = risks id) →
      Inquires (p.sumRisks v value ids sum) s (.ok (sum + (ids.map risks).sum)) := by
  intro ids
  induction ids with
  | nil =>
      intro sum _
      rw [List.map_nil, List.sum_nil, Int.add_zero]
      exact .pure s sum
  | cons id ids ih =>
      intro sum hRisks
      obtain ⟨c, risk, hc, hRisk, hKnown⟩ := hRisks id (by simp)
      have hRest := ih (sum + risk.getD 0) fun j hj => hRisks j (List.mem_cons_of_mem _ hj)
      rw [List.map_cons, List.sum_cons, ← hKnown, ← Int.add_assoc]
      have hLookup : p.constraint id = .ok c := entryAt_eq_ok_iff.mpr hc
      rw [sumRisks, hLookup]
      exact (Inquires.of s (.ok c)).bind (hRisk.bind hRest)

/-- The net risk of a flip is the sum of the risks over the constraints that
mention the proposition. -/
theorem inquires_netRisk {ids : List Nat} (hIds : p.mentioning v = .ok ids) (value : Bool)
    (risks : Nat → Int)
    (h : ∀ id ∈ ids, ∃ c risk, p.constraints[id]? = some c
      ∧ Inquires (c.risk id v value) s (.ok risk) ∧ risk.getD 0 = risks id) :
    Inquires (p.netRisk v value) s (.ok (ids.map risks).sum) := by
  have hSum := inquires_sumRisks v value risks ids 0 h
  rw [Int.zero_add] at hSum
  rw [netRisk, hIds]
  exact (Inquires.of s (.ok ids)).bind hSum

end Problem

/-- Asked of a clause, the risk of flipping a proposition that it mentions is by
how much the clause's part in the number of violated constraints changes. -/
theorem Constraint.inquires_exact_risk (hp : p.WellFormed) (h : s.Tracks p)
    (hc : p.constraints[id]? = some (.clause k)) (hv : v ∈ k.propositions) :
    ∃ risk, Inquires ((clause k).risk id v (!s.assignment.isTrue v)) s (.ok risk)
      ∧ ∀ s' : State, s'.Tracks p → s.assignment.Flipped v s'.assignment →
        risk.getD 0 = s'.violation id - s.violation id := by
  refine ⟨_, inquires_risk_clause h hc v _, fun s' hTracks hFlip => ?_⟩
  rw [hTracks.violation_clause hc, h.violation_clause hc, ← hFlip.self,
    Clause.risk_eq (hp.short_clause hc) hFlip, if_pos hv, Option.getD_some]

/-- In a reached state, for a proposition that only clauses mention, the net risk
of flipping it is by how much the flip changes the number of violated
constraints. -/
theorem net_risk_is_exact (hp : p.Built) (h : Reached p s) (hv : Named p.propositionCount v)
    (hClauses : ∀ (id : Nat) (c : Constraint), p.constraints[id]? = some c →
      v ∈ p.propositionsOf c → ∃ k, c = .clause k) :
    ∃ value delta s₁ s₂, s.assignment.value v = .ok value
      ∧ p.netRisk v (!value) s = .ok delta s₁
      ∧ Walk.flip p v s₁ = .ok () s₂
      ∧ delta = (s₂.violated.size : Int) - s.violated.size := by
  have hWellFormed := hp.wellFormed
  have hTracks := h.tracks hWellFormed
  have hRange : v < s.assignment.values.size := by
    rw [hTracks.assignment]
    exact Nat.lt_succ_of_le hv.2
  obtain ⟨ids, hIds, hAscending, hMentioning⟩ := hWellFormed.mentioning v hv.2
  -- Each clause is asked for its risk, which is settled before the flip and
  -- compared with what the flip does only after it.
  have hExact : ∀ id, ∃ d, id ∈ ids → (∃ c risk, p.constraints[id]? = some c
      ∧ Inquires (c.risk id v (!s.assignment.isTrue v)) s (.ok risk) ∧ risk.getD 0 = d)
      ∧ ∀ s' : State, s'.Tracks p → s.assignment.Flipped v s'.assignment →
        d = s'.violation id - s.violation id := by
    intro id
    by_cases hId : id ∈ ids
    · obtain ⟨c, hc, hvc⟩ := (hMentioning id).mp hId
      obtain ⟨k, rfl⟩ := hClauses id c hc hvc
      obtain ⟨risk, hRisk, hChange⟩ := Constraint.inquires_exact_risk hWellFormed hTracks hc hvc
      exact ⟨risk.getD 0, fun _ => ⟨⟨_, risk, hc, hRisk, rfl⟩, hChange⟩⟩
    · exact ⟨0, fun hMem => absurd hMem hId⟩
  choose risks hRisks using hExact
  have hNet := Problem.inquires_netRisk hIds (!s.assignment.isTrue v) risks
    fun id hId => (hRisks id hId).1
  obtain ⟨_, s₁, hAsked, rfl, hRedirected⟩ := hNet.ends_ok.exists_ok
  obtain ⟨_, s₂, hFlip, hTracks₂, hFlipped⟩ :=
    (Walk.ends_flip hWellFormed (hTracks.redirected hRedirected) hv.2).exists_ok
  rw [hRedirected.assignment] at hFlipped
  refine ⟨_, _, s₁, s₂, Assignment.value_eq hRange, hAsked, hFlip, ?_⟩
  rw [hTracks.size_change hTracks₂ hFlipped (hAscending.imp Nat.ne_of_lt) hMentioning]
  congr 1
  exact List.map_congr_left fun id hId => (hRisks id hId).2 s₂ hTracks₂ hFlipped

/-- Two clauses on a proposition that stands in one of them three times, once with
the other sign. -/
def Problem.repeating : Problem :=
  Builder.toProblem <| Builder.after [
    .newPropositions "x" 2,
    .addClause (.exactly [⟨1⟩, ⟨-1⟩, ⟨1⟩, ⟨2⟩] 2),
    .addClause (.or [⟨-1⟩, ⟨2⟩])]

theorem Problem.built_repeating : repeating.Built :=
  ⟨_, rfl, ⟨trivial, trivial, trivial, trivial⟩, by decide, by decide⟩

/-- With everything false, flipping the repeated proposition mends the first
clause and breaks the second. -/
theorem net_risk_is_exact_repeating :
    ∃ s delta s₁ s₂, Reached .repeating s ∧ Problem.repeating.netRisk 1 true s = .ok delta s₁
      ∧ Walk.flip .repeating 1 s₁ = .ok () s₂
      ∧ delta = (s₂.violated.size : Int) - s.violated.size := by
  obtain ⟨s, hReached, hFalse⟩ := exists_reached Problem.built_repeating.wellFormed
  have hConstraints : Problem.repeating.constraints
      = #[.clause (.exactly [⟨1⟩, ⟨-1⟩, ⟨1⟩, ⟨2⟩] 2), .clause (.or [⟨-1⟩, ⟨2⟩])] := rfl
  obtain ⟨value, delta, s₁, s₂, hValue, hAsked, hFlip, hDelta⟩ :=
    net_risk_is_exact (v := 1) Problem.built_repeating hReached (by decide) (by
      intro id c hc _
      have hMem := Array.mem_of_getElem? hc
      rw [hConstraints] at hMem
      rcases List.mem_pair.mp (Array.mem_def.mp hMem) with rfl | rfl
      · exact ⟨_, rfl⟩
      · exact ⟨_, rfl⟩)
  obtain rfl : value = false := by
    rw [hFalse] at hValue
    exact (Except.ok.inj hValue).symm
  exact ⟨s, delta, s₁, s₂, hReached, hAsked, hFlip, hDelta⟩

end LocalRepair
