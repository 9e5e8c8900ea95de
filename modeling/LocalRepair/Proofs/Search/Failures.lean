import LocalRepair.Engine
import LocalRepair.Proofs.Builder.Contradictions
import LocalRepair.Proofs.Search.Progress
import LocalRepair.Proofs.Search.Restarting

/-!
# A search fails in one way only

A search follows numbers into tables, draws from ranges, counts the literals of clauses
and checks its record after every flip, and each of these could fail. Where chances are
probabilities none of them does. What is left is a step for a violated constraint without
propositions: such a constraint cannot be repaired, and the step says so.

A clause without literals holds, since its window was lowered to their number and is not
empty. So if the demands on graphs without edges hold as well, every search returns.

## Main results

* `Walk.ends_step_fails`, `Walk.ends_attempt_fails`: how a step and an attempt fail.
* `Strategy.ends_solve_fails`: how any strategy fails.
* `search_fails_in_one_way`: every search of a problem that was built.
-/

namespace LocalRepair

open Search State

variable {p : Problem} {s s' : State} {w : Walk} {id : Nat} {c : Constraint}

/-! ## The one way to fail -/

/-- The chances in the settings of a strategy are probabilities. -/
def Strategy.Proper : Strategy → Prop
  | walk w => w.Proper
  | restarting inner _ => inner.Proper

/-- The strategy of settings that pass their check has proper chances. -/
theorem Engine.proper_strategyOf {settings : Settings} (h : settings.validate = .ok ()) :
    (strategyOf settings).Proper := by
  have hChance : isProbability settings.randomStep = true := by
    unfold Settings.validate at h
    split at h
    · assumption
    · cases h
  refine ⟨?_, ?_⟩
  · show isProbability 0.5 = true
    decide +kernel
  · show isProbability (if settings.randomStep < 0.0 then 0.0
      else if 1.0 < settings.randomStep then 1.0 else settings.randomStep) = true
    split
    · decide +kernel
    · split
      · decide +kernel
      · exact hChance

/-- A search has failed in a state because a violated constraint has no propositions. -/
structure NothingLeft (p : Problem) (e : Fault) (s : State) (id : Nat) (c : Constraint) : Prop where
  stored : p.constraints[id]? = some c
  violated : id ∈ s.violated.toList
  fails : ¬ c.Holds p.graphs s.assignment
  noPropositions : p.propositionsOf c = []
  fault : e = .rejected (.nothingToFlip id)

/-- How a search may fail, and what it leaves. -/
def Fails (p : Problem) (e : Fault) (s : State) : Prop :=
  s.Shaped p ∧ ∃ id c, NothingLeft p e s id c

/-- Counters do not matter to a failure. -/
theorem Fails.setTally {e : Fault} (h : Fails p e s) (tally : Stats) :
    Fails p e { s with tally } := by
  obtain ⟨hShaped, id, c, hLeft⟩ := h
  exact ⟨hShaped.of_tables rfl rfl rfl rfl, id, c,
    ⟨hLeft.stored, hLeft.violated, hLeft.fails, hLeft.noPropositions, hLeft.fault⟩⟩

/-! ## Walks -/

namespace Walk

/-- A step for a violated constraint fails only if there is nothing to flip. -/
theorem ends_step_fails (hp : p.WellFormed) (hw : w.Proper) (h : s.Tracks p)
    (hViolated : id ∈ s.violated.toList) :
    Ends (w.step p id) s (fun _ s' => s'.Tracks p) (Fails p) := by
  have hc := Array.getElem?_eq_getElem (h.violated.lt_of_mem hViolated)
  rw [step, ends_bind]
  refine (w.ends_pick hp h hc).mono ?_ ?_
  · rintro v s₁ ⟨hv, hTracks, _⟩
    have hCounted : State.Tracks { s₁ with tally := s₁.tally.countPick id } p :=
      hTracks.of_tables rfl rfl rfl rfl
    show Ends (flip p v) _ _ _
    exact (ends_flip hp hCounted (hp.named hc hv).2).weaken fun _ _ hEnd => hEnd.1
  · rintro e s₁ hStuck
    obtain ⟨hFault, hNone⟩ := hStuck.nothingToFlip hw.randomStep
    have hViolated₁ : id ∈ s₁.violated.toList := by
      rw [hStuck.violated]
      exact hViolated
    have hFalse := (hStuck.tracks.settled id _ hc).violated.mp hViolated₁
    exact ⟨hStuck.tracks.toShaped, id, _, hc, hViolated₁, hFalse, hNone, hFault⟩

/-- So does a walk from a right record. -/
theorem ends_run_fails (hp : p.WellFormed) (hw : w.Proper) (h : s.Tracks p) :
    Ends (w.run p) s (fun _ s' => s'.Tracks p) (Fails p) := by
  have hStep : ∀ (_made id : Nat) (s : State), id ∈ s.violated.toList → s.Tracks p →
      Ends (w.step p id) s (fun _ s' => s'.Tracks p) (Fails p) :=
    fun _ _ _ hViolated hs => ends_step_fails hp hw hs hViolated
  refine (w.ends_runFor (P := fun _ s => s.Tracks p) hStep
    (fun _ _ _ hs => hs.of_tables rfl rfl rfl rfl) w.maxFlips 0 s h).mono ?_ fun _ _ hFail => hFail
  rintro _ s' ⟨⟨_, _, hTracks, _⟩, _⟩
  exact hTracks

/-- And an attempt from any state with a shape. -/
theorem ends_attempt_fails (hp : p.WellFormed) (hw : w.Proper) (h : s.Shaped p) :
    Ends (w.attempt p) s (fun _ s' => s'.Shaped p) (Fails p) := by
  have hStarts : State.Shaped { s with tally := { attempts := 1 } } p :=
    h.of_tables rfl rfl rfl rfl
  have hCounts : ∀ (s₁ : State) (tally : Stats), s₁.Tracks p →
      State.Shaped { s₁ with tally } p := fun _ _ hs => hs.toShaped.of_tables rfl rfl rfl rfl
  unfold attempt
  apply ends_counting
  unfold startAndRun
  show Ends (w.start p >>= _) { s with tally := { attempts := 1 } } _ _
  rw [ends_bind]
  refine (w.ends_start_proper hp hStarts).mono ?_ fun _ _ hFail => (hFail hw.seeding).elim
  rintro _ s₁ ⟨hTracks, _⟩
  rw [ends_bind, ends_get, ends_bind]
  refine (ends_run_fails hp hw hTracks).mono ?_ fun _ s₂ hFail => hFail.setTally s.tally
  intro solved s₂ hTracks₂
  rw [ends_bind, ends_get]
  cases solved with
  | true => exact hCounts s₂ s.tally hTracks₂
  | false => exact hCounts s₂ s.tally hTracks₂

end Walk

/-! ## Strategies -/

namespace Strategy

/-- Repeating a search adds no way to fail. -/
theorem ends_repeated_fails {search : Search (Option Solution × Stats)}
    (hSearch : ∀ s : State, s.Shaped p → Ends search s (fun _ s' => s'.Shaped p) (Fails p))
    (policy : Restarts) (further : Nat) :
    ∀ (total : Stats) (s : State), s.Shaped p →
      Ends (repeated search policy further total) s (fun _ s' => s'.Shaped p) (Fails p) := by
  induction further with
  | zero =>
      intro total s h
      exact (hSearch s h).andThen fun _ _ hEnd => hEnd
  | succ further ih =>
      intro total s h
      apply (hSearch s h).andThen
      intro found s' h'
      exact ends_ite (fun _ => h') fun _ => ih _ s' h'

/-- With proper chances, a search from any state with a shape fails only if a violated
constraint has no propositions. -/
theorem ends_solve_fails (hp : p.WellFormed) (strategy : Strategy) (hProper : strategy.Proper) :
    ∀ s : State, s.Shaped p →
      Ends (strategy.solve p) s (fun _ s' => s'.Shaped p) (Fails p) := by
  induction strategy with
  | walk w => exact fun s h => w.ends_attempt_fails hp hProper h
  | restarting inner policy ih =>
      exact ends_repeated_fails (ih hProper) policy policy.bound {}

end Strategy

/-! ## Constraints without propositions -/

/-- Whether a demand holds on a graph without edges does not depend on the assignment. -/
theorem Constraint.holds_of_edgeless {graphs : Array Graph} {g : Nat} {demand : Connectivity Nat}
    {gr : Graph} {a a' : Assignment} (hGraph : graphs[g]? = some gr) (hNone : gr.edges = #[])
    (h : (graph g demand).Holds graphs a) : (graph g demand).Holds graphs a' := by
  obtain ⟨gr', d, hGraph', hResolve, hHolds⟩ := h
  obtain rfl := Option.some.inj (hGraph.symm.trans hGraph')
  have hSame : (fun e : gr.EdgeId => gr.presentIn a e = true)
      = fun e => gr.presentIn a' e = true := by
    funext e
    have hRange : e.val < gr.edges.size := e.isLt
    simp [hNone] at hRange
  exact ⟨gr, d, hGraph, hResolve, hSame ▸ hHolds⟩

/-- A clause without literals holds, if its window is not empty. -/
theorem Clause.holds_of_no_literals {k : Clause} (hHopeful : k.min ≤ k.max)
    (hNone : k.propositions = []) (a : Assignment) : k.Holds a := by
  have hLiterals : k.literals = [] := by
    rw [List.eq_nil_iff_forall_not_mem]
    intro l hl
    have hMem : l.proposition ∈ k.propositions := Clause.mem_propositions.mpr ⟨l, hl, rfl⟩
    rw [hNone] at hMem
    cases hMem
  have hMax : k.max = 0 := by simpa [hLiterals] using k.max_le
  have hZero : k.truePositions a = 0 := by
    simp [truePositions, hLiterals]
  unfold Clause.Holds
  omega

/-- The constraint for which nothing is left is a demand on a graph without edges that no
assignment meets. -/
theorem NothingLeft.exists_edgeless {e : Fault} (hp : p.Built) (h : NothingLeft p e s id c) :
    ∃ g demand gr, c = .graph g demand ∧ p.graphs[g]? = some gr ∧ gr.edges = #[]
      ∧ ∀ a, ¬ (Constraint.graph g demand).Holds p.graphs a := by
  cases c with
  | clause k =>
      have hHolds := k.holds_of_no_literals (hp.hopeful h.stored) h.noPropositions s.assignment
      exact absurd hHolds h.fails
  | graph g demand =>
      obtain ⟨gr, _, hGraph, _⟩ :=
        hp.wellFormed.constraints _ (Array.mem_of_getElem? h.stored)
      have hNone : gr.edges = #[] := by
        have hPropositions := h.noPropositions
        rw [Problem.propositionsOf, Constraint.propositions, hGraph] at hPropositions
        simpa [Graph.propositions] using hPropositions
      exact ⟨g, demand, gr, rfl, hGraph, hNone,
        fun a hHolds => h.fails (Constraint.holds_of_edgeless hGraph hNone hHolds)⟩

/-! ## Every search -/

/-- From any state that earlier searches of the problem left behind, with any generator,
and with chances that are probabilities, a search fails only if it picks for a violated
constraint that has no propositions, and that is what it says. So does the search of an
engine. If every demand on a graph without edges holds at all, then every search returns. -/
theorem search_fails_in_one_way (hp : p.Built) :
    (∀ (strategy : Strategy) (s s' : State) (e : Fault), strategy.Proper → Visited p s →
        strategy.solve p s = .error e s' →
          ∃ id c cause, NothingLeft p e s' id c ∧ e = .rejected cause
            ∧ cause.message = "constraint #" ++ toString id ++ " has no variables to flip")
      ∧ (∀ (engine : Engine) (e : Fault), engine.strategy.Proper →
        (engine.solve p).1 = .error e →
          ∃ s' id c cause, (engine.solve p).2.lastState = some s' ∧ NothingLeft p e s' id c
            ∧ e = .rejected cause
            ∧ cause.message = "constraint #" ++ toString id ++ " has no variables to flip")
      ∧ ((∀ (id g : Nat) (demand : Connectivity Nat) (gr : Graph),
          p.constraints[id]? = some (.graph g demand) → p.graphs[g]? = some gr →
            gr.edges = #[] → ∃ a, (Constraint.graph g demand).Holds p.graphs a) →
        ∀ (strategy : Strategy) (s : State), strategy.Proper → Visited p s →
          ∃ found stats s', strategy.solve p s = .ok (found, stats) s') := by
  have hWellFormed := hp.wellFormed
  have hFails : ∀ (strategy : Strategy) (s s' : State) (e : Fault), strategy.Proper →
      Visited p s → strategy.solve p s = .error e s' → ∃ id c, NothingLeft p e s' id c := by
    intro strategy s s' e hProper hVisited hRun
    have hEnds := strategy.ends_solve_fails hWellFormed hProper s hVisited.shaped
    rw [Ends, hRun] at hEnds
    exact hEnds.2
  refine ⟨?_, ?_, ?_⟩
  · intro strategy s s' e hProper hVisited hRun
    obtain ⟨id, c, hLeft⟩ := hFails strategy s s' e hProper hVisited hRun
    exact ⟨id, c, .nothingToFlip id, hLeft, hLeft.fault, rfl⟩
  · intro engine e hProper hFailed
    cases hRun : engine.strategy.solve p (.new p (.seeded engine.generator.doubleWord.1)) with
    | ok answer s' =>
        simp only [Engine.solve, hRun] at hFailed
        cases hFailed
    | error fault s' =>
        simp only [Engine.solve, hRun] at hFailed ⊢
        obtain rfl : fault = e := Except.error.inj hFailed
        obtain ⟨id, c, hLeft⟩ := hFails _ _ s' fault hProper (.new _) hRun
        exact ⟨s', id, c, .nothingToFlip id, rfl, hLeft, hLeft.fault, rfl⟩
  · intro hEdgeless strategy s hProper hVisited
    cases hRun : strategy.solve p s with
    | ok answer s' => exact ⟨answer.1, answer.2, s', rfl⟩
    | error e s' =>
        obtain ⟨id, c, hLeft⟩ := hFails strategy s s' e hProper hVisited hRun
        obtain ⟨g, demand, gr, rfl, hGraph, hNone, hNever⟩ := hLeft.exists_edgeless hp
        obtain ⟨a, hHolds⟩ := hEdgeless id g demand gr hLeft.stored hGraph hNone
        exact absurd hHolds (hNever a)

/-- Two vertices without an edge that are to be connected. -/
def Problem.edgeless : Problem :=
  Builder.toProblem <| Builder.after [.addGraph ⟨2, #[], by decide⟩, .demand 0 .whole]

theorem Problem.built_edgeless : edgeless.Built :=
  ⟨_, rfl, ⟨trivial, trivial, trivial⟩, by decide, by decide⟩

/-- The demand on two vertices without an edge is picked for, in vain. The graph of the
small problem has edges, so a search of it returns. -/
theorem search_fails_in_one_way_edgeless :
    (∃ e s' c, Strategy.solve .edgeless (Engine.strategyOf {}) (.new .edgeless (.seeded 0))
        = .error e s' ∧ NothingLeft .edgeless e s' 0 c)
      ∧ ∃ found stats s', Strategy.solve .small (Engine.strategyOf {}) (.new .small (.seeded 0))
        = .ok (found, stats) s' := by
  have hProper : (Engine.strategyOf {}).Proper := by
    apply Engine.proper_strategyOf
    exact if_pos (by decide +kernel)
  constructor
  · obtain ⟨hFails, _⟩ := search_fails_in_one_way Problem.built_edgeless
    have hFailed : (Strategy.solve .edgeless (Engine.strategyOf {})).run'
        (.new .edgeless (.seeded 0)) = none := by
      decide +kernel
    unfold EStateM.run' EStateM.run at hFailed
    cases hRun : Strategy.solve .edgeless (Engine.strategyOf {}) (.new .edgeless (.seeded 0)) with
    | ok answer s' =>
        rw [hRun] at hFailed
        cases hFailed
    | error e s' =>
        obtain ⟨id, c, _, hLeft, _⟩ := hFails _ _ s' e hProper (.new _) hRun
        have hFirst : id < 1 := State.Shaped.lt_of_constraint hLeft.stored
        obtain rfl : id = 0 := by omega
        exact ⟨e, s', c, rfl, hLeft⟩
  · obtain ⟨_, _, hReturns⟩ := search_fails_in_one_way Problem.built_small
    refine hReturns (fun id g demand gr hc hGraph hNone => ?_) _ _ hProper (.new _)
    have hEdges : ∀ gr ∈ Problem.small.graphs.toList, gr.edges.size ≠ 0 := by decide
    have hStored : gr ∈ Problem.small.graphs.toList := by
      simpa using Array.mem_of_getElem? hGraph
    exact absurd (by rw [hNone]; rfl) (hEdges gr hStored)

end LocalRepair
