import LocalRepair.Engine
import LocalRepair.Proofs.Search.Reached

/-!
# Searches are sound

Whatever a search answers with solves the problem. It does not matter which
strategy was used, how much was spent, what the generator drew, or what earlier
searches left behind in the state or in the engine.

A solution that is evaluated again, in a state of its own, is found to violate
nothing. So the answer can be checked with the means of the library, and the
check agrees with what the constraints mean.

## Main results

* `Problem.exists_stateOf`: any assignment to the propositions can be evaluated.
* `found_is_solution`: strategies and engines answer with solutions.
-/

namespace LocalRepair

open Search State

variable {p : Problem} {a : Assignment}

namespace Problem

/-- An assignment to the propositions of a problem can be evaluated, and the
record is right about it. -/
theorem exists_stateOf (hp : p.WellFormed) (ha : a.values.size = p.propositionCount + 1)
    (generator : ChaCha) :
    ∃ s, p.stateOf a generator = .ok s ∧ s.Tracks p ∧ s.assignment = a := by
  have hNew := shaped_new p generator
  have hShaped : State.Shaped { State.new p generator with assignment := a } p :=
    ⟨ha, hNew.violated, hNew.marks, hNew.graphs⟩
  obtain ⟨_, s, hRun, hTracks, hSame⟩ := (ends_evaluateAll hp hShaped).exists_ok
  refine ⟨s, ?_, hTracks, hSame⟩
  rw [stateOf, hRun]

/-- An assignment that solves a problem is found to violate nothing. -/
theorem Solves.violatedBy_eq (h : p.Solves a) (hp : p.WellFormed) : p.violatedBy a = .ok [] := by
  obtain ⟨s, hState, hTracks, hSame⟩ := exists_stateOf hp h.1 (.seeded 0)
  have hEmpty := hTracks.isEmpty_of_solves (hSame ▸ h)
  have hNone : s.violated.toList = [] := by
    simpa [IndexSet.isEmpty, IndexSet.toList] using hEmpty
  rw [violatedBy, hState]
  show Except.ok s.violated.toList.mergeSort = _
  rw [hNone, List.mergeSort_nil]

end Problem

/-- A solution that a strategy answers with, from any state that earlier searches
of the problem left behind, solves the problem and is found to violate nothing.
So does a solution that an engine answers with, whatever it did before. -/
theorem found_is_solution (hp : p.Built) :
    (∀ (strategy : Strategy) (s s' : State) (solution : Solution) (stats : Stats),
      Visited p s → strategy.solve p s = .ok (some solution, stats) s' →
        p.Solves solution.assignment ∧ p.violatedBy solution.assignment = .ok [])
      ∧ ∀ (e : Engine) (solution : Solution) (stats : Stats),
        (e.solve p).1 = .ok (some solution, stats) →
          p.Solves solution.assignment ∧ p.violatedBy solution.assignment = .ok [] := by
  have hWellFormed := hp.wellFormed
  have hStrategy : ∀ (strategy : Strategy) (s s' : State) (solution : Solution) (stats : Stats),
      s.Shaped p → strategy.solve p s = .ok (some solution, stats) s' →
        p.Solves solution.assignment ∧ p.violatedBy solution.assignment = .ok [] := by
    intro strategy s s' solution stats hShaped hRun
    have hSolves := ((strategy.finds_solve hWellFormed s hShaped).of_ok hRun).2 solution rfl
    exact ⟨hSolves, hSolves.violatedBy_eq hWellFormed⟩
  constructor
  · intro strategy s s' solution stats hVisited
    exact hStrategy strategy s s' solution stats hVisited.shaped
  · intro e solution stats hFound
    cases hRun : e.strategy.solve p (.new p (.seeded e.generator.doubleWord.1)) with
    | ok answer s' =>
        simp only [Engine.solve, hRun] at hFound
        rw [Except.ok.inj hFound] at hRun
        exact hStrategy e.strategy _ s' solution stats (shaped_new p _) hRun
    | error e s' =>
        simp only [Engine.solve, hRun] at hFound
        cases hFound

/-- A walk solves the small problem, starting from a new state. -/
theorem found_is_solution_small :
    ∃ solution stats s', Strategy.solve .small
        (.walk { selection := .lowest, seeding := .allFalse, maxFlips := 3 })
        (.new .small (.seeded 0)) = .ok (some solution, stats) s'
      ∧ Problem.small.Solves solution.assignment
      ∧ Problem.small.violatedBy solution.assignment = .ok [] := by
  have hFound : ((Strategy.solve .small
      (.walk { selection := .lowest, seeding := .allFalse, maxFlips := 3 })).run'
        (.new .small (.seeded 0))).any (·.1.isSome) = true := by decide +kernel
  unfold EStateM.run' EStateM.run at hFound
  cases hRun : Strategy.solve .small
      (.walk { selection := .lowest, seeding := .allFalse, maxFlips := 3 })
      (.new .small (.seeded 0)) with
  | ok answer s' =>
      rw [hRun] at hFound
      obtain ⟨solution, hSolution⟩ := Option.isSome_iff_exists.mp hFound
      obtain ⟨_, stats⟩ := answer
      obtain rfl := hSolution
      exact ⟨solution, stats, s', rfl, (found_is_solution Problem.built_small).1 _ _ s' solution
        stats (.new (.seeded 0)) hRun⟩
  | error e s' =>
      rw [hRun] at hFound
      cases hFound

end LocalRepair
