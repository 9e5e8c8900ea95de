import LocalRepair.Proofs.Builder
import LocalRepair.Proofs.Search.Attempt

/-!
# The states that searches reach

Two sets of states matter. A state of a problem is `Visited` if a search can have
left it behind, in whatever order it was seeded, cleared, evaluated, walked from
or searched, and whether these steps returned or failed. It is `Reached` if since
its constraints were last evaluated there were only flips, questions and picks.

A visited state has the shape that an evaluation needs. A reached state has a
right record: evaluating makes it right and no move ever makes it wrong, however
many moves follow.

## Main results

* `Visited.shaped`, `Reached.tracks`: the invariants of the two sets.
* `evaluated_and_moved`: evaluation and flips succeed, and the violated
  constraints are exactly those that do not hold.
-/

namespace LocalRepair

open Search State

variable {p : Problem} {turns : Nat → Prop} {P : State → Prop} {s s' : State}

/-! ## Moves -/

/-- What may happen between two evaluations: flips, questions about constraints
and propositions, and picks of a constraint among its propositions. -/
inductive Move where
  | flip (v : Nat)
  | holdsNow (id : Nat)
  | risk (id v : Nat) (value : Bool)
  | favours (id v : Nat)
  | netRisk (v : Nat) (value : Bool)
  | greedyPick (id : Nat)
  | randomPick (id : Nat)

namespace Move

/-- The move as a step, without its answer. -/
def perform (p : Problem) : Move → Search Unit
  | flip v => Walk.flip p v
  | holdsNow id => do let _b ← (← Search.of (p.constraint id)).holdsNow id
  | risk id v value => do let _d ← (← Search.of (p.constraint id)).risk id v value
  | favours id v => do let _b ← (← Search.of (p.constraint id)).favours id v
  | netRisk v value => do let _d ← p.netRisk v value
  | greedyPick id => do let _v ← greedyPickFor p id (← Search.of (p.constraint id))
  | randomPick id => do let _v ← randomPickFor p id (← Search.of (p.constraint id))

/-- A move keeps a stable property, if it turns over only what may be turned over.
-/
theorem keeps_stable (h : Stable p turns P) (move : Move) (hFlip : ∀ v, move = flip v → turns v) :
    Keeps (move.perform p) P := by
  have hCarried := h.carried
  have hRobust := hCarried.robust
  apply Respects.keeps
  cases move with
  | flip v => exact hCarried.respects_flip (hFlip v rfl)
  | holdsNow id =>
      exact Problem.respects_constraint id fun c _ =>
        (hCarried.respects_holdsNow id c).bind fun _ => .pure _
  | risk id v value =>
      exact Problem.respects_constraint id fun c _ =>
        (hCarried.respects_risk id v value c).bind fun _ => .pure _
  | favours id v =>
      exact Problem.respects_constraint id fun c _ =>
        (hCarried.respects_favours id v c).bind fun _ => .pure _
  | netRisk v value => exact (hCarried.respects_netRisk v value).bind fun _ => .pure _
  | greedyPick id =>
      exact Problem.respects_constraint id fun c hc =>
        (hRobust.yields_greedyPickFor hc).respects.bind fun _ => .pure _
  | randomPick id =>
      exact Problem.respects_constraint id fun c _ =>
        (hRobust.yields_randomPick id _).respects.bind fun _ => .pure _

/-- Every move but a flip also leaves the assignment as it is. -/
theorem keeps_tracksAt (hp : p.WellFormed) (a : Assignment) (move : Move)
    (hMove : ∀ v, move ≠ flip v) :
    Keeps (move.perform p) fun s => s.Tracks p ∧ s.assignment = a := by
  have hRobust := robust_tracks hp a
  apply Respects.keeps
  cases move with
  | flip v => exact absurd rfl (hMove v)
  | holdsNow id =>
      apply Problem.respects_constraint id
      intro c hc
      have hKeeps : Keeps (c.holdsNow id) fun s => s.Tracks p ∧ s.assignment = a := by
        apply Inquires.keeps
        intro s hs
        obtain ⟨b, _, hHolds⟩ := c.inquires_holdsNow hp hs hc
        exact ⟨_, hHolds⟩
      exact hKeeps.respects.bind fun _ => .pure _
  | risk id v value =>
      apply Problem.respects_constraint id
      intro c hc
      have hKeeps : Keeps (c.risk id v value) fun s => s.Tracks p ∧ s.assignment = a := by
        apply Inquires.keeps
        intro s hs
        obtain ⟨risk, hRisk⟩ := c.inquires_risk hp hs hc v value
        exact ⟨_, hRisk⟩
      exact hKeeps.respects.bind fun _ => .pure _
  | favours id v =>
      exact Problem.respects_constraint id fun c hc =>
        (hRobust.favours id c v hc).bind fun _ => .pure _
  | netRisk v value => exact (hRobust.netRisk v value).bind fun _ => .pure _
  | greedyPick id =>
      exact Problem.respects_constraint id fun c hc =>
        (hRobust.yields_greedyPickFor hc).respects.bind fun _ => .pure _
  | randomPick id =>
      exact Problem.respects_constraint id fun c _ =>
        (hRobust.yields_randomPick id _).respects.bind fun _ => .pure _

theorem keeps_tracks (hp : p.WellFormed) (move : Move) :
    Keeps (move.perform p) (·.Tracks p) := by
  by_cases hMove : ∀ v, move ≠ flip v
  · exact Keeps.forget State.assignment fun a => move.keeps_tracksAt hp a hMove
  · push Not at hMove
    obtain ⟨v, rfl⟩ := hMove
    exact Walk.keeps_flip_tracks hp v

end Move

/-! ## Acts -/

/-- What may happen to the state of a search at all. -/
inductive Act where
  | move (move : Move)
  | assign (v : Nat) (value : Bool)
  | clear
  | evaluateAll
  | start (w : Walk)
  | run (w : Walk)
  | solve (strategy : Strategy)

namespace Act

/-- The act as a step, without its answer. -/
def perform (p : Problem) : Act → Search Unit
  | move m => m.perform p
  | assign v value => Search.assign v value
  | clear => Walk.clear
  | evaluateAll => p.evaluateAll
  | start w => w.start p
  | run w => do let _solved ← w.run p
  | solve strategy => do let _found ← strategy.solve p

/-- An act keeps a stable property that does not depend on the counters, if it
turns over only what may be turned over. -/
theorem keeps_stable (h : Stable p turns P) (hTurns : p.Turnable turns)
    (hTally : ∀ (s : State) (tally : Stats), P s → P { s with tally }) (act : Act)
    (hFlip : ∀ v, act = move (.flip v) → turns v) : Keeps (act.perform p) P := by
  have hCarried := h.carried
  cases act with
  | move m => exact m.keeps_stable h fun v hEq => hFlip v (by rw [hEq])
  | assign v value => exact (hCarried.respects_assign v value).keeps
  | clear => exact h.keeps_clear
  | evaluateAll => exact hCarried.respects_evaluateAll.keeps
  | start w => exact (hCarried.respects_start w).keeps
  | run w => exact (hCarried.respects_run hTurns w).keeps.bind fun _ => .pure _
  | solve strategy => exact (strategy.keeps_solve h hTurns hTally).bind fun _ => .pure _

end Act

/-! ## Visited and reached states -/

/-- The states that searches of a problem leave behind, from a new one on. An
assignment or a generator may be put in from outside at any time. -/
inductive Visited (p : Problem) : State → Prop where
  | new (generator : ChaCha) : Visited p (.new p generator)
  | seeded {s : State} (h : Visited p s) (assignment : Assignment) (generator : ChaCha)
      (covers : assignment.values.size = p.propositionCount + 1) :
      Visited p { s with assignment, generator }
  | acted {s : State} (h : Visited p s) (act : Act) : Visited p (leftBy (act.perform p) s)

/-- The states of a search whose constraints were evaluated, with only moves
since then. -/
inductive Reached (p : Problem) : State → Prop where
  | evaluated {s s' : State} (h : Visited p s) (run : p.evaluateAll s = .ok () s') : Reached p s'
  | moved {s : State} (h : Reached p s) (move : Move) : Reached p (leftBy (move.perform p) s)

theorem shaped_new (p : Problem) (generator : ChaCha) : (State.new p generator).Shaped p := by
  refine ⟨Assignment.size_allFalse _, IndexSet.fits_empty _, by simp [State.new], ?_⟩
  simp only [State.new, Array.map_map]
  exact Array.map_id _

/-- A visited state has a shape. -/
theorem Visited.shaped (h : Visited p s) : s.Shaped p := by
  induction h with
  | new generator => exact shaped_new p generator
  | seeded _ assignment generator covers ih => exact ⟨covers, ih.violated, ih.marks, ih.graphs⟩
  | acted _ act ih =>
      have hKeeps := act.keeps_stable (stable_shaped p) (fun _ _ _ _ _ => trivial)
        (fun _ _ hs => hs.of_tables rfl rfl rfl rfl) fun _ _ => trivial
      exact (hKeeps _ ih).leftBy

/-- A reached state has a right record. -/
theorem Reached.tracks (hp : p.WellFormed) (h : Reached p s) : s.Tracks p := by
  induction h with
  | evaluated h run => exact ((Problem.ends_evaluateAll hp h.shaped).of_ok run).1
  | moved _ move ih => exact (move.keeps_tracks hp _ ih).leftBy

/-- What a step that returned has left behind. -/
theorem leftBy_of_ok {ε σ α : Type} {x : EStateM ε σ α} {s s' : σ} {a : α}
    (h : x s = .ok a s') : leftBy x s = s' := by
  rw [leftBy, h]

/-- After a flip that returned the state is still reached. -/
theorem Reached.flip (h : Reached p s) {v : Nat} (hRun : Walk.flip p v s = .ok () s') :
    Reached p s' := by
  rw [← leftBy_of_ok hRun]
  exact h.moved (.flip v)

/-- Evaluating a new state reaches a state in which everything is false. -/
theorem exists_reached (hp : p.WellFormed) :
    ∃ s, Reached p s ∧ s.assignment = .allFalse p.propositionCount := by
  have hNew : Visited p (.new p (.seeded 0)) := .new _
  obtain ⟨_, s, hRun, _, hSame⟩ :=
    (Problem.ends_evaluateAll hp hNew.shaped).exists_ok
  exact ⟨s, .evaluated hNew hRun, hSame⟩

/-- From any visited state and for any assignment to the propositions of a
problem, the constraints can be evaluated. From then on, whatever moves follow,
every flip of a proposition succeeds, and a constraint is recorded as violated
exactly when it does not hold for the assignment at hand. -/
theorem evaluated_and_moved (hp : p.Built) :
    (∀ s a generator, Visited p s → a.values.size = p.propositionCount + 1 →
      ∃ s', p.evaluateAll { s with assignment := a, generator } = .ok () s' ∧ s'.assignment = a
        ∧ Reached p s')
      ∧ ∀ s, Reached p s →
        (∀ v, Named p.propositionCount v →
          ∃ s', Walk.flip p v s = .ok () s' ∧ s.assignment.Flipped v s'.assignment ∧ Reached p s')
        ∧ (∀ id c, p.constraints[id]? = some c →
          ∃ b, s.violated.contains id = .ok b ∧ (b = true ↔ ¬ c.Holds p.graphs s.assignment))
        ∧ ∀ id, id ∈ s.violated.toList
          ↔ ∃ c, p.constraints[id]? = some c ∧ ¬ c.Holds p.graphs s.assignment := by
  have hWellFormed := hp.wellFormed
  constructor
  · intro s a generator hVisited hCovers
    have hSeeded := hVisited.seeded a generator hCovers
    obtain ⟨_, s', hRun, _, hSame⟩ :=
      (Problem.ends_evaluateAll hWellFormed hSeeded.shaped).exists_ok
    exact ⟨s', hRun, hSame, .evaluated hSeeded hRun⟩
  · intro s hReached
    have hTracks := hReached.tracks hWellFormed
    have hFlips : ∀ v, Named p.propositionCount v →
        ∃ s', Walk.flip p v s = .ok () s' ∧ s.assignment.Flipped v s'.assignment
          ∧ Reached p s' := by
      intro v hv
      obtain ⟨_, s', hRun, _, hFlipped⟩ := (Walk.ends_flip hWellFormed hTracks hv.2).exists_ok
      exact ⟨s', hRun, hFlipped, hReached.flip hRun⟩
    have hContains : ∀ id c, p.constraints[id]? = some c →
        ∃ b, s.violated.contains id = .ok b ∧ (b = true ↔ ¬ c.Holds p.graphs s.assignment) := by
      intro id c hc
      have hEntry := hTracks.violated.contains_eq (Shaped.lt_of_constraint hc)
      have hViolated := (hTracks.settled id c hc).violated
      exact ⟨_, hEntry, decide_eq_true_iff.trans hViolated⟩
    have hMembers : ∀ id, id ∈ s.violated.toList
        ↔ ∃ c, p.constraints[id]? = some c ∧ ¬ c.Holds p.graphs s.assignment := by
      intro id
      constructor
      · intro hMem
        have hc := Array.getElem?_eq_getElem (hTracks.violated.lt_of_mem hMem)
        exact ⟨_, hc, (hTracks.settled id _ hc).violated.mp hMem⟩
      · rintro ⟨c, hc, hViolated⟩
        exact (hTracks.settled id c hc).violated.mpr hViolated
    exact ⟨hFlips, hContains, hMembers⟩

/-- The clause of the small problem is violated while everything is false, and
no longer after its repeated literal was flipped. -/
theorem evaluated_and_moved_small :
    ∃ s s', Problem.small.evaluateAll { State.new .small (.seeded 0) with
        assignment := .allFalse 3, generator := .seeded 0 } = .ok () s
      ∧ Walk.flip .small 1 s = .ok () s' ∧ 0 ∈ s.violated.toList ∧ 0 ∉ s'.violated.toList := by
  obtain ⟨hEvaluated, hMoved⟩ := evaluated_and_moved Problem.built_small
  obtain ⟨s, hRun, hSame, hReached⟩ :=
    hEvaluated _ (.allFalse 3) (.seeded 0) (.new (.seeded 0)) (by decide)
  obtain ⟨hFlips, _, hBefore⟩ := hMoved s hReached
  obtain ⟨s', hFlip, hFlipped, hReached'⟩ := hFlips 1 (by decide)
  obtain ⟨_, _, hAfter⟩ := hMoved s' hReached'
  have hClause : Problem.small.constraints[0]?
      = some (.clause (.exactly [⟨1⟩, ⟨1⟩, ⟨-2⟩] 3)) := rfl
  refine ⟨s, s', hRun, hFlip, (hBefore 0).mpr ⟨_, hClause, ?_⟩, fun hMem => ?_⟩
  · rw [hSame]
    show ¬ Clause.Holds _ _
    decide
  · obtain ⟨c, hc, hViolated⟩ := (hAfter 0).mp hMem
    rw [hClause] at hc
    obtain rfl := Option.some.inj hc
    apply hViolated
    have hOne : s'.assignment.isTrue 1 = true := by
      rw [hFlipped.self, hSame]
      decide
    have hTwo : s'.assignment.isTrue 2 = false := by
      rw [hFlipped.other 2 (by decide), hSame]
      decide
    show 3 ≤ Clause.truePositions _ _ ∧ Clause.truePositions _ _ ≤ 3
    simp [Clause.truePositions, Clause.exactly, Clause.window, Literal.proposition,
      Literal.isTrueUnder, Literal.isPositive, hOne, hTwo]

end LocalRepair
