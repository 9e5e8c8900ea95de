import LocalRepair.Proofs.Search.Attempt

/-!
# What an attempt spends

An attempt counts as one, and its flips are counted where a proposition is turned
over and nowhere else. A step of a walk makes exactly one flip. The loop asks whether
nothing is violated before it asks whether flips are left, so an attempt that ends
without a solution has made all its flips, and one whose seeded assignment is a
solution makes none, also when there are none to make.

## Main results

* `stable_spent`: all steps but turning over leave the counters alone.
* `Walk.ends_attempt_spends`: what an attempt spends that returns.
* `Walk.ends_attempt_of_seeded`: an attempt that seeds a solution.
-/

namespace LocalRepair

open Search State

variable {p : Problem} {s s' : State} {w : Walk} {attempts flips : Nat}

/-! ## Counting flips -/

/-- The numbers of attempts and of flips that were counted. -/
def State.Spent (attempts flips : Nat) (s : State) : Prop :=
  s.tally.attempts = attempts ∧ s.tally.flips = flips

/-- Whatever does not turn a proposition over spends nothing. -/
theorem stable_spent (p : Problem) (attempts flips : Nat) :
    Stable p (fun _ => False) (State.Spent attempts flips) :=
  { setMarks := fun _ _ hs => hs
    setViolated := fun hs _ => hs
    setForest := fun hs _ _ => hs
    setAssignment := fun hs _ => hs
    setGenerator := fun _ hs => hs
    countRandom := fun hs => hs
    touch := fun _ _ hs => hs
    clear := fun hs _ => hs
    turnOver := fun hNever => hNever.elim }

namespace Walk

/-- A flip counts as one. -/
theorem ends_flip_spent (v : Nat) (h : s.Spent attempts flips) :
    Ends (flip p v) s (fun _ => State.Spent attempts (flips + 1)) fun _ _ => True := by
  have hTurn : Ends (turnOver v) s (fun _ => State.Spent attempts (flips + 1))
      fun _ _ => True := by
    unfold turnOver
    rw [ends_bind, ends_get, ends_bind]
    exact ends_of_any (fun _ _ => ⟨h.1, congrArg (· + 1) h.2⟩) fun _ _ => trivial
  have hCarried := (stable_spent p attempts (flips + 1)).carried
  apply hTurn.andThen
  intro value s' h'
  exact ((hCarried.respects_tellAll v value).keeps s' h').mono (fun _ _ hEnd => hEnd)
    fun _ _ _ => trivial

/-- A step of a walk makes one flip. -/
theorem ends_step_spent (w : Walk) (id : Nat) (h : s.Spent attempts flips) :
    Ends (w.step p id) s (fun _ => State.Spent attempts (flips + 1)) fun _ _ => True := by
  have hRobust := (stable_spent p attempts flips).carried.robust
  have hPick : Keeps (w.pick p id) (State.Spent attempts flips) :=
    (hRobust.yields_pick w id).respects.keeps
  unfold step
  refine Ends.andThen ((hPick s h).mono (fun _ _ hEnd => hEnd) fun _ _ _ => trivial) ?_
  intro v s₁ h₁
  show Ends (count _ >>= _) s₁ _ _
  rw [ends_bind]
  exact ends_flip_spent v h₁

/-- Walking makes as many flips as steps. If something stays violated these are all that
there were, and without any the assignment is still the same. -/
theorem ends_run_spent (w : Walk) (h : s.Spent attempts 0) :
    Ends (w.run p) s (fun solved s' => (∃ flips ≤ w.maxFlips, s'.Spent attempts flips
        ∧ (flips = 0 → s'.assignment = s.assignment) ∧ (solved = false → flips = w.maxFlips))
      ∧ s'.violated.isEmpty = solved) fun _ _ => True := by
  let P : Nat → State → Prop := fun made s' =>
    s'.Spent attempts made ∧ (made = 0 → s'.assignment = s.assignment)
  have hStep : ∀ made id s', id ∈ s'.violated.toList → P made s' →
      Ends (w.step p id) s' (fun _ => P (made + 1)) fun _ _ => True := by
    intro made id s' _ h'
    refine (w.ends_step_spent id h'.1).mono (fun _ _ hEnd => ⟨hEnd, fun hZero => ?_⟩)
      fun _ _ hFail => hFail
    exact absurd hZero (Nat.succ_ne_zero made)
  have hLoop := w.ends_runFor hStep (fun _ _ _ h' => h') w.maxFlips 0 s ⟨h, fun _ => rfl⟩
  refine hLoop.mono ?_ fun _ _ hFail => hFail
  rintro solved s' ⟨⟨more, hMore, hEnd, hAll⟩, hSolved⟩
  rw [Nat.zero_add] at hEnd
  exact ⟨⟨more, hMore, hEnd.1, hEnd.2, hAll⟩, hSolved⟩

/-- A walk that has nothing to repair makes no step. -/
theorem run_of_isEmpty (w : Walk) (h : s.violated.isEmpty = true) : w.run p s = .ok true s := by
  unfold run
  cases w.maxFlips with
  | zero =>
      show EStateM.Result.ok s.violated.isEmpty s = _
      rw [h]
  | succ left =>
      show (if s.violated.isEmpty = true then (pure true : Search Bool) else _) s = _
      rw [if_pos h]
      rfl

end Walk

/-! ## Seeding -/

/-- The same state, with given counters for the attempt. -/
def State.Recounted (tally : Stats) (s t : State) : Prop := t = { s with tally }

theorem observed_recounted (tally : Stats) : Observed (State.Recounted tally) :=
  { assignment := by rintro s _ rfl; rfl
    violated := by rintro s _ rfl; rfl
    marks := by rintro s _ rfl; rfl
    generator := by rintro s _ rfl; rfl
    setGenerator := by rintro s _ generator rfl; rfl }

/-- Seeding does not look at the counters. -/
theorem Walk.respects_seed_recounted (w : Walk) (p : Problem) (tally : Stats) :
    Respects (w.seed p) (State.Recounted tally) := by
  have hObserved := observed_recounted tally
  have hClear : Respects clear (State.Recounted tally) := by
    rintro s _ rfl
    apply agree_get
    cases s.violated.clear with
    | error e => exact ⟨rfl, rfl⟩
    | ok empty => exact agree_modify rfl
  have hAssign : ∀ v b, Respects (assign v b) (State.Recounted tally) := by
    rintro v b s _ rfl
    apply agree_get
    dsimp only
    cases s.assignment.set v b with
    | error e => exact ⟨rfl, rfl⟩
    | ok a => exact agree_modify rfl
  have hValue : ∀ v, Respects (w.seeding.seedValue p v) (State.Recounted tally) := by
    intro v
    cases w.seeding with
    | allFalse => exact .pure _
    | byPrior default =>
        apply (respects_of _).bind
        intro prior s t hR
        exact hObserved.agree_chance _ hR (fun b _ _ h => agree_pure b h) fun _ h => h
  exact hClear.bind fun _ => Respects.forM fun v _ => (hValue v).bind fun b => hAssign v b

namespace Walk

theorem seed_recounted (w : Walk) (p : Problem) (s : State) (tally : Stats) :
    w.seed p { s with tally } = match w.seed p s with
      | .ok _ s' => .ok () { s' with tally }
      | .error e s' => .error e { s' with tally } := by
  rcases (w.respects_seed_recounted p tally s _ rfl).cases with
    ⟨_, s₁, t₁, hFirst, hSecond, hEnd⟩ | ⟨e, s₁, t₁, hFirst, hSecond, hEnd⟩
  · rw [hFirst, hSecond, hEnd]
  · rw [hFirst, hSecond, hEnd]

/-- A walk that has seeded an assignment starts, and has a right record of it. -/
theorem ends_start_of_seeded (hp : p.WellFormed) (hs : s.Shaped p) {seeded : State}
    (hSeed : w.seed p s = .ok () seeded) (tally : Stats) :
    Ends (w.start p) { s with tally } (fun _ s' => s'.Tracks p
      ∧ s'.assignment = seeded.assignment ∧ s'.Spent tally.attempts tally.flips) Never := by
  have hKeeps : Keeps (w.seed p) (·.Shaped p) := ((stable_shaped p).carried.respects_seed w).keeps
  have hShaped : seeded.Shaped p := (hKeeps s hs).of_ok hSeed
  have hRecounted : w.seed p { s with tally } = .ok () { seeded with tally } := by
    rw [seed_recounted, hSeed]
  have hStart : State.Shaped { seeded with tally } p := hShaped.of_tables rfl rfl rfl rfl
  rw [w.start_eq, ends_bind]
  unfold Ends
  rw [hRecounted]
  apply (Problem.ends_evaluateAll_tables hp hStart).weaken
  rintro _ s' ⟨hTracks, hTables⟩
  have hTally : s'.tally = tally := hTables.tally
  exact ⟨hTracks, hTables.assignment, by rw [hTally], by rw [hTally]⟩

/-! ## Attempts -/

/-- What an attempt spends that returns from a state. -/
structure Spends (w : Walk) (p : Problem) (s : State) (found : Option Solution) (stats : Stats)
    (s' : State) : Prop where
  attempts : stats.attempts = 1
  flips : stats.flips ≤ w.maxFlips
  exhausted : found = none → stats.flips = w.maxFlips ∧ s'.violated.isEmpty = false
  seeded : ∃ seeded, w.seed p s = .ok () seeded
    ∧ (stats.flips = 0 → s'.assignment = seeded.assignment)

/-- An attempt that returns has spent no more than its budget, and all of it if it found
nothing. -/
theorem ends_attempt_spends (hp : p.WellFormed) (w : Walk) (hs : s.Shaped p) :
    Ends (w.attempt p) s (fun found s' => w.Spends p s found.1 found.2 s') fun _ _ => True := by
  unfold attempt
  apply ends_counting
  unfold startAndRun
  show Ends (w.start p >>= _) { s with tally := { attempts := 1 } } _ _
  cases hSeed : w.seed p s with
  | error e s₁ =>
      rw [w.start_eq, ends_bind, ends_bind]
      unfold Ends
      rw [seed_recounted, hSeed]
      trivial
  | ok _ seeded =>
      apply (ends_start_of_seeded hp hs hSeed { attempts := 1 }).bind
      rintro _ s₂ ⟨_, hSame, hSpent⟩
      rw [ends_bind, ends_get]
      apply (w.ends_run_spent hSpent).andThen
      rintro solved s₃ ⟨⟨flips, hFlips, hCounted, hKept, hAll⟩, hSolved⟩
      rw [ends_bind, ends_get]
      have hSpends : ∀ (found : Option Solution) (randomPicks : Nat),
          (found = none → solved = false) →
          w.Spends p s found { s₃.tally with randomPicks } { s₃ with tally := s.tally } := by
        intro found randomPicks hNone
        obtain ⟨hAttempts, hEqual⟩ := hCounted
        refine
          { attempts := hAttempts, flips := hEqual.trans_le hFlips, exhausted := fun hFound => ?_
            seeded := ⟨seeded, hSeed, fun hZero => ?_⟩ }
        · exact ⟨hEqual.trans (hAll (hNone hFound)), hSolved.trans (hNone hFound)⟩
        · exact (hKept (hEqual.symm.trans hZero)).trans hSame
      cases solved with
      | true => exact hSpends _ _ fun hNone => nomatch hNone
      | false => exact hSpends none _ fun _ => rfl

/-- An attempt that seeds a solution returns it without a flip. -/
theorem ends_attempt_of_seeded (hp : p.WellFormed) (hs : s.Shaped p) {seeded : State}
    (hSeed : w.seed p s = .ok () seeded) (hSolves : p.Solves seeded.assignment) :
    Ends (w.attempt p) s (fun found s' => found.1 = some (.ofProblem p seeded.assignment)
      ∧ found.2.flips = 0 ∧ s'.assignment = seeded.assignment) Never := by
  unfold attempt
  apply ends_counting
  unfold startAndRun
  show Ends (w.start p >>= _) { s with tally := { attempts := 1 } } _ _
  apply (ends_start_of_seeded hp hs hSeed { attempts := 1 }).bind
  rintro _ s₂ ⟨hTracks, hSame, hSpent⟩
  have hEmpty : s₂.violated.isEmpty = true := hTracks.isEmpty_of_solves (hSame ▸ hSolves)
  rw [ends_bind, ends_get, ends_bind]
  unfold Ends
  rw [w.run_of_isEmpty hEmpty]
  exact ⟨by rw [hSame], hSpent.2, hSame⟩

end Walk
end LocalRepair
