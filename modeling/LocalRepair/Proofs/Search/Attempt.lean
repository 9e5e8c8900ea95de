import LocalRepair.Strategy
import LocalRepair.Proofs.Search.Flip
import LocalRepair.Proofs.Search.Picks

/-!
# What a search finds is a solution

The loop of a walk looks at one thing only, whether the record has a violated
constraint left. The record is right when the walk starts, because starting
evaluates every constraint, whatever an earlier attempt left behind; picks leave
it right, and so do flips. So when the loop stops because nothing is violated,
the assignment solves the problem.

An attempt may also fail on the way. What it leaves behind then has at least the
shape of a state, and that is enough for the next attempt, since it starts with
an evaluation again.

## Main results

* `State.Tracks.solves`: a right record without violated constraints.
* `Carried.respects_run`: walking, side by side.
* `Walk.ends_runFor`: the loop.
* `Strategy.finds_solve`: any strategy of walks and restarts.
-/

namespace LocalRepair

open Search State

variable {α : Type} {p : Problem} {turns : Nat → Prop} {R : State → State → Prop} {s s' : State}
  {P : State → Prop}

/-- If the record is right and nothing is recorded as violated, the assignment
solves the problem. -/
theorem State.Tracks.solves (h : s.Tracks p) (hEmpty : s.violated.isEmpty = true) :
    p.Solves s.assignment := by
  refine ⟨h.assignment, fun c hc => ?_⟩
  obtain ⟨id, hId⟩ := Array.mem_iff_getElem?.mp hc
  have hNone : id ∉ s.violated.toList := by
    have hMembers : s.violated.members = #[] := by
      simpa [IndexSet.isEmpty] using hEmpty
    simp [IndexSet.toList, hMembers]
  by_contra hViolated
  exact hNone ((h.settled id c hId).violated.mpr hViolated)

/-- If the record is right and the assignment solves the problem, nothing is recorded as
violated. -/
theorem State.Tracks.isEmpty_of_solves (h : s.Tracks p) (hSolves : p.Solves s.assignment) :
    s.violated.isEmpty = true := by
  have hNone : s.violated.toList = [] := by
    rw [List.eq_nil_iff_forall_not_mem]
    intro id hMem
    have hc := Array.getElem?_eq_getElem (h.violated.lt_of_mem hMem)
    exact (h.settled id _ hc).violated.mp hMem (hSolves.2 _ (Array.mem_of_getElem? hc))
  simpa [IndexSet.isEmpty, IndexSet.toList] using hNone

/-- What is kept for each value of something is kept. -/
theorem Keeps.forget {β : Type} {x : Search α} (of : State → β)
    (h : ∀ b, Keeps x fun s => P s ∧ of s = b) : Keeps x P := by
  intro s hs
  exact (h (of s) s ⟨hs, rfl⟩).mono (fun _ _ hEnd => hEnd.1) fun _ _ hEnd => hEnd.1

/-! ## Selecting -/

/-- Selecting finds a violated constraint unless there is none, and changes
nothing but the generator. -/
theorem Selection.ends_select (selection : Selection) (s : State)
    {fails : Fault → State → Prop} :
    Ends selection.select s (fun found s' => (found = none → s.violated.isEmpty = true)
      ∧ (∀ id, found = some id → id ∈ s.violated.toList)
      ∧ s' = { s with generator := s'.generator }) fails := by
  cases selection with
  | random => exact ⟨IndexSet.isEmpty_of_choose_none, fun _ => IndexSet.mem_of_choose, rfl⟩
  | lowest => exact ⟨IndexSet.isEmpty_of_least?_none, fun _ => List.min?_mem, rfl⟩

/-! ## Walking side by side -/

/-- Every proposition that a constraint mentions may be turned over. -/
def Problem.Turnable (p : Problem) (turns : Nat → Prop) : Prop :=
  ∀ (id : Nat) (c : Constraint) (v : Nat), p.constraints[id]? = some c → v ∈ p.propositionsOf c →
    turns v

namespace Carried

variable (h : Carried p turns R)
include h

theorem respects_select (selection : Selection) : Respects selection.select R := by
  intro s t hR
  cases selection with
  | random =>
      apply agree_get
      rw [← h.violated hR]
      exact h.respects_draw _ s t hR
  | lowest =>
      apply agree_get
      rw [← h.violated hR]
      exact agree_pure _ hR

theorem respects_step (hTurns : p.Turnable turns) (w : Walk) (id : Nat) :
    Respects (w.step p id) R := by
  have hAfter : ∀ v, turns v → Respects (do
      Search.count fun t => t.countPick id
      Walk.flip p v) R := by
    intro v hv
    have hCount : Respects (Search.count fun t => t.countPick id) R :=
      fun _ _ hR => agree_modify (h.touch id _ hR)
    exact hCount.bind fun _ => h.respects_flip hv
  intro s t hR
  apply (h.robust.yields_pick w id s t hR).andThen
  rintro v s' t' ⟨hR', c, hc, hv⟩
  exact hAfter v (hTurns id c v hc hv) s' t' hR'

theorem respects_runFor (hTurns : p.Turnable turns) (w : Walk) (left : Nat) :
    Respects (w.runFor p left) R := by
  induction left with
  | zero =>
      intro s t hR
      apply agree_get
      rw [← h.violated hR]
      exact agree_pure _ hR
  | succ left ih =>
      intro s t hR
      apply agree_get
      rw [← h.violated hR]
      apply Agree.ite (fun _ => agree_pure true hR)
      intro _
      apply (h.respects_select w.selection s t hR).andThen
      intro found s' t' hR'
      cases found with
      | none => exact agree_pure true hR'
      | some id => exact ((h.respects_step hTurns w id).bind fun _ => ih) s' t' hR'

/-- Walking respects what its single steps respect. -/
theorem respects_run (hTurns : p.Turnable turns) (w : Walk) : Respects (w.run p) R :=
  h.respects_runFor hTurns w w.maxFlips

end Carried

/-! ## Stepping and looping -/

namespace Walk

/-- A flip keeps a right record, also when it is refused. -/
theorem keeps_flip_tracks (hp : p.WellFormed) (v : Nat) : Keeps (flip p v) (·.Tracks p) := by
  intro s h
  by_cases hv : v ≤ p.propositionCount
  · exact (ends_flip hp h hv).weaken fun _ _ hEnd => hEnd.1
  · -- A number beyond the assignment is refused before anything changes.
    have hOut : s.assignment.values.size ≤ v := by
      rw [h.assignment]
      omega
    unfold Ends flip
    rw [bind_of_error (turnOver_refused hOut)]
    exact h

/-- A step of a walk keeps a right record. -/
theorem keeps_step_tracks (hp : p.WellFormed) (w : Walk) (id : Nat) :
    Keeps (w.step p id) (·.Tracks p) := by
  have hPick : Keeps (w.pick p id) (·.Tracks p) :=
    Keeps.forget State.assignment fun a => ((robust_tracks hp a).yields_pick w id).respects.keeps
  refine hPick.bind fun v => Keeps.bind (fun s hs => ?_) fun _ => keeps_flip_tracks hp v
  exact hs.of_tables rfl rfl rfl rfl

/-- The loop, with a property of the state and of the number of steps that were
made. Steps are made for violated constraints. The loop answers whether nothing is
violated, and if something is, then all steps were made that there were. -/
theorem ends_runFor {P : Nat → State → Prop} {fails : Fault → State → Prop} (w : Walk)
    (hStep : ∀ made id s, id ∈ s.violated.toList → P made s →
      Ends (w.step p id) s (fun _ => P (made + 1)) fails)
    (hDraw : ∀ made s generator, P made s → P made { s with generator }) :
    ∀ (left made : Nat) (s : State), P made s →
      Ends (w.runFor p left) s
        (fun solved s' =>
          (∃ more, more ≤ left ∧ P (made + more) s' ∧ (solved = false → more = left))
          ∧ s'.violated.isEmpty = solved) fails := by
  intro left
  induction left with
  | zero => exact fun made s h => ⟨⟨0, Nat.le_refl 0, h, fun _ => rfl⟩, rfl⟩
  | succ left ih =>
      intro made s h
      rw [runFor, ends_bind, ends_get]
      refine ends_ite (fun hEmpty => ⟨⟨0, by omega, h, fun hNot => nomatch hNot⟩, hEmpty⟩)
        fun hLeft => ?_
      apply (w.selection.ends_select s).andThen
      rintro found s' ⟨hFound, hMember, hSame⟩
      cases found with
      | none => exact absurd (hFound rfl) hLeft
      | some id =>
          have hSelected : P made s' := hSame ▸ hDraw made s _ h
          have hViolated : id ∈ s'.violated.toList := by
            rw [hSame]
            exact hMember id rfl
          show Ends (w.step p id >>= fun _ => w.runFor p left) s' _ _
          apply (hStep made id s' hViolated hSelected).andThen
          intro _ s'' hNext
          refine (ih (made + 1) s'' hNext).mono ?_ fun _ _ hFail => hFail
          rintro solved s₃ ⟨⟨more, hMore, hEnd, hAll⟩, hSolved⟩
          refine ⟨⟨more + 1, by omega, ?_, fun hNot => ?_⟩, hSolved⟩
          · rw [← Nat.add_right_comm, Nat.add_assoc] at hEnd
            exact hEnd
          · rw [hAll hNot]

/-! ## Attempts -/

/-- A walk that has started has a right record. -/
theorem ends_start (hp : p.WellFormed) (w : Walk) (h : s.Shaped p) :
    Ends (w.start p) s (fun _ s' => s'.Tracks p) fun _ s' => s'.Shaped p := by
  have hSeed : Keeps (w.seed p) (·.Shaped p) := ((stable_shaped p).carried.respects_seed w).keeps
  rw [w.start_eq]
  apply (hSeed s h).andThen
  intro _ s₁ h₁
  exact (Problem.ends_evaluateAll hp h₁).weaken fun _ _ hEnd => hEnd.1

/-- What an attempt answers with solves the problem. -/
theorem ends_startAndRun (hp : p.WellFormed) (w : Walk) (h : s.Shaped p) :
    Ends (w.startAndRun p) s (fun found s' => s'.Shaped p
        ∧ ∀ solution, found = some solution → p.Solves solution.assignment)
      fun _ s' => s'.Shaped p := by
  have hRun : ∀ s : State, s.Tracks p → Ends (w.run p) s
      (fun solved s' => s'.Tracks p ∧ s'.violated.isEmpty = solved) fun _ s' => s'.Tracks p := by
    intro s hs
    have hStep : ∀ (_made id : Nat) (s : State), id ∈ s.violated.toList → s.Tracks p →
        Ends (w.step p id) s (fun _ s' => s'.Tracks p) fun _ s' => s'.Tracks p :=
      fun _ id s _ hs => keeps_step_tracks hp w id s hs
    have hLoop := w.ends_runFor (P := fun _ s => s.Tracks p) hStep
      (fun _ _ _ hs => hs.of_tables rfl rfl rfl rfl) w.maxFlips 0 s hs
    refine hLoop.mono ?_ fun _ _ hFail => hFail
    rintro solved s' ⟨⟨_, _, hTracks, _⟩, hSolved⟩
    exact ⟨hTracks, hSolved⟩
  have hCount : ∀ change, Keeps (count change) (·.Shaped p) :=
    fun _ _ hs => hs.of_tables rfl rfl rfl rfl
  unfold startAndRun
  apply (hCount _ s h).andThen
  intro _ s₁ h₁
  apply (w.ends_start hp h₁).andThen
  intro _ s₂ h₂
  rw [ends_bind, ends_get, ends_bind]
  refine (hRun s₂ h₂).mono ?_ fun _ _ hFail => hFail.toShaped
  rintro solved s₃ ⟨hTracks, hSolved⟩
  have hShaped := hTracks.toShaped
  rw [ends_bind, ends_get]
  apply (hCount _ s₃ hShaped).andThen
  intro _ s₄ h₄
  refine ends_ite (fun hDone => ⟨h₄, ?_⟩) fun _ => ⟨h₄, by simp⟩
  rintro solution hSolution
  rw [← Option.some.inj hSolution]
  exact hTracks.solves (hSolved.trans hDone)

end Walk

/-- A step with counters of its own ends as the step does, with the counters from
before. -/
theorem Search.ends_counting {x : Search α} {returns : α × Stats → State → Prop}
    {fails : Fault → State → Prop}
    (h : Ends x { s with tally := {} }
      (fun a s' => returns (a, s'.tally) { s' with tally := s.tally })
      fun e s' => fails e { s' with tally := s.tally }) :
    Ends (counting x) s returns fails := by
  unfold Ends counting
  unfold Ends at h
  cases hRun : x { s with tally := {} } with
  | ok a s' =>
      rw [hRun] at h
      exact h
  | error e s' =>
      rw [hRun] at h
      exact h

namespace Strategy

/-- Repeating keeps what a single search keeps. -/
theorem keeps_repeated {search : Search (Option Solution × Stats)} (h : Keeps search P)
    (policy : Restarts) (further : Nat) :
    ∀ total : Stats, Keeps (repeated search policy further total) P := by
  induction further with
  | zero => exact fun total => h.bind fun found => .pure _
  | succ further ih =>
      intro total
      exact h.bind fun found => Keeps.ite (.pure _) (ih _)

/-- A stable property that does not depend on the counters is kept by every
strategy. -/
theorem keeps_solve (h : Stable p turns P) (hTurns : p.Turnable turns)
    (hTally : ∀ (s : State) (tally : Stats), P s → P { s with tally }) (strategy : Strategy) :
    Keeps (strategy.solve p) P := by
  have hCount : ∀ change, Keeps (count change) P := fun change s hs => hTally s _ hs
  induction strategy with
  | walk w =>
      have hAttempt : Keeps (w.startAndRun p) P := by
        apply (hCount _).bind
        intro _
        apply (h.carried.respects_start w).keeps.bind
        intro _
        apply Keeps.get.bind
        intro before
        apply (h.carried.respects_run hTurns w).keeps.bind
        intro solved
        apply Keeps.get.bind
        intro after
        exact (hCount _).bind fun _ => Keeps.ite (.pure _) (.pure _)
      intro s hs
      apply Search.ends_counting
      refine (hAttempt _ (hTally s {} hs)).mono ?_ ?_
      · exact fun _ s' hs' => hTally s' s.tally hs'
      · exact fun _ s' hs' => hTally s' s.tally hs'
  | restarting inner policy ih => exact keeps_repeated ih policy policy.bound {}

/-- A search from a state with a shape: it answers with solutions only, and
leaves a state with a shape. -/
def FindsSolutions (search : Search (Option Solution × Stats)) (p : Problem) : Prop :=
  ∀ s : State, s.Shaped p → Ends search s (fun found s' => s'.Shaped p
      ∧ ∀ solution, found.1 = some solution → p.Solves solution.assignment)
    fun _ s' => s'.Shaped p

theorem finds_attempt (hp : p.WellFormed) (w : Walk) : FindsSolutions (w.attempt p) p := by
  intro s h
  have hStart : State.Shaped { s with tally := {} } p := h.of_tables rfl rfl rfl rfl
  refine Search.ends_counting ((w.ends_startAndRun hp hStart).mono ?_ ?_)
  · rintro found s' ⟨hShaped, hFound⟩
    exact ⟨hShaped.of_tables rfl rfl rfl rfl, hFound⟩
  · exact fun _ s' hShaped => hShaped.of_tables rfl rfl rfl rfl

/-- Repeating a search answers with what one of the repetitions found. -/
theorem finds_repeated {search : Search (Option Solution × Stats)}
    (hSearch : FindsSolutions search p) (policy : Restarts) :
    ∀ (further : Nat) (total : Stats),
      FindsSolutions (repeated search policy further total) p := by
  intro further
  induction further with
  | zero =>
      intro total s h
      unfold repeated
      exact (hSearch s h).andThen fun found s' hEnd => hEnd
  | succ further ih =>
      intro total s h
      unfold repeated
      apply (hSearch s h).andThen
      intro found s' hEnd
      exact ends_ite (fun _ => hEnd) fun _ => ih _ s' hEnd.1

/-- Any strategy answers with solutions only. -/
theorem finds_solve (hp : p.WellFormed) (strategy : Strategy) :
    FindsSolutions (strategy.solve p) p := by
  induction strategy with
  | walk w => exact finds_attempt hp w
  | restarting inner policy ih => exact finds_repeated ih policy policy.bound {}

end Strategy
end LocalRepair
