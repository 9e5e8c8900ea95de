import Mathlib.Algebra.BigOperators.Group.Finset.Basic
import Mathlib.Algebra.Ring.Parity
import LocalRepair.Proofs.Stats
import LocalRepair.Proofs.Search.Progress
import LocalRepair.Proofs.Search.Restarting

/-!
# Search statistics add up

Counters go up in four places: where a constraint is picked for, where a proposition is
turned over, where a constraint that is told of a flip moves in or out of the violated
ones, and where a random pick is made. A step of a walk passes each of the first two once
and the last at most once, so after any number of steps the counters agree.

A constraint is told of a flip at most once, and what it is told changes its own
membership only. So a transition is counted exactly when its membership changes, and the
parity of its transitions tells whether it changed since the start of the walk.

Counters of an attempt start at zero. A strategy that repeats attempts adds them up.

## Main results

* `State.Moved.countMove`, `Walk.ends_flip_moved`: what a flip counts.
* `Walk.ends_step_stepped`, `Walk.Counted.next`: what a step counts, and one more step.
* `Walk.ends_attempt_addsUp`: a whole attempt.
* `Strategy.addsAttempts_solve`, `Restarted.totals`: repeated attempts.
* `statistics_add_up`: every search of a problem that was built.
-/

namespace LocalRepair

open Search State Strategy

variable {p : Problem} {s s' s₁ s₂ : State} {w : Walk} {id v made : Nat} {c : Constraint}

/-! ## One flip -/

/-- From one state to the other nothing was counted but transitions. Those of a
constraint changed their parity exactly if it moved in or out of the violated ones. -/
structure State.Moved (s s' : State) : Prop where
  flips : s'.flips = s.flips
  randomPicks : s'.randomPicks = s.randomPicks
  attempts : s'.tally.attempts = s.tally.attempts
  counted : s'.tally.flips = s.tally.flips
  ordered : s'.tally.Ordered
  picks : ∀ id, (s'.tally.activityOf id).picks = (s.tally.activityOf id).picks
  transitions : ∀ id, (Odd (s'.tally.activityOf id).transitions
      ↔ Odd (s.tally.activityOf id).transitions)
    ↔ (id ∈ s'.violated.toList ↔ id ∈ s.violated.toList)

namespace State.Moved

theorem refl (h : s.tally.Ordered) : Moved s s :=
  { flips := rfl, randomPicks := rfl, attempts := rfl, counted := rfl, ordered := h
    picks := fun _ => rfl, transitions := fun _ => by simp }

/-- Where nothing is counted and no constraint moves, that is still so. -/
theorem unmoved (h : Moved s s₁) (hSame : SameCounters s₁ s₂)
    (hMembers : ∀ j, j ∈ s₂.violated.toList ↔ j ∈ s₁.violated.toList) : Moved s s₂ :=
  { flips := hSame.flips.trans h.flips
    randomPicks := hSame.randomPicks.trans h.randomPicks
    attempts := by rw [hSame.tally, h.attempts]
    counted := by rw [hSame.tally, h.counted]
    ordered := by rw [hSame.tally]; exact h.ordered
    picks := fun j => by rw [hSame.tally, h.picks]
    transitions := fun j => by rw [hSame.tally, hMembers, h.transitions] }

/-- Redirected parents move no constraint. -/
theorem redirected (h : Moved s s₁) (k : Redirected s₁ s₂) : Moved s s₂ := by
  apply h.unmoved
  · rw [k.onlyForests]
    exact ⟨rfl, rfl, rfl⟩
  · intro j
    rw [k.onlyForests]

/-- A constraint that was told of a flip is counted if it moved, and other constraints
stay where they are. -/
theorem countMove (h : Moved s s₁) (hTouched : Touched s₁ s₂ id c) :
    Moved s (countMove s₁ s₂ id) := by
  have hSame := hTouched.onlyTables.sameCounters
  unfold State.countMove
  split
  · rename_i hStays
    refine h.unmoved hSame fun j => ?_
    by_cases hj : j = id
    · rw [hj]
      exact hStays
    · exact hTouched.violated j hj
  · rename_i hMoves
    rw [hSame.tally]
    refine
      { flips := hSame.flips.trans h.flips
        randomPicks := hSame.randomPicks.trans h.randomPicks
        attempts := h.attempts, counted := h.counted, ordered := h.ordered.touch
        picks := fun j => (Stats.picks_countTransition h.ordered).trans (h.picks j)
        transitions := fun j => ?_ }
    have hParity := h.transitions j
    show (Odd ((s₁.tally.countTransition id).activityOf j).transitions ↔ _)
      ↔ (j ∈ s₂.violated.toList ↔ _)
    rw [Stats.transitions_countTransition h.ordered]
    by_cases hj : j = id
    · -- The parity and the membership are both turned round.
      subst hj
      rw [if_pos rfl, Nat.odd_add_one]
      grind
    · rw [if_neg hj, hTouched.violated j hj]
      exact hParity

end State.Moved

namespace Walk

/-- A flip turns over a proposition, which counts once, and counts the constraints that
moved. -/
theorem ends_flip_moved (hp : p.WellFormed) (h : s.Tracks p) (hv : v ≤ p.propositionCount)
    (hOrdered : s.tally.Ordered) :
    Ends (flip p v) s (fun _ s' => s'.Tracks p ∧ ∃ a, Moved (overturned s a) s') Never := by
  have hFlip := ends_flip_along (Q := fun _ s' => ∃ a, Moved (overturned s a) s') hp h hv
    (fun a _ => ⟨a, .refl hOrdered⟩) ?_ ?_
  · apply hFlip.weaken
    rintro _ s' ⟨⟨hTracks, _⟩, _, _, hMoved⟩
    exact ⟨hTracks, hMoved⟩
  · rintro _ id _ c s₁ hTelling ⟨a, hMoved⟩
    apply (ends_tell hp hTelling).weaken
    rintro _ _ ⟨s₂, hSettles, rfl⟩
    exact ⟨a, hMoved.countMove hSettles.touched⟩
  · rintro _ s₁ s₂ hRedirected ⟨a, hMoved⟩
    exact ⟨a, hMoved.redirected hRedirected⟩

/-! ## Some steps -/

/-- What one step for a constraint counts: a pick for that constraint, a flip, a random
pick at most, and the constraints that moved. -/
structure Stepped (w : Walk) (id : Nat) (s s' : State) : Prop where
  flips : s'.flips = s.flips + 1
  attempts : s'.tally.attempts = s.tally.attempts
  counted : s'.tally.flips = s.tally.flips + 1
  ordered : s'.tally.Ordered
  picks : ∀ j, (s'.tally.activityOf j).picks
    = (s.tally.activityOf j).picks + if j = id then 1 else 0
  atMostOne : s'.randomPicks = s.randomPicks ∨ s'.randomPicks = s.randomPicks + 1
  certain : w.randomStep = 1.0 → s'.randomPicks = s.randomPicks + 1
  transitions : ∀ j, (Odd (s'.tally.activityOf j).transitions
      ↔ Odd (s.tally.activityOf j).transitions)
    ↔ (j ∈ s'.violated.toList ↔ j ∈ s.violated.toList)

/-- A pick and the flip of what was picked make a step. -/
theorem Chose.stepped {a : Assignment} (hChose : w.Chose s s₁) (hOrdered : s.tally.Ordered)
    (hMoved : Moved (overturned { s₁ with tally := s₁.tally.countPick id } a) s') :
    w.Stepped id s s' := by
  have hTally : s₁.tally = s.tally := by rw [hChose.onlyPicks]
  have hFlips : s₁.flips = s.flips := by rw [hChose.onlyPicks]
  have hViolated : s₁.violated = s.violated := by rw [hChose.onlyPicks]
  rw [hTally] at hMoved
  have hRandom : s'.randomPicks = s₁.randomPicks := hMoved.randomPicks
  exact
    { flips := hMoved.flips.trans (congrArg (· + 1) hFlips)
      attempts := hMoved.attempts
      counted := hMoved.counted
      ordered := hMoved.ordered
      picks := fun j => (hMoved.picks j).trans (Stats.picks_countPick hOrdered)
      atMostOne := by rw [hRandom]; exact hChose.atMostOne
      certain := by rw [hRandom]; exact hChose.certain
      transitions := fun j => by
        have hParity := hMoved.transitions j
        have hBefore : Odd ((s.tally.countPick id).activityOf j).transitions
            ↔ Odd (s.tally.activityOf j).transitions := by
          rw [Stats.transitions_countPick hOrdered]
        rw [← hBefore, ← hViolated]
        exact hParity }

/-- A step counts as one. -/
theorem ends_step_stepped (hp : p.WellFormed) (w : Walk) (h : s.Tracks p)
    (hOrdered : s.tally.Ordered) (hViolated : id ∈ s.violated.toList) :
    Ends (w.step p id) s (fun _ s' => s'.Tracks p ∧ w.Stepped id s s') fun _ _ => True := by
  have hc := Array.getElem?_eq_getElem (h.violated.lt_of_mem hViolated)
  rw [step, ends_bind]
  refine (w.ends_pick hp h hc).mono ?_ fun _ _ _ => trivial
  rintro v s₁ ⟨hv, hTracks, hChose⟩
  have hCounting : State.Tracks { s₁ with tally := s₁.tally.countPick id } p :=
    hTracks.of_tables rfl rfl rfl rfl
  have hCounted : (s₁.tally.countPick id).Ordered := by
    rw [hChose.onlyPicks]
    exact hOrdered.touch
  show Ends (flip p v) _ _ _
  apply (ends_flip_moved hp hCounting (hp.named hc hv).2 hCounted).weaken
  rintro _ s' ⟨hTracks', a, hMoved⟩
  exact ⟨hTracks', hChose.stepped hOrdered hMoved⟩

/-- The counters after some steps of a walk, and the transitions since it started. -/
structure Counted (w : Walk) (p : Problem) (started : State) (made : Nat) (s : State) : Prop where
  tracks : s.Tracks p
  ordered : s.tally.Ordered
  attempts : s.tally.attempts = started.tally.attempts
  flips : s.flips = started.flips + made
  counted : s.tally.flips = started.tally.flips + made
  picks : ∑ id ∈ Finset.range p.constraints.size, (s.tally.activityOf id).picks = made
  randomPicks : ∃ random ≤ made, s.randomPicks = started.randomPicks + random
    ∧ (w.randomStep = 1.0 → random = made)
  transitions : ∀ id, Odd (s.tally.activityOf id).transitions
    ↔ ¬ (id ∈ s.violated.toList ↔ id ∈ started.violated.toList)

namespace Counted

variable {started : State}

/-- A walk that starts has counted nothing. -/
theorem zero (h : s.Tracks p) (hTally : s.tally = { attempts := 1 }) : Counted w p s 0 s := by
  refine
    { tracks := h, ordered := ?_, attempts := rfl, flips := rfl, counted := rfl, picks := ?_
      randomPicks := ⟨0, Nat.le_refl 0, rfl, fun _ => rfl⟩, transitions := fun id => ?_ }
  · rw [hTally]
    exact Stats.ordered_none
  · rw [hTally]
    exact Finset.sum_const_zero
  · rw [hTally]
    simp [Stats.activityOf]

theorem reseed (h : Counted w p started made s) (generator : ChaCha) :
    Counted w p started made { s with generator } :=
  { h with tracks := h.tracks.of_tables rfl rfl rfl rfl }

/-- One more step. -/
theorem next (h : Counted w p started made s) (hId : id < p.constraints.size)
    (hTracks : s'.Tracks p) (hStep : w.Stepped id s s') :
    Counted w p started (made + 1) s' := by
  refine
    { tracks := hTracks, ordered := hStep.ordered
      attempts := hStep.attempts.trans h.attempts
      flips := by rw [hStep.flips, h.flips, Nat.add_assoc]
      counted := by rw [hStep.counted, h.counted, Nat.add_assoc]
      picks := ?_, randomPicks := ?_, transitions := fun j => ?_ }
  · have hMember : id ∈ Finset.range p.constraints.size := Finset.mem_range.mpr hId
    simp only [hStep.picks, Finset.sum_add_distrib, h.picks, Finset.sum_ite_eq', hMember, if_true]
  · obtain ⟨random, hRandom, hCount, hCertain⟩ := h.randomPicks
    rcases hStep.atMostOne with hNone | hOne
    · refine ⟨random, by omega, by omega, fun hAlways => ?_⟩
      have hOne := hStep.certain hAlways
      omega
    · refine ⟨random + 1, by omega, by omega, fun hAlways => ?_⟩
      rw [hCertain hAlways]
  · have hSince := h.transitions j
    have hNow := hStep.transitions j
    grind

end Counted

/-! ## An attempt -/

/-- What the statistics of an attempt say. The walk started with the record that a start
from the state before leaves. -/
structure AddsUp (w : Walk) (p : Problem) (s : State) (stats : Stats) (s' : State) : Prop where
  ordered : stats.Ordered
  attempts : stats.attempts = 1
  picks : ∑ id ∈ Finset.range p.constraints.size, (stats.activityOf id).picks = stats.flips
  flips : s'.flips = s.flips + stats.flips
  randomPicks : s'.randomPicks = s.randomPicks + stats.randomPicks
  atMostAll : stats.randomPicks ≤ stats.flips
  allRandom : w.randomStep = 1.0 → stats.randomPicks = stats.flips
  transitions : ∃ started, w.start p { s with tally := { attempts := 1 } } = .ok () started
    ∧ ∀ id, Odd (stats.activityOf id).transitions
      ↔ ¬ (id ∈ s'.violated.toList ↔ id ∈ started.violated.toList)

/-- What some steps from a start have counted adds up. -/
theorem Counted.addsUp {started : State} (h : Counted w p started made s₁)
    (hStart : w.start p { s with tally := { attempts := 1 } } = .ok () started)
    (hSame : SameCounters { s with tally := { attempts := 1 } } started) :
    w.AddsUp p s { s₁.tally with randomPicks := s₁.randomPicks - started.randomPicks }
      { s₁ with tally := s.tally } := by
  obtain ⟨random, hRandom, hCount, hCertain⟩ := h.randomPicks
  have hStarted : started.randomPicks = s.randomPicks := hSame.randomPicks
  have hGrowth : s₁.randomPicks - started.randomPicks = random := by omega
  have hFlips : s₁.tally.flips = made := by
    rw [h.counted, hSame.tally]
    exact Nat.zero_add made
  rw [hGrowth]
  exact
    { ordered := h.ordered
      attempts := h.attempts.trans (by rw [hSame.tally])
      picks := h.picks.trans hFlips.symm
      flips := by
        show s₁.flips = s.flips + s₁.tally.flips
        rw [h.flips, hSame.flips, hFlips]
      randomPicks := by
        show s₁.randomPicks = s.randomPicks + random
        omega
      atMostAll := by
        show random ≤ s₁.tally.flips
        omega
      allRandom := fun hAlways => (hCertain hAlways).trans hFlips.symm
      transitions := ⟨started, hStart, h.transitions⟩ }

/-- The statistics of an attempt that returns add up. -/
theorem ends_attempt_addsUp (hp : p.WellFormed) (w : Walk) (h : s.Shaped p) :
    Ends (w.attempt p) s (fun found s' => w.AddsUp p s found.2 s') fun _ _ => True := by
  have hStarts : State.Shaped { s with tally := { attempts := 1 } } p :=
    h.of_tables rfl rfl rfl rfl
  unfold attempt
  apply ends_counting
  unfold startAndRun
  show Ends (w.start p >>= _) { s with tally := { attempts := 1 } } _ _
  cases hStart : w.start p { s with tally := { attempts := 1 } } with
  | error e s₁ =>
      unfold Ends
      rw [bind_of_error hStart]
      trivial
  | ok _ started =>
      obtain ⟨hTracks, hSame⟩ := (w.ends_start_proper hp hStarts).of_ok hStart
      unfold Ends
      rw [bind_of_ok hStart]
      show Ends (get >>= _) started _ _
      rw [ends_bind, ends_get]
      have hStep : ∀ (made id : Nat) (s₁ : State), id ∈ s₁.violated.toList →
          Counted w p started made s₁ →
          Ends (w.step p id) s₁ (fun _ => Counted w p started (made + 1)) fun _ _ => True := by
        intro made id s₁ hViolated hs
        refine (w.ends_step_stepped hp hs.tracks hs.ordered hViolated).mono ?_
          fun _ _ hFail => hFail
        rintro _ s₂ ⟨hTracks₂, hStepped⟩
        exact hs.next (hs.tracks.violated.lt_of_mem hViolated) hTracks₂ hStepped
      have hLoop := w.ends_runFor hStep (fun _ _ generator hs => hs.reseed generator)
        w.maxFlips 0 started (.zero hTracks hSame.tally)
      apply hLoop.andThen
      rintro solved s₁ ⟨⟨made, _, hCounted, _⟩, _⟩
      rw [Nat.zero_add] at hCounted
      have hAddsUp := hCounted.addsUp hStart hSame
      rw [ends_bind, ends_get]
      cases solved with
      | true => exact hAddsUp
      | false => exact hAddsUp

end Walk

/-! ## Repeated attempts -/

/-- The walk that a strategy repeats, however often restarts are nested. -/
def Strategy.innermost : Strategy → Walk
  | walk w => w
  | restarting inner _ => inner.innermost

/-- A row of attempts at a problem, each from the state that the one before left behind. -/
inductive Attempts (w : Walk) (p : Problem) : State → List Round → State → Prop where
  | none (s : State) : Attempts w p s [] s
  | more {s s₁ s' : State} {found : Option Solution} {stats : Stats} {rounds : List Round}
      (run : w.attempt p s = .ok (found, stats) s₁) (rest : Attempts w p s₁ rounds s') :
      Attempts w p s (⟨s, found, stats, s₁⟩ :: rounds) s'

theorem Attempts.append {rounds others : List Round} (h : Attempts w p s rounds s₁)
    (k : Attempts w p s₁ others s') : Attempts w p s (rounds ++ others) s' := by
  induction h with
  | none s => exact k
  | more run _ ih => exact .more run (ih k)

/-- A search from a state with a shape adds up what the attempts of a walk have counted. -/
def AddsAttempts (search : Search (Option Solution × Stats)) (w : Walk) (p : Problem)
    (parts : List Stats) : Prop :=
  ∀ s : State, s.Shaped p → Ends search s (fun answer s' => s'.Shaped p ∧ answer.2.Ordered
      ∧ 0 < answer.2.attempts
      ∧ ∃ rounds, Attempts w p s rounds s' ∧ answer.2.Totals (parts ++ rounds.map Round.stats))
    fun _ _ => True

/-- Repeating a search adds up what the repetitions have counted, from any total. -/
theorem Strategy.addsAttempts_repeated {search : Search (Option Solution × Stats)}
    (hSearch : AddsAttempts search w p []) (policy : Restarts) (further : Nat) :
    ∀ (total : Stats) (parts : List Stats), total.Ordered → total.Totals parts →
      AddsAttempts (repeated search policy further total) w p parts := by
  have hAdd : ∀ {total stats : Stats} {parts : List Stats} {rounds : List Round},
      total.Ordered → total.Totals parts → stats.Ordered →
      stats.Totals ([] ++ rounds.map Round.stats) →
      (total.add stats).Totals (parts ++ rounds.map Round.stats) := by
    intro total stats parts rounds hOrdered hTotals hOwn hOwnTotals
    rw [List.nil_append] at hOwnTotals
    exact hTotals.add hOwnTotals hOrdered hOwn
  induction further with
  | zero =>
      intro total parts hOrdered hTotals s hs
      unfold repeated
      apply (hSearch s hs).andThen
      rintro ⟨found, stats⟩ s' ⟨hShaped, hOwn, hSome, rounds, hRounds, hOwnTotals⟩
      exact ⟨hShaped, hOrdered.add stats, Nat.lt_add_left _ hSome, rounds, hRounds,
        hAdd hOrdered hTotals hOwn hOwnTotals⟩
  | succ further ih =>
      intro total parts hOrdered hTotals s hs
      unfold repeated
      apply (hSearch s hs).andThen
      rintro ⟨found, stats⟩ s₁ ⟨hShaped, hOwn, hSome, rounds, hRounds, hOwnTotals⟩
      have hBoth := hAdd hOrdered hTotals hOwn hOwnTotals
      refine ends_ite (fun _ => ?_) fun _ => ?_
      · exact ⟨hShaped, hOrdered.add stats, Nat.lt_add_left _ hSome, rounds, hRounds, hBoth⟩
      · refine (ih (total.add stats) _ (hOrdered.add stats) hBoth s₁ hShaped).mono ?_
          fun _ _ hFail => hFail
        rintro answer s' ⟨hShaped', hOrdered', hSome', others, hOthers, hTotals'⟩
        refine ⟨hShaped', hOrdered', hSome', rounds ++ others, hRounds.append hOthers, ?_⟩
        rw [List.map_append, ← List.append_assoc]
        exact hTotals'

/-- Every strategy adds up what the attempts of its innermost walk have counted. -/
theorem Strategy.addsAttempts_solve (hp : p.WellFormed) (strategy : Strategy) :
    AddsAttempts (strategy.solve p) strategy.innermost p [] := by
  induction strategy with
  | walk w =>
      intro s hs
      unfold Ends solve
      cases hRun : w.attempt p s with
      | error e s' => trivial
      | ok answer s' =>
          obtain ⟨found, stats⟩ := answer
          have hShaped := ((finds_attempt hp w s hs).of_ok hRun).1
          have hAddsUp := (w.ends_attempt_addsUp hp hs).of_ok hRun
          exact ⟨hShaped, hAddsUp.ordered, hAddsUp.attempts ▸ Nat.one_pos,
            [⟨s, found, stats, s'⟩], .more hRun (.none s'), Stats.totals_single stats⟩
  | restarting inner policy ih =>
      exact addsAttempts_repeated ih policy policy.bound {} [] Stats.ordered_none Stats.totals_none

/-- The total of a row of rounds is their sum, from any total. -/
theorem Restarted.totals {search : Search (Option Solution × Stats)} {policy : Restarts}
    {total stats : Stats} {rounds : List Round} {found : Option Solution}
    (hSearch : AddsAttempts search w p [])
    (h : Restarted search policy total s rounds (.ok (found, stats) s')) :
    ∀ parts : List Stats, s.Shaped p → total.Ordered → total.Totals parts →
      stats.Totals (parts ++ rounds.map Round.stats) := by
  generalize hResult : EStateM.Result.ok (found, stats) s' = result at h
  induction h with
  | failed run => cases hResult
  | ended run enough =>
      cases hResult
      intro parts hs hOrdered hTotals
      obtain ⟨_, hOwn, _⟩ := (hSearch _ hs).of_ok run
      exact hTotals.add (Stats.totals_single _) hOrdered hOwn
  | @again total own s s₁ found₁ rounds result run more rest ih =>
      intro parts hs hOrdered hTotals
      obtain ⟨hShaped, hOwn, _⟩ := (hSearch _ hs).of_ok run
      have hBoth := hTotals.add (Stats.totals_single own) hOrdered hOwn
      have hRest := ih hResult (parts ++ [own]) hShaped (hOrdered.add own) hBoth
      simpa using hRest

/-! ## Every search -/

/-- From any state that earlier searches of the problem left behind: if a walk returns, the
picks of all constraints add up to its flips, which are those that the state counts more
than before. So are its random picks, of which there are no more than flips, and as many
if the chance of a random step is certainty. The transitions of a constraint are odd
exactly if at the end it is violated and was not when the walk had started, or the other
way round. If a search with restarts returns, each of its counters is the sum of that
counter over its rounds, and also over the attempts of the walk that is repeated. -/
theorem statistics_add_up (hp : p.Built) (h : Visited p s) :
    (∀ (w : Walk) (found : Option Solution) (stats : Stats) (s' : State),
        (Strategy.walk w).solve p s = .ok (found, stats) s' → w.AddsUp p s stats s')
      ∧ ∀ (inner : Strategy) (policy : Restarts) (found : Option Solution) (stats : Stats)
          (s' : State), (restarting inner policy).solve p s = .ok (found, stats) s' →
        (∃ rounds, Restarted (inner.solve p) policy {} s rounds (.ok (found, stats) s')
          ∧ stats.Totals (rounds.map Round.stats))
        ∧ ∃ attempts, Attempts inner.innermost p s attempts s'
          ∧ stats.Totals (attempts.map Round.stats) := by
  have hWellFormed := hp.wellFormed
  constructor
  · intro w found stats s' hRun
    exact (w.ends_attempt_addsUp hWellFormed h.shaped).of_ok hRun
  · intro inner policy found stats s' hRun
    have hInner := inner.addsAttempts_solve hWellFormed
    constructor
    · have hKeeps : Keeps (inner.solve p) (·.Shaped p) := by
        intro s₁ h₁
        exact (inner.finds_solve hWellFormed s₁ h₁).mono (fun _ _ hEnd => hEnd.1)
          fun _ _ hFail => hFail
      have hAttempts : ∀ s₁ : State, s₁.Shaped p →
          Ends (inner.solve p) s₁ (fun found _ => 0 < found.2.attempts) fun _ _ => True :=
        fun s₁ h₁ => (hInner s₁ h₁).mono (fun _ _ hEnd => hEnd.2.2.1) fun _ _ hFail => hFail
      obtain ⟨rounds, hRounds⟩ := exists_restarted hKeeps hAttempts policy policy.bound {} s
        h.shaped (Nat.le_add_left _ _)
      have hSame : repeated (inner.solve p) policy policy.bound {} s = .ok (found, stats) s' := hRun
      rw [hSame] at hRounds
      exact ⟨rounds, hRounds, by
        simpa using hRounds.totals hInner [] h.shaped Stats.ordered_none Stats.totals_none⟩
    · obtain ⟨_, _, _, attempts, hAttempts, hTotals⟩ :=
        ((restarting inner policy).addsAttempts_solve hWellFormed s h.shaped).of_ok hRun
      exact ⟨attempts, hAttempts, by simpa using hTotals⟩

/-- A walk of the small problem that picks at random at every step, alone and restarted
after each flip. Every flip was a random pick. -/
theorem statistics_add_up_small :
    (∃ found stats s',
      Strategy.solve .small (.walk
          { selection := .lowest, seeding := .allFalse, maxFlips := 3, randomStep := 1.0 })
        (.new .small (.seeded 0)) = .ok (found, stats) s'
      ∧ stats.randomPicks = stats.flips
      ∧ ∑ id ∈ Finset.range 3, (stats.activityOf id).picks = s'.flips)
    ∧ ∃ found stats s' attempts,
      Strategy.solve .small (.restarting (.walk
          { selection := .lowest, seeding := .allFalse, maxFlips := 1, randomStep := 1.0 })
          (.upTo 3)) (.new .small (.seeded 0)) = .ok (found, stats) s'
      ∧ Attempts { selection := .lowest, seeding := .allFalse, maxFlips := 1, randomStep := 1.0 }
        .small (.new .small (.seeded 0)) attempts s'
      ∧ stats.Totals (attempts.map Round.stats) := by
  obtain ⟨hWalk, hRestarting⟩ := statistics_add_up Problem.built_small (.new (.seeded 0))
  constructor
  · have hReturns : ((Strategy.solve .small (.walk
        { selection := .lowest, seeding := .allFalse, maxFlips := 3, randomStep := 1.0 })).run'
          (.new .small (.seeded 0))).isSome = true := by decide +kernel
    unfold EStateM.run' EStateM.run at hReturns
    cases hRun : Strategy.solve .small (.walk
        { selection := .lowest, seeding := .allFalse, maxFlips := 3, randomStep := 1.0 })
        (.new .small (.seeded 0)) with
    | ok answer s' =>
        obtain ⟨found, stats⟩ := answer
        have hAddsUp := hWalk _ found stats s' hRun
        have hFlips : s'.flips = 0 + stats.flips := hAddsUp.flips
        rw [Nat.zero_add] at hFlips
        exact ⟨found, stats, s', rfl, hAddsUp.allRandom rfl, hAddsUp.picks.trans hFlips.symm⟩
    | error e s' =>
        rw [hRun] at hReturns
        cases hReturns
  · have hReturns : ((Strategy.solve .small (.restarting (.walk
        { selection := .lowest, seeding := .allFalse, maxFlips := 1, randomStep := 1.0 })
        (.upTo 3))).run' (.new .small (.seeded 0))).isSome = true := by decide +kernel
    unfold EStateM.run' EStateM.run at hReturns
    cases hRun : Strategy.solve .small (.restarting (.walk
        { selection := .lowest, seeding := .allFalse, maxFlips := 1, randomStep := 1.0 })
        (.upTo 3)) (.new .small (.seeded 0)) with
    | ok answer s' =>
        obtain ⟨found, stats⟩ := answer
        obtain ⟨_, attempts, hAttempts, hTotals⟩ := hRestarting _ _ found stats s' hRun
        exact ⟨found, stats, s', attempts, rfl, hAttempts, hTotals⟩
    | error e s' =>
        rw [hRun] at hReturns
        cases hReturns

end LocalRepair
