import LocalRepair.Proofs.Search.Budget
import LocalRepair.Proofs.Search.Reached

/-!
# Restarts end, and spend the budget exactly

A search that is repeated goes on until it finds a solution or its policy allows no
further attempt. `Restarted` describes this loop as it is, without a bound on the
repetitions: as rows of rounds, each of which starts in the state that the one before
left behind. A policy counts attempts, and every round adds one at least. So the loop
ends, and the bound with which `Strategy.repeated` is defined never cuts it off.

The totals follow round by round. Another round is made only after one without a
solution, which has spent all flips of its attempt, and only while fewer attempts were
made than the policy allows.

## Main results

* `Strategy.exists_restarted`: the loop ends, with the answer of `Strategy.repeated`.
* `Restarted.accounted`: the totals of a row of rounds.
* `budget_is_spent`: restarted walks.
-/

namespace LocalRepair

open Search State Strategy

variable {p : Problem} {s s' : State} {search : Search (Option Solution × Stats)}
  {policy : Restarts} {P : State → Prop} {w : Walk} {most : Nat}

/-- One repetition of a search, from a state to the state that it left. -/
structure Round where
  before : State
  found : Option Solution
  stats : Stats
  after : State

/-- The loop of restarts: from a total and a state, it makes rounds and comes to a
result. A search that fails ends the loop and is no round. -/
inductive Restarted (search : Search (Option Solution × Stats)) (policy : Restarts) :
    Stats → State → List Round → EStateM.Result Fault State (Option Solution × Stats) → Prop where
  | failed {total : Stats} {s s' : State} {e : Fault} (run : search s = .error e s') :
      Restarted search policy total s [] (.error e s')
  | ended {total stats : Stats} {s s' : State} {found : Option Solution}
      (run : search s = .ok (found, stats) s')
      (enough : (found.isSome || !policy.allows (total.add stats)) = true) :
      Restarted search policy total s [⟨s, found, stats, s'⟩] (.ok (found, total.add stats) s')
  | again {total stats : Stats} {s s' : State} {found : Option Solution} {rounds : List Round}
      {result : EStateM.Result Fault State (Option Solution × Stats)}
      (run : search s = .ok (found, stats) s')
      (more : (found.isSome || !policy.allows (total.add stats)) = false)
      (rest : Restarted search policy (total.add stats) s' rounds result) :
      Restarted search policy total s (⟨s, found, stats, s'⟩ :: rounds) result

/-! ## The loop ends -/

/-- A policy allows an attempt only below its bound. -/
theorem Restarts.lt_bound {soFar : Stats} (h : policy.allows soFar = true) :
    soFar.attempts < policy.bound := by
  cases policy with
  | never => cases h
  | upTo attempts => exact of_decide_eq_true h

/-- If every search that returns has made an attempt, repeating it comes to the end of
the loop: the bound on the repetitions is never what stops it. -/
theorem Strategy.exists_restarted (hKeeps : Keeps search P)
    (hAttempts : ∀ s, P s → Ends search s (fun found _ => 0 < found.2.attempts) fun _ _ => True)
    (policy : Restarts) (further : Nat) :
    ∀ (total : Stats) (s : State), P s → policy.bound ≤ total.attempts + further →
      ∃ rounds,
        Restarted search policy total s rounds (repeated search policy further total s) := by
  induction further with
  | zero =>
      intro total s hs hBound
      cases hRun : search s with
      | error e s' =>
          unfold repeated
          rw [bind_of_error hRun]
          exact ⟨[], .failed hRun⟩
      | ok answer s' =>
          obtain ⟨found, stats⟩ := answer
          have hPositive : 0 < stats.attempts := (hAttempts s hs).of_ok hRun
          have hEnough : policy.allows (total.add stats) = false := by
            rw [Bool.eq_false_iff]
            intro hAllows
            have hLess : total.attempts + stats.attempts < policy.bound := Restarts.lt_bound hAllows
            omega
          unfold repeated
          rw [bind_of_ok hRun]
          exact ⟨_, .ended hRun (by rw [hEnough, Bool.not_false, Bool.or_true])⟩
  | succ further ih =>
      intro total s hs hBound
      cases hRun : search s with
      | error e s' =>
          unfold repeated
          rw [bind_of_error hRun]
          exact ⟨[], .failed hRun⟩
      | ok answer s' =>
          obtain ⟨found, stats⟩ := answer
          have hPositive : 0 < stats.attempts := (hAttempts s hs).of_ok hRun
          have hKept : P s' := (hKeeps s hs).of_ok hRun
          unfold repeated
          rw [bind_of_ok hRun]
          dsimp only
          cases hEnough : found.isSome || !policy.allows (total.add stats) with
          | true => exact ⟨_, .ended hRun hEnough⟩
          | false =>
              have hLeft : policy.bound ≤ (total.add stats).attempts + further := by
                show _ ≤ total.attempts + stats.attempts + further
                omega
              obtain ⟨rounds, hRest⟩ := ih (total.add stats) s' hKept hLeft
              exact ⟨_, .again hRun hEnough hRest⟩

/-! ## Totals -/

/-- Whatever strategy searches a visited state, the state is visited still. -/
theorem Strategy.keeps_visited (strategy : Strategy) : Keeps (strategy.solve p) (Visited p) := by
  intro s h
  have hActed : Visited p (leftBy (do let _found ← strategy.solve p) s) := h.acted (.solve strategy)
  unfold leftBy at hActed
  unfold Ends
  cases hRun : strategy.solve p s with
  | ok found s' =>
      rw [bind_of_ok hRun] at hActed
      exact hActed
  | error e s' =>
      rw [bind_of_error hRun] at hActed
      exact hActed

/-- The account of a row of rounds that ended with a result: the last round and those
before it, and what all of them add to a total. -/
structure Accounted (w : Walk) (p : Problem) (most : Nat) (total : Stats) (earlier : List Round)
    (last : Round) (stats : Stats) : Prop where
  visited : ∀ round ∈ earlier ++ [last], Visited p round.before
  exhausted : ∀ round ∈ earlier, round.found = none ∧ round.stats.flips = w.maxFlips
  spends : w.Spends p last.before last.found last.stats last.after
  attempts : stats.attempts = total.attempts + earlier.length + 1
  flips : stats.flips = total.flips + earlier.length * w.maxFlips + last.stats.flips
  atMost : stats.attempts ≤ max (total.attempts + 1) most
  givenUp : last.found = none → most ≤ stats.attempts

/-- The rounds of restarted walks, from any total. -/
theorem Restarted.accounted {total stats : Stats} {rounds : List Round}
    {found : Option Solution} (hp : p.WellFormed)
    (h : Restarted (w.attempt p) (.upTo most) total s rounds (.ok (found, stats) s'))
    (hs : Visited p s) :
    ∃ earlier last, rounds = earlier ++ [last] ∧ last.found = found ∧ last.after = s'
      ∧ Accounted w p most total earlier last stats := by
  generalize hResult : EStateM.Result.ok (found, stats) s' = result at h
  induction h with
  | failed run => cases hResult
  | @ended total own s s₁ found₁ run enough =>
      cases hResult
      have hSpends := (w.ends_attempt_spends hp hs.shaped).of_ok run
      have hCounted : total.attempts + own.attempts = total.attempts + 1 := by
        rw [hSpends.attempts]
      refine ⟨[], _, rfl, rfl, rfl,
        { visited := by simpa using hs, exhausted := by simp, spends := hSpends
          attempts := hCounted, flips := by simp [Stats.add]
          atMost := ?_, givenUp := fun hNone => ?_ }⟩
      · exact hCounted.trans_le (Nat.le_max_left _ _)
      · have hNone : found = none := hNone
        rw [hNone, Option.isSome_none, Bool.false_or, Bool.not_eq_true'] at enough
        exact Nat.le_of_not_lt (of_decide_eq_false enough)
  | @again total own s s₁ found₁ rounds result run more rest ih =>
      have hSpends := (w.ends_attempt_spends hp hs.shaped).of_ok run
      have hVisited : Visited p s₁ := ((Strategy.walk w).keeps_visited s hs).of_ok run
      obtain ⟨earlier, last, hRounds, hFound, hAfter, h⟩ := ih hVisited hResult
      rw [Bool.or_eq_false_iff, Bool.not_eq_false'] at more
      have hNone : found₁ = none := Option.isNone_iff_eq_none.mp (by simpa using more.1)
      have hAllowed : total.attempts + own.attempts < most := of_decide_eq_true more.2
      have hFlips : own.flips = w.maxFlips := (hSpends.exhausted hNone).1
      have hCounted : stats.attempts = total.attempts + own.attempts + earlier.length + 1 :=
        h.attempts
      have hTotal : stats.flips
          = total.flips + own.flips + earlier.length * w.maxFlips + last.stats.flips := h.flips
      have hOne : own.attempts = 1 := hSpends.attempts
      refine ⟨⟨s, found₁, own, s₁⟩ :: earlier, last, by rw [hRounds, List.cons_append], hFound,
        hAfter,
        { visited := ?_, exhausted := ?_, spends := h.spends, attempts := ?_, flips := ?_
          atMost := ?_, givenUp := h.givenUp }⟩
      · exact List.forall_mem_cons.mpr ⟨hs, h.visited⟩
      · exact List.forall_mem_cons.mpr ⟨⟨hNone, hFlips⟩, h.exhausted⟩
      · rw [List.length_cons]
        omega
      · rw [List.length_cons, Nat.succ_mul]
        omega
      · have hBound : stats.attempts ≤ max (total.attempts + own.attempts + 1) most := h.atMost
        omega

/-! ## Restarted walks -/

/-- What a search of restarted walks has spent that returned, as a row of rounds. -/
structure SpentExactly (w : Walk) (p : Problem) (most : Nat) (earlier : List Round) (last : Round)
    (found : Option Solution) (stats : Stats) (s' : State) : Prop where
  returned : last.found = found ∧ last.after = s'
  visited : ∀ round ∈ earlier ++ [last], Visited p round.before
  exhausted : ∀ round ∈ earlier, round.found = none ∧ round.stats.flips = w.maxFlips
  attempts : stats.attempts = (earlier ++ [last]).length
  atLeast : 1 ≤ stats.attempts
  atMost : stats.attempts ≤ max 1 most
  flipsAtLeast : (stats.attempts - 1) * w.maxFlips ≤ stats.flips
  flipsAtMost : stats.flips ≤ stats.attempts * w.maxFlips
  givenUp : found = none → stats.attempts = max 1 most
    ∧ stats.flips = stats.attempts * w.maxFlips ∧ s'.violated.isEmpty = false
  seeded : ∃ seeded, w.seed p last.before = .ok () seeded
    ∧ (w.maxFlips = 0 → s'.assignment = seeded.assignment)

theorem Accounted.spentExactly {earlier : List Round} {last : Round} {stats : Stats}
    (h : Accounted w p most {} earlier last stats) :
    SpentExactly w p most earlier last last.found stats last.after := by
  have hAttempts : stats.attempts = earlier.length + 1 := by simpa using h.attempts
  have hFlips : stats.flips = earlier.length * w.maxFlips + last.stats.flips := by
    simpa using h.flips
  have hMost : stats.attempts ≤ max 1 most := h.atMost
  have hLast := h.spends.flips
  have hAll : stats.attempts * w.maxFlips = earlier.length * w.maxFlips + w.maxFlips := by
    rw [hAttempts, Nat.succ_mul]
  obtain ⟨seeded, hSeed, hKept⟩ := h.spends.seeded
  refine
    { returned := ⟨rfl, rfl⟩, visited := h.visited, exhausted := h.exhausted
      attempts := by simpa using hAttempts
      atLeast := by omega
      atMost := hMost
      flipsAtLeast := ?_
      flipsAtMost := by omega
      givenUp := fun hNone => ?_
      seeded := ⟨seeded, hSeed, fun hZero => hKept (by omega)⟩ }
  · rw [hAttempts, Nat.add_sub_cancel, hFlips]
    exact Nat.le_add_right _ _
  · obtain ⟨hSpent, hViolated⟩ := h.spends.exhausted hNone
    have hGivenUp := h.givenUp hNone
    exact ⟨by omega, by omega, hViolated⟩

/-- A walk that is restarted until a number of attempts is reached comes to an end. If
it returns, every attempt before the last has spent all its flips, and so has the last
if no solution was found; all attempts that are allowed were made then. An attempt that
seeds a solution returns it without a flip, and one that has no flips to make leaves
the assignment that it has seeded. -/
theorem budget_is_spent (hp : p.Built) (h : Visited p s) (w : Walk) (most : Nat) :
    (∃ rounds, Restarted (w.attempt p) (.upTo most) {} s rounds
        ((restarting (.walk w) (.upTo most)).solve p s)
      ∧ ∀ found stats s', (restarting (.walk w) (.upTo most)).solve p s = .ok (found, stats) s' →
        ∃ earlier last, rounds = earlier ++ [last]
          ∧ SpentExactly w p most earlier last found stats s')
      ∧ ∀ seeded, w.seed p s = .ok () seeded → p.Solves seeded.assignment →
        ∃ stats s', w.attempt p s = .ok (some (.ofProblem p seeded.assignment), stats) s'
          ∧ stats.flips = 0 ∧ s'.assignment = seeded.assignment := by
  have hWellFormed := hp.wellFormed
  constructor
  · have hKeeps : Keeps (w.attempt p) (Visited p) := (Strategy.walk w).keeps_visited
    have hAttempts : ∀ s, Visited p s →
        Ends (w.attempt p) s (fun found _ => 0 < found.2.attempts) fun _ _ => True := by
      intro s hs
      refine (w.ends_attempt_spends hWellFormed hs.shaped).mono (fun found s' hEnd => ?_)
        fun _ _ hFail => hFail
      rw [hEnd.attempts]
      exact Nat.one_pos
    obtain ⟨rounds, hRounds⟩ := exists_restarted hKeeps hAttempts (.upTo most) most {} s h
      (Nat.le_add_left _ _)
    refine ⟨rounds, hRounds, fun found stats s' hReturned => ?_⟩
    have hSame : repeated (w.attempt p) (.upTo most) most {} s = .ok (found, stats) s' := hReturned
    rw [hSame] at hRounds
    obtain ⟨earlier, last, hRow, hFound, hAfter, hAccounted⟩ := hRounds.accounted hWellFormed h
    rw [← hFound, ← hAfter]
    exact ⟨earlier, last, hRow, hAccounted.spentExactly⟩
  · intro seeded hSeed hSolves
    obtain ⟨⟨found, stats⟩, s', hRun, hFound, hZero, hKept⟩ :=
      (Walk.ends_attempt_of_seeded hWellFormed h.shaped hSeed hSolves).exists_ok
    obtain rfl : found = _ := hFound
    exact ⟨stats, s', hRun, hZero, hKept⟩

/-- Three attempts at the small problem without a flip to make: all three are made, and
the assignment is the one that the last of them has seeded. -/
theorem budget_is_spent_small :
    ∃ stats s' earlier last,
      Strategy.solve .small (.restarting
          (.walk { selection := .lowest, seeding := .allFalse, maxFlips := 0 }) (.upTo 3))
        (.new .small (.seeded 0)) = .ok (none, stats) s'
      ∧ SpentExactly { selection := .lowest, seeding := .allFalse, maxFlips := 0 } .small 3
        earlier last none stats s'
      ∧ stats.attempts = 3 ∧ earlier.length = 2 := by
  have hNone : ((Strategy.solve .small (.restarting
      (.walk { selection := .lowest, seeding := .allFalse, maxFlips := 0 }) (.upTo 3))).run'
        (.new .small (.seeded 0))).any (·.1.isNone) = true := by decide +kernel
  unfold EStateM.run' EStateM.run at hNone
  cases hRun : Strategy.solve .small (.restarting
      (.walk { selection := .lowest, seeding := .allFalse, maxFlips := 0 }) (.upTo 3))
      (.new .small (.seeded 0)) with
  | ok answer s' =>
      rw [hRun] at hNone
      obtain ⟨found, stats⟩ := answer
      obtain rfl : found = none := Option.isNone_iff_eq_none.mp hNone
      obtain ⟨rounds, _, hSpent⟩ := (budget_is_spent Problem.built_small (.new (.seeded 0))
        { selection := .lowest, seeding := .allFalse, maxFlips := 0 } 3).1
      obtain ⟨earlier, last, _, hExactly⟩ := hSpent none stats s' hRun
      have hAttempts : stats.attempts = 3 := (hExactly.givenUp rfl).1
      have hLength : stats.attempts = earlier.length + 1 := by simpa using hExactly.attempts
      exact ⟨stats, s', earlier, last, rfl, hExactly, hAttempts, by omega⟩
  | error e s' =>
      rw [hRun] at hNone
      cases hNone

end LocalRepair
