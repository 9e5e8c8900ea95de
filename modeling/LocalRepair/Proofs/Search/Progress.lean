import LocalRepair.Proofs.Search.Greedy

/-!
# When starts and picks go through

Starting and picking are the parts of a walk that may fail. They draw truth values, and
a draw with a chance that is no probability is refused. Priors were checked when the
problem was built, so it is the settings of the walk that matter. And a constraint without
propositions has nothing to pick. Nothing else can go wrong where the state has a shape or
its record is right.

What starts and picks do to the counters is part of the same description: a start counts
nothing, and a pick counts a random pick or does not.

## Main results

* `Walk.ends_start_proper`: a start fails only for an improper seeding.
* `Walk.ends_pick`: a pick fails only for an improper chance or without propositions.
-/

namespace LocalRepair

open Search State

variable {p : Problem} {s s' s'' : State} {w : Walk} {id v : Nat} {c : Constraint}

/-! ## Chances -/

/-- The default chance of a seeding is a probability. -/
def Seeding.Proper : Seeding → Prop
  | allFalse => True
  | byPrior default => isProbability default = true

/-- The chances in the settings of a walk are probabilities. -/
structure Walk.Proper (w : Walk) : Prop where
  seeding : w.seeding.Proper
  randomStep : isProbability w.randomStep = true

/-- A draw with a probability is not refused. -/
theorem ChaCha.exists_chance {chance : Float} (h : isProbability chance = true) (g : ChaCha) :
    ∃ drawn, g.chance chance = .ok drawn := by
  unfold ChaCha.chance
  by_cases hCertain : (chance == 1.0) = true
  · exact ⟨_, if_pos hCertain⟩
  · rw [if_neg hCertain, if_pos h]
    exact ⟨_, rfl⟩

/-- Every proposition of a well-formed problem has a prior or has none. -/
theorem Problem.WellFormed.exists_prior (hp : p.WellFormed) (hv : Named p.propositionCount v) :
    ∃ prior, p.prior v = .ok prior
      ∧ ∀ chance, prior = some chance → isProbability chance = true := by
  have hIndex : v - 1 < p.priors.size := by
    have hPositive := hv.1
    have hLast := hv.2
    rw [hp.priors]
    omega
  refine ⟨p.priors[v - 1], ?_, fun chance hPrior => hp.chances chance ?_⟩
  · rw [Problem.prior, Problem.entryFor, if_neg (Nat.ne_of_gt hv.1), entryAt_of_lt hIndex]
  · rw [← hPrior]
    exact Array.getElem_mem hIndex

/-! ## Starting -/

/-- The two states have the same counters. -/
structure State.SameCounters (s s' : State) : Prop where
  flips : s'.flips = s.flips
  randomPicks : s'.randomPicks = s.randomPicks
  tally : s'.tally = s.tally

namespace State.SameCounters

theorem refl (s : State) : SameCounters s s := ⟨rfl, rfl, rfl⟩

theorem trans (h : SameCounters s s') (k : SameCounters s' s'') : SameCounters s s'' :=
  ⟨k.flips.trans h.flips, k.randomPicks.trans h.randomPicks, k.tally.trans h.tally⟩

end State.SameCounters

theorem State.OnlyTables.sameCounters (h : OnlyTables s s') : SameCounters s s' := by
  rw [h]
  exact ⟨rfl, rfl, rfl⟩

/-- A starting value is drawn unless the default chance is improper. -/
theorem Seeding.ends_seedValue (seeding : Seeding) (hp : p.WellFormed)
    (hv : Named p.propositionCount v) :
    Ends (seeding.seedValue p v) s (fun _ s' => s' = { s with generator := s'.generator })
      fun _ _ => ¬ seeding.Proper := by
  cases seeding with
  | allFalse => rfl
  | byPrior default =>
      obtain ⟨prior, hPrior, hChance⟩ := hp.exists_prior hv
      rw [seedValue, ends_bind]
      apply ends_of hPrior
      rw [ends_bind, ends_get, ends_bind]
      refine ends_of_any (fun drawn _ => rfl) fun e hRefused hDefault => ?_
      have hProper : isProbability (prior.getD default) = true := by
        cases prior with
        | none => exact hDefault
        | some chance => exact hChance chance rfl
      obtain ⟨drawn, hDrawn⟩ := ChaCha.exists_chance hProper s.generator
      rw [hDrawn] at hRefused
      cases hRefused

/-- A proposition can be set. -/
theorem Search.ends_assign (h : s.Shaped p) (hv : Named p.propositionCount v) (b : Bool) :
    Ends (assign v b) s (fun _ s' => s'.Shaped p ∧ SameCounters s s') Never := by
  have hRange : 0 < v ∧ v < s.assignment.values.size := by
    rw [h.assignment]
    exact ⟨hv.1, Nat.lt_succ_of_le hv.2⟩
  have hSet : s.assignment.set v b = .ok ⟨s.assignment.values.setIfInBounds v b⟩ := by
    rw [Assignment.set, if_pos hRange]
  rw [assign, ends_bind, ends_get, ends_bind]
  apply ends_of hSet
  exact ⟨(stable_shaped p).setAssignment h hSet, rfl, rfl, rfl⟩

namespace Walk

/-- Clearing goes through, and counts nothing. -/
theorem ends_clear (h : s.Shaped p) :
    Ends clear s (fun _ s' => s'.Shaped p ∧ SameCounters s s') Never := by
  have hClear := h.violated.clear
  rw [clear, ends_bind, ends_get, ends_bind]
  apply ends_of hClear
  exact ⟨(stable_shaped p).clear h hClear, rfl, rfl, rfl⟩

/-- Seeding goes through unless the default chance is improper, and counts nothing. -/
theorem ends_seed (hp : p.WellFormed) (w : Walk) (h : s.Shaped p) :
    Ends (w.seed p) s (fun _ s' => s'.Shaped p ∧ SameCounters s s')
      fun _ _ => ¬ w.seeding.Proper := by
  have hNamed : ∀ v ∈ p.propositions, Named p.propositionCount v := by
    intro v hv
    obtain ⟨hPositive, hLast⟩ := List.mem_range'_1.mp hv
    exact ⟨hPositive, by omega⟩
  unfold seed
  apply (ends_clear h).bind
  rintro _ s₁ ⟨hShaped, hSame⟩
  refine Ends.mono (ends_each _ (fun _ todo s' => (∀ v ∈ todo, Named p.propositionCount v)
      ∧ s'.Shaped p ∧ SameCounters s s') ?_ p.propositions [] s₁ ⟨hNamed, hShaped, hSame⟩)
    (fun _ _ hEnd => hEnd.2) fun _ _ hFail => hFail
  rintro _ v todo s₂ ⟨hTodo, hShaped₂, hSame₂⟩
  have hv := hTodo v (by simp)
  apply (w.seeding.ends_seedValue hp hv).andThen
  intro b s₃ hDrawn
  have hShaped₃ : s₃.Shaped p := by
    rw [hDrawn]
    exact hShaped₂.of_tables rfl rfl rfl rfl
  have hSame₃ : SameCounters s s₃ := by
    rw [hDrawn]
    exact ⟨hSame₂.flips, hSame₂.randomPicks, hSame₂.tally⟩
  apply (ends_assign hShaped₃ hv b).weaken
  rintro _ s₄ ⟨hShaped₄, hSame₄⟩
  exact ⟨fun u hu => hTodo u (List.mem_cons_of_mem _ hu), hShaped₄, hSame₃.trans hSame₄⟩

/-- A start goes through unless the default chance is improper. The record is right then,
and nothing was counted. -/
theorem ends_start_proper (hp : p.WellFormed) (w : Walk) (h : s.Shaped p) :
    Ends (w.start p) s (fun _ s' => s'.Tracks p ∧ SameCounters s s')
      fun _ _ => ¬ w.seeding.Proper := by
  rw [w.start_eq]
  apply (w.ends_seed hp h).andThen
  rintro _ s₁ ⟨hShaped, hSame⟩
  apply (Problem.ends_evaluateAll_tables hp hShaped).weaken
  exact fun _ s₂ hEnd => ⟨hEnd.1, hSame.trans hEnd.2.sameCounters⟩

/-! ## Picking -/

/-- What a pick may do to a state: forests, entries and the generator may change, and it
counts one random pick at most. If the chance of a random step is certainty it counts
one. -/
structure Chose (w : Walk) (s s' : State) : Prop where
  onlyPicks : s' = { s with
    marks := s'.marks
    forests := s'.forests
    generator := s'.generator
    randomPicks := s'.randomPicks }
  atMostOne : s'.randomPicks = s.randomPicks ∨ s'.randomPicks = s.randomPicks + 1
  certain : w.randomStep = 1.0 → s'.randomPicks = s.randomPicks + 1

/-- How a pick fails: nothing has happened to the record, and there was nothing to pick
unless the chance of a random step is improper. -/
structure Stuck (w : Walk) (p : Problem) (id : Nat) (c : Constraint) (s : State) (e : Fault)
    (s' : State) : Prop where
  tracks : s'.Tracks p
  violated : s'.violated = s.violated
  nothingToFlip : isProbability w.randomStep = true →
    e = .rejected (.nothingToFlip id) ∧ p.propositionsOf c = []

/-- A pick of either kind. A random pick is made if it is asked for, a greedy one only if
the chance of a random step is not certainty. -/
theorem ends_pickEither (w : Walk) (hp : p.WellFormed) (h : s.Tracks p)
    (hc : p.constraints[id]? = some c) {atRandom : Bool}
    (hCertain : w.randomStep = 1.0 → atRandom = true) :
    Ends (if atRandom then randomPickFor p id c else greedyPickFor p id c) s
      (fun v s' => v ∈ p.propositionsOf c ∧ s'.Tracks p ∧ w.Chose s s')
      (w.Stuck p id c s) := by
  obtain ⟨m, hMarks⟩ := h.exists_marks hc
  by_cases hAny : p.propositionsOf c = []
  · -- Either kind of pick finds that there is nothing to pick.
    have hStuck : w.Stuck p id c s (.rejected (.nothingToFlip id)) s :=
      ⟨h, rfl, fun _ => ⟨rfl, hAny⟩⟩
    refine ends_ite (fun _ => ?_) fun _ => ?_
    · rw [randomPickFor, hAny, randomPick, ends_bind]
      exact ends_marksOf hMarks hStuck
    · rw [greedyPickFor, hAny, greedyPick]
      exact hStuck
  · have hRecord := robust_tracks hp s.assignment
    refine ends_ite (fun _ => ?_) fun hGreedy => ?_
    · have hKept := (hRecord.yields_randomPick id (p.propositionsOf c)).respects.keeps s ⟨h, rfl⟩
      refine ((ends_randomPick hAny hMarks).and hKept).mono ?_ fun _ _ hFail => hFail.1.elim
      rintro v s' ⟨⟨hMem, _, hAfter⟩, hTracks, _⟩
      have hCount : s'.randomPicks = s.randomPicks + 1 := by
        rw [hAfter]
        rfl
      refine ⟨hMem, hTracks, ?_, Or.inr hCount, fun _ => hCount⟩
      rw [hAfter]
      rfl
    · have hKept := (hRecord.yields_greedyPickFor hc).respects.keeps s ⟨h, rfl⟩
      have hPick := ends_greedyPick hAny hMarks fun generator v hv =>
        known_of_tracks hp h hc generator hv
      refine (Ends.and hPick hKept).mono ?_ fun _ _ hFail => hFail.1.elim
      rintro v s' ⟨⟨hMem, hNoted, hPicked⟩, hTracks, _⟩
      refine ⟨hMem, hTracks, ?_, ?_, fun hOne => absurd (hCertain hOne) hGreedy⟩
      · rw [hNoted]
      · exact hPicked.imp And.left And.left

/-- A pick for a constraint of the problem returns one of its propositions, unless the
chance of a random step is improper or there are none. -/
theorem ends_pick (hp : p.WellFormed) (w : Walk) (h : s.Tracks p)
    (hc : p.constraints[id]? = some c) :
    Ends (w.pick p id) s (fun v s' => v ∈ p.propositionsOf c ∧ s'.Tracks p ∧ w.Chose s s')
      (w.Stuck p id c s) := by
  rw [pick, ends_bind]
  apply ends_constraint hc
  refine ends_ite (fun _ => ?_) fun hNever => ?_
  · rw [ends_bind, ends_get, ends_bind]
    refine ends_of_any (fun drawn hDrawn => ?_) fun e hRefused => ?_
    · have hTracks : State.Tracks { s with generator := drawn.2 } p := h.of_tables rfl rfl rfl rfl
      have hCertain : w.randomStep = 1.0 → drawn.1 = true := by
        intro hOne
        rw [hOne, ChaCha.chance, if_pos (by decide +kernel)] at hDrawn
        rw [← Except.ok.inj hDrawn]
      refine (w.ends_pickEither hp hTracks hc hCertain).mono ?_ ?_
      · rintro v s' ⟨hMem, hTracks', hChose⟩
        refine ⟨hMem, hTracks', ?_, hChose.atMostOne, hChose.certain⟩
        rw [hChose.onlyPicks]
      · rintro e s' hStuck
        exact ⟨hStuck.tracks, hStuck.violated, hStuck.nothingToFlip⟩
    · refine ⟨h, rfl, fun hProper => ?_⟩
      obtain ⟨drawn, hDrawn⟩ := ChaCha.exists_chance hProper s.generator
      rw [hDrawn] at hRefused
      cases hRefused
  · rw [ends_bind, ends_pure]
    refine w.ends_pickEither hp h hc fun hOne => absurd ?_ hNever
    rw [hOne]
    decide +kernel

end Walk
end LocalRepair
