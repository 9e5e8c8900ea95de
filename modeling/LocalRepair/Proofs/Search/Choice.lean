import LocalRepair.Proofs.Search.Asking
import LocalRepair.Proofs.Search.Greedy

/-!
# What a greedy pick chooses

A greedy pick is described in terms of what can be asked in the state that it starts from:
which propositions the constraint favours, and what their flips would do on the whole. A
proposition may be picked if the constraint favours it and did not pick it last. Of those
that may be picked, one whose flip does no net harm is taken, if there is one, and else one
that does the least; and chance decides if there is none.

The pick itself does not come to its answers in that state. It draws an order first, and
every question on the way may compress the forests. But questions come to the same after
other questions, and none of them looks at the generator.

## Main results

* `mayPick_iff`, `costs_iff`: the two questions read off a state.
* `leastHarm_of_chosen`: what a scan chooses.
* `greedy_pick_does_least_harm`.
-/

namespace LocalRepair

open Search State

variable {p : Problem} {s : State} {id v : Nat} {c : Constraint} {m : Marks} {delta : Int}

/-- In this state, a constraint that has these marks may pick the proposition greedily: it
is one of its own, was not picked last, and the constraint favours its flip. -/
def MayPick (p : Problem) (s : State) (id : Nat) (c : Constraint) (m : Marks) (v : Nat) : Prop :=
  v ∈ p.propositionsOf c ∧ m.lastPick ≠ some v ∧ outcomeOf (c.favours id v) s = .ok true

/-- In this state, the net effect of flipping the proposition is estimated by `delta`. -/
def Costs (p : Problem) (s : State) (v : Nat) (delta : Int) : Prop :=
  outcomeOf (p.netRisk v (!s.assignment.isTrue v)) s = .ok delta

/-- The proposition may be picked, and of those that may be picked it does the least harm:
no net harm if that can be had, and else no more than any other. -/
def LeastHarm (p : Problem) (s : State) (id : Nat) (c : Constraint) (m : Marks) (v : Nat) :
    Prop :=
  MayPick p s id c m v ∧ ∃ d, Costs p s v d
    ∧ ((∃ w d', MayPick p s id c m w ∧ Costs p s w d' ∧ d' ≤ 0) → d ≤ 0)
    ∧ ((∀ w d', MayPick p s id c m w → Costs p s w d' → 0 < d') →
      ∀ w d', MayPick p s id c m w → Costs p s w d' → d ≤ d')

/-- What a question comes to in the state itself. -/
theorem Inquires.outcomeOf_eq {α : Type} {x : Search α} {o : Except Fault α}
    (h : Inquires x s o) : outcomeOf x s = o :=
  (h.after (.refl s)).1

section Reading

variable (hp : p.WellFormed) (h : s.Tracks p) (hc : p.constraints[id]? = some c)
include hp h hc

/-- Whether a constraint favours one of its propositions is answered. -/
theorem outcomeOf_favours (hv : v ∈ p.propositionsOf c) :
    outcomeOf (c.favours id v) s = .ok (c.favouredIn s id v) :=
  (c.inquires_favouredIn hp h hc (h.lt_of_named (hp.named hc hv))).outcomeOf_eq

theorem mayPick_iff :
    MayPick p s id c m v
      ↔ v ∈ p.propositionsOf c ∧ Eligible m.lastPick (fun w => c.favouredIn s id w) v := by
  constructor
  · rintro ⟨hv, hOther, hFavoured⟩
    rw [outcomeOf_favours hp h hc hv] at hFavoured
    exact ⟨hv, fun hLast => hOther hLast.symm, Except.ok.inj hFavoured⟩
  · rintro ⟨hv, hOther, hFavoured⟩
    refine ⟨hv, fun hLast => hOther hLast.symm, ?_⟩
    rw [outcomeOf_favours hp h hc hv]
    exact congrArg Except.ok hFavoured

theorem costs_iff (hv : v ∈ p.propositionsOf c) : Costs p s v delta ↔ delta = p.effectIn s v := by
  unfold Costs
  rw [(p.inquires_effectIn hp h (hp.named hc hv)).outcomeOf_eq]
  exact ⟨fun hEq => (Except.ok.inj hEq).symm, fun hEq => congrArg Except.ok hEq.symm⟩

/-- What a scan chooses does the least harm. -/
theorem leastHarm_of_chosen
    (hChosen : Chosen (Eligible m.lastPick fun w => c.favouredIn s id w) (p.effectIn s)
      (p.propositionsOf c) (some v)) : LeastHarm p s id c m v := by
  obtain ⟨hv, hEligible, hLeast⟩ := hChosen
  have hOwn : MayPick p s id c m v := (mayPick_iff hp h hc).mpr ⟨hv, hEligible⟩
  have hCost : Costs p s v (p.effectIn s v) := (costs_iff hp h hc hv).mpr rfl
  -- Unless it does no net harm, it does no more than any other.
  have hBelow : ∀ w d, MayPick p s id c m w → Costs p s w d →
      p.effectIn s v ≤ 0 ∨ p.effectIn s v ≤ d := by
    intro w d hPick hd
    obtain ⟨hw, hOther⟩ := (mayPick_iff hp h hc).mp hPick
    rw [(costs_iff hp h hc hw).mp hd]
    exact hLeast.imp_right fun hAll => hAll w hw hOther
  refine ⟨hOwn, _, hCost, ?_, fun hHarm w d hPick hd => ?_⟩
  · rintro ⟨w, d, hPick, hd, hHarmless⟩
    rcases hBelow w d hPick hd with hSelf | hLess
    · exact hSelf
    · exact Int.le_trans hLess hHarmless
  · have hPositive := hHarm v _ hOwn hCost
    exact (hBelow w d hPick hd).resolve_left (Int.not_le.mpr hPositive)

end Reading

/-- In a reached state, whatever the generator is going to draw, a greedy pick of a
constraint with propositions returns one of them and notes it for this constraint only. If
some proposition may be picked, the one that is returned does the least harm of them, and no
random pick is counted. If none may be picked, one random pick is counted, and the
proposition that was picked last is returned only if there is no other. -/
theorem greedy_pick_does_least_harm (hp : p.Built) (h : Reached p s)
    (hc : p.constraints[id]? = some c) (hAny : p.propositionsOf c ≠ []) (generator : ChaCha) :
    (∀ w ∈ p.propositionsOf c,
        ∃ b d, outcomeOf (c.favours id w) s = .ok b ∧ Costs p s w d)
      ∧ ∃ m v s', s.marks[id]? = some m
        ∧ greedyPickFor p id c { s with generator } = .ok v s'
        ∧ v ∈ p.propositionsOf c
        ∧ NotedPick { s with generator } id m v s'
        ∧ ((∃ w, MayPick p s id c m w) ∧ s'.randomPicks = s.randomPicks ∧ LeastHarm p s id c m v
          ∨ (∀ w, ¬ MayPick p s id c m w) ∧ s'.randomPicks = s.randomPicks + 1
            ∧ ((∃ w ∈ p.propositionsOf c, m.lastPick ≠ some w) → m.lastPick ≠ some v)) := by
  have hWellFormed := hp.wellFormed
  have hTracks := h.tracks hWellFormed
  constructor
  · intro w hw
    exact ⟨_, _, outcomeOf_favours hWellFormed hTracks hc hw,
      (costs_iff hWellFormed hTracks hc hw).mpr rfl⟩
  obtain ⟨m, hMarks⟩ := hTracks.exists_marks hc
  have hPick := ends_greedyPick (s := { s with generator }) hAny hMarks fun other w hw =>
    known_of_tracks hWellFormed hTracks hc other hw
  obtain ⟨v, s', hRun, hv, hNoted, hPicked⟩ := hPick.exists_ok
  refine ⟨m, v, s', hMarks, hRun, hv, hNoted, ?_⟩
  rcases hPicked with ⟨hCount, hChosen⟩ | ⟨hCount, hNone, hLast⟩
  · have hLeast := leastHarm_of_chosen hWellFormed hTracks hc hChosen
    exact Or.inl ⟨⟨v, hLeast.1⟩, hCount, hLeast⟩
  · refine Or.inr ⟨fun w hMay => ?_, hCount, ?_⟩
    · obtain ⟨hw, hEligible⟩ := (mayPick_iff hWellFormed hTracks hc).mp hMay
      exact hNone w hw hEligible
    · rintro ⟨w, hw, hOther⟩ hSame
      exact hOther (hLast hSame.symm w hw).symm

/-- With everything false, the clause of the small problem picks one of its two
propositions, and notes it. -/
theorem greedy_pick_does_least_harm_small :
    ∃ s v s', Reached .small s
      ∧ greedyPickFor .small 0 (.clause (.exactly [⟨1⟩, ⟨1⟩, ⟨-2⟩] 3))
          { s with generator := .seeded 7 } = .ok v s'
      ∧ v ∈ [1, 2]
      ∧ ∃ d, Costs .small s v d := by
  obtain ⟨s, hReached, _⟩ := exists_reached Problem.built_small.wellFormed
  have hClause : Problem.small.constraints[0]?
      = some (.clause (.exactly [⟨1⟩, ⟨1⟩, ⟨-2⟩] 3)) := rfl
  obtain ⟨hAnswers, _, v, s', _, hRun, hOwn, _⟩ := greedy_pick_does_least_harm
    Problem.built_small hReached hClause (by decide) (.seeded 7)
  obtain ⟨_, d, _, hCost⟩ := hAnswers v hOwn
  exact ⟨s, v, s', hReached, hRun, hOwn, d, hCost⟩

end LocalRepair
