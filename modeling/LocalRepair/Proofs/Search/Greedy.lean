import LocalRepair.Proofs.Random.Stride
import LocalRepair.Proofs.Remedy
import LocalRepair.Proofs.Search.Answers

/-!
# Greedy picks are not blind

A greedy pick goes through the propositions of a violated constraint, skips those
that do not help the constraint, and resorts to chance when none is left. It would
be blind if a constraint that can be satisfied had no proposition that helps. This
never happens to a clause, and never to a demand for connection. So chance is
resorted to only where the one proposition that helps is the one that was picked
last, and is therefore barred.

A scan is described by what is eligible and by the effects of flips. The order in
which the candidates are looked at is random, but it is an order of all of them,
so what a scan finds is described without it: a candidate that does no net harm,
or else one that does the least.

## Main results

* `Constraint.exists_favoured`: what is violated and can be satisfied favours the
  flip of one of its propositions.
* `Search.exists_inquires_scan`: what a scan comes to.
* `Search.ends_greedyPick`: what a greedy pick comes to.
* `greedy_pick_is_never_blind`.
-/

namespace LocalRepair

open Search State

variable {p : Problem} {s s' : State} {id v : Nat} {c : Constraint} {m : Marks}

/-! ## Something is favoured -/

/-- Resolving a demand does not make a number of pieces of it. -/
theorem Connectivity.resolve_ne_pieces {g : Graph} {demand : Connectivity Nat}
    {d : Connectivity g.Vertex} (hResolve : demand.resolve g = .ok d)
    (hNotPieces : ∀ n, demand ≠ pieces n) (n : Nat) : d ≠ pieces n := by
  rintro rfl
  cases demand with
  | whole => cases hResolve
  | pieces count => exact hNotPieces count rfl
  | pair source target =>
      simp only [resolve, bind, Except.bind] at hResolve
      split at hResolve
      · cases hResolve
      · split at hResolve <;> cases hResolve
  | sides left right =>
      simp only [resolve, bind, Except.bind] at hResolve
      split at hResolve
      · cases hResolve
      · split at hResolve <;> cases hResolve

/-- A constraint other than a demand for pieces that does not hold, and holds for
some assignment, favours the flip of one of its propositions. -/
theorem Constraint.exists_favoured (hp : p.WellFormed) (h : s.Tracks p)
    (hc : p.constraints[id]? = some c) (hNotPieces : ∀ g n, c ≠ .graph g (.pieces n))
    (hViolated : ¬ c.Holds p.graphs s.assignment) {a : Assignment}
    (hPossible : c.Holds p.graphs a) :
    ∃ v ∈ p.propositionsOf c, c.favouredIn s id v = true := by
  cases c with
  | clause k => exact Clause.exists_wanted hViolated hPossible
  | graph g demand =>
      obtain ⟨m, hMarks⟩ := h.exists_marks hc
      obtain ⟨t, d, hForest, hGraph, hResolve, hUpToDate⟩ := exists_upToDate hp h hc
      rw [holds_graph_iff hGraph hResolve] at hViolated hPossible
      have hConnection : ∀ n, d ≠ .pieces n :=
        Connectivity.resolve_ne_pieces hResolve fun n hEq => hNotPieces g n (by rw [hEq])
      obtain ⟨e, hAbsent, hHelps⟩ :=
        Connectivity.exists_helping hUpToDate.spans hConnection hViolated hPossible
      have hFalse : s.assignment.isTrue (t.graph.edge e).proposition = false :=
        Bool.not_eq_true _ ▸ hAbsent
      have hEdge := Graph.edgeBackedBy?_eq_some_iff.mpr (rfl : (t.graph.edge e).proposition = _)
      have hOwn : p.propositionsOf (.graph g demand) = t.graph.propositions := by
        simp [Problem.propositionsOf, propositions, hGraph]
      refine ⟨(t.graph.edge e).proposition, ?_, ?_⟩
      · rw [hOwn]
        exact Graph.mem_propositions.mpr ⟨e, rfl⟩
      · simp only [favouredIn, riskIn, hMarks, hForest, hResolve, hEdge, hFalse, Bool.not_false,
          Except.toOption, Option.bind_eq_bind, Option.bind_some, Option.pure_def, Option.any_some]
        exact decide_eq_true hHelps

/-! ## Scanning -/

namespace Search

section Scan

variable (eligible : Nat → Prop) (effect : Nat → Int)

/-- What a scan of some candidates may come to: an eligible candidate that does no
net harm or else the least, and nothing only if none is eligible. -/
def Chosen (candidates : List Nat) : Option Nat → Prop
  | none => ∀ w ∈ candidates, ¬ eligible w
  | some v => v ∈ candidates ∧ eligible v
      ∧ (effect v ≤ 0 ∨ ∀ w ∈ candidates, eligible w → effect v ≤ effect w)

/-- The best eligible candidate of those that were seen, with its effect. -/
def Foremost (seen : List Nat) : Option (Int × Nat) → Prop
  | none => ∀ w ∈ seen, ¬ eligible w
  | some (least, v) => v ∈ seen ∧ eligible v ∧ least = effect v
      ∧ ∀ w ∈ seen, eligible w → effect v ≤ effect w

variable {eligible effect} {seen : List Nat} {best : Option (Int × Nat)}

/-- A candidate that is not eligible changes nothing. -/
theorem Foremost.skip (h : Foremost eligible effect seen best) (hv : ¬ eligible v) :
    Foremost eligible effect (seen ++ [v]) best := by
  have hAmong : ∀ w ∈ seen ++ [v], eligible w → w ∈ seen := by
    intro w hw hEligible
    rcases List.mem_append.mp hw with hOld | hNew
    · exact hOld
    · rw [List.mem_singleton.mp hNew] at hEligible
      exact absurd hEligible hv
  cases best with
  | none => exact fun w hw hEligible => h w (hAmong w hw hEligible) hEligible
  | some held =>
      obtain ⟨hMem, hHeld, hLeast, hBelow⟩ := h
      have hStill : ∀ w ∈ seen ++ [v], eligible w → effect held.2 ≤ effect w :=
        fun w hw hEligible => hBelow w (hAmong w hw hEligible) hEligible
      exact ⟨List.mem_append_left _ hMem, hHeld, hLeast, hStill⟩

/-- An eligible candidate takes the place of the best one if it is better. -/
theorem Foremost.better (h : Foremost eligible effect seen best) (hv : eligible v) :
    Foremost eligible effect (seen ++ [v]) (better best (effect v) v) := by
  have hLast : v ∈ seen ++ [v] := by simp
  cases best with
  | none =>
      have hOnly : ∀ w ∈ seen ++ [v], eligible w → effect v ≤ effect w := by
        intro w hw hEligible
        rcases List.mem_append.mp hw with hOld | hNew
        · exact absurd hEligible (h w hOld)
        · rw [List.mem_singleton.mp hNew]
      exact ⟨hLast, hv, rfl, hOnly⟩
  | some held =>
      obtain ⟨least, u⟩ := held
      obtain ⟨hMem, hHeld, rfl, hBelow⟩ := h
      show Foremost eligible effect (seen ++ [v])
        (if effect v < effect u then some (effect v, v) else some (effect u, u))
      split
      · rename_i hLess
        have hNew : ∀ w ∈ seen ++ [v], eligible w → effect v ≤ effect w := by
          intro w hw hEligible
          rcases List.mem_append.mp hw with hOld | hNew
          · have := hBelow w hOld hEligible
            omega
          · rw [List.mem_singleton.mp hNew]
        exact ⟨hLast, hv, rfl, hNew⟩
      · rename_i hNotLess
        have hStill : ∀ w ∈ seen ++ [v], eligible w → effect u ≤ effect w := by
          intro w hw hEligible
          rcases List.mem_append.mp hw with hOld | hNew
          · exact hBelow w hOld hEligible
          · rw [List.mem_singleton.mp hNew]
            omega
        exact ⟨List.mem_append_left _ hMem, hHeld, rfl, hStill⟩

/-- At the end the best candidate is chosen. -/
theorem Foremost.chosen (h : Foremost eligible effect seen best) :
    Chosen eligible effect seen (best.map (·.2)) := by
  cases best with
  | none => exact h
  | some held =>
      obtain ⟨hMem, hHeld, _, hBelow⟩ := h
      exact ⟨hMem, hHeld, Or.inr hBelow⟩

end Scan

/-- A candidate is eligible if it was not picked last and helps. -/
def Eligible (last : Option Nat) (helpful : Nat → Bool) (v : Nat) : Prop :=
  some v ≠ last ∧ helpful v = true

/-- What is known about the candidates of a scan: they have values, whether they
help, and their net effects. -/
structure Known (p : Problem) (s : State) (helps : Nat → Search Bool) (helpful : Nat → Bool)
    (effect : Nat → Int) (v : Nat) : Prop where
  range : v < s.assignment.values.size
  helps : Inquires (helps v) s (.ok (helpful v))
  effect : Inquires (p.netRisk v (!s.assignment.isTrue v)) s (.ok (effect v))

/-- A scan of known candidates, with some of them seen already, is answered with a
choice among all of them. -/
theorem exists_inquires_scan {helps : Nat → Search Bool} {helpful : Nat → Bool}
    {effect : Nat → Int} (last : Option Nat) :
    ∀ (rest seen : List Nat) (best : Option (Int × Nat)),
      (∀ v ∈ rest, Known p s helps helpful effect v) →
      Foremost (Eligible last helpful) effect seen best →
      ∃ found, Inquires (scan p last helps rest best) s (.ok found)
        ∧ Chosen (Eligible last helpful) effect (seen ++ rest) found := by
  intro rest
  induction rest with
  | nil =>
      intro seen best _ hBest
      rw [List.append_nil]
      exact ⟨_, .pure s _, hBest.chosen⟩
  | cons v rest ih =>
      intro seen best hKnown hBest
      have hRest : ∀ w ∈ rest, Known p s helps helpful effect w :=
        fun w hw => hKnown w (List.mem_cons_of_mem _ hw)
      have hFirst := hKnown v (by simp)
      have hValue := inquires_value (s := s) v
      rw [Assignment.value_eq hFirst.range] at hValue
      rw [List.append_cons]
      unfold scan
      by_cases hLast : some v = last
      · rw [if_pos (by simpa using hLast)]
        exact ih _ _ hRest (hBest.skip fun hEligible => hEligible.1 hLast)
      · rw [if_neg (by simpa using hLast)]
        have hHelps := hFirst.helps
        cases hHelpful : helpful v with
        | false =>
            rw [hHelpful] at hHelps
            have hOut : ¬ Eligible last helpful v := by simp [Eligible, hHelpful]
            obtain ⟨found, hFound, hChosen⟩ := ih _ _ hRest (hBest.skip hOut)
            exact ⟨found, hHelps.bind hFound, hChosen⟩
        | true =>
            rw [hHelpful] at hHelps
            have hEligible : Eligible last helpful v := ⟨hLast, hHelpful⟩
            by_cases hHarmless : effect v ≤ 0
            · refine ⟨some v, hHelps.bind (hValue.bind (hFirst.effect.bind ?_)), ?_⟩
              · rw [if_pos hHarmless]
                exact .pure s _
              · exact ⟨by simp, hEligible, Or.inl hHarmless⟩
            · obtain ⟨found, hFound, hChosen⟩ := ih _ _ hRest (hBest.better hEligible)
              refine ⟨found, hHelps.bind (hValue.bind (hFirst.effect.bind ?_)), hChosen⟩
              rw [if_neg hHarmless]
              exact hFound

/-- What a scan comes to does not depend on the order of the candidates. -/
theorem Chosen.perm {eligible : Nat → Prop} {effect : Nat → Int} {vs ws : List Nat}
    {found : Option Nat} (h : Chosen eligible effect vs found) (hPerm : vs.Perm ws) :
    Chosen eligible effect ws found := by
  unfold Chosen at h ⊢
  cases found with
  | none => simpa only [hPerm.mem_iff] using h
  | some v => simpa only [hPerm.mem_iff] using h

/-! ## Picking -/

/-- Noting a pick changes the entry of the constraint, and nothing else. -/
theorem ends_notePick {returns : Nat → State → Prop} {fails : Fault → State → Prop}
    (h : s.marks[id]? = some m)
    (hReturns : returns v (s.setMarks id { m with lastPick := some v })) :
    Ends (notePick id v) s returns fails := by
  unfold notePick
  rw [ends_bind]
  exact ends_changeMarks h hReturns

/-- A random pick among some candidates takes one of them, and the one that was
picked last only if there is no other. -/
theorem ends_randomPick {candidates : List Nat} (hAny : candidates ≠ [])
    (h : s.marks[id]? = some m) :
    Ends (randomPick id candidates) s (fun v s' => v ∈ candidates
      ∧ (some v = m.lastPick → ∀ w ∈ candidates, some w = m.lastPick)
      ∧ s' = State.setMarks { s with
          generator := s'.generator, randomPicks := s.randomPicks + 1 } id
            { m with lastPick := some v }) Never := by
  unfold randomPick
  rw [ends_bind]
  apply ends_marksOf h
  dsimp only
  split
  · rename_i hAllowed
    rw [ends_bind, ends_draw]
    generalize ChaCha.below _ hAllowed s.generator = drawn
    have hPicked := List.mem_filter.mp (List.getElem_mem drawn.1.isLt)
    have hOther : some (candidates.filter fun v => some v != m.lastPick)[drawn.1] ≠ m.lastPick := by
      simpa using hPicked.2
    rw [ends_bind, ends_pure, ends_bind]
    exact ends_notePick h ⟨hPicked.1, fun hLast => absurd hLast hOther, rfl⟩
  · rename_i hBarred
    have hAll : ∀ w ∈ candidates, some w = m.lastPick := by
      intro w hw
      by_contra hOther
      have hMem : w ∈ candidates.filter fun v => some v != m.lastPick :=
        List.mem_filter.mpr ⟨hw, by simpa using hOther⟩
      exact hBarred (List.length_pos_of_mem hMem)
    cases candidates with
    | nil => exact absurd rfl hAny
    | cons v rest =>
        dsimp only
        rw [ends_bind, ends_pure, ends_bind]
        exact ends_notePick h ⟨by simp, fun _ => hAll, rfl⟩

/-- Looking up positions in an order of all positions gives the entries in another
order. -/
theorem exists_mapM_entryAt {xs is : List Nat} (h : is.Perm (List.range xs.length)) :
    ∃ ys, is.mapM (entryAt xs.toArray) = .ok ys ∧ ys.Perm xs := by
  have hLookup : ∀ js : List Nat, (∀ j ∈ js, j < xs.length) →
      js.mapM (entryAt xs.toArray) = .ok (js.map fun j => xs[j]?.getD 0) := by
    intro js
    induction js with
    | nil => exact fun _ => rfl
    | cons j js ih =>
        intro hRange
        have hj := hRange j (by simp)
        have hEntry : entryAt xs.toArray j = .ok (xs[j]?.getD 0) := by
          rw [entryAt_of_lt (by simpa using hj)]
          simp [hj]
        rw [List.mapM_cons, hEntry, ih fun k hk => hRange k (List.mem_cons_of_mem _ hk)]
        rfl
  have hWhole : (List.range xs.length).map (fun j => xs[j]?.getD 0) = xs := by
    apply List.ext_getElem
    · simp
    · intro i _ hi
      simp [hi]
  refine ⟨_, hLookup is fun j hj => List.mem_range.mp (h.mem_iff.mp hj), ?_⟩
  have hMapped := h.map fun j => xs[j]?.getD 0
  rw [hWhole] at hMapped
  exact hMapped

/-- The state after a constraint noted a pick. Besides the note, only what questions and
draws change may differ. -/
def NotedPick (s : State) (id : Nat) (m : Marks) (v : Nat) (s' : State) : Prop :=
  s' = { s with
    marks := s.marks.setIfInBounds id { m with lastPick := some v }
    forests := s'.forests
    generator := s'.generator
    randomPicks := s'.randomPicks }

/-- A greedy pick among known candidates returns what a scan chooses, and resorts
to a random pick if nothing is eligible. -/
theorem ends_greedyPick {candidates : List Nat} {helps : Nat → Search Bool}
    {helpful : Nat → Bool} {effect : Nat → Int} (hAny : candidates ≠ [])
    (hMarks : s.marks[id]? = some m)
    (hKnown : ∀ generator, ∀ v ∈ candidates, Known p { s with generator } helps helpful effect v) :
    Ends (greedyPick p id candidates helps) s (fun v s' => v ∈ candidates
      ∧ NotedPick s id m v s'
      ∧ ((s'.randomPicks = s.randomPicks
          ∧ Chosen (Eligible m.lastPick helpful) effect candidates (some v))
        ∨ (s'.randomPicks = s.randomPicks + 1
          ∧ (∀ w ∈ candidates, ¬ Eligible m.lastPick helpful w)
          ∧ (some v = m.lastPick → ∀ w ∈ candidates, some w = m.lastPick)))) Never := by
  unfold greedyPick
  rw [if_neg (by simpa using hAny), ends_bind]
  apply ends_marksOf hMarks
  -- The order is generalized, or unfolding the draw would compute it.
  have hOrder := StridedOrder.perm_toList_new candidates.length s.generator
  rw [ends_bind, ends_draw]
  generalize StridedOrder.new candidates.length s.generator = drawn at hOrder ⊢
  obtain ⟨inOrder, hLookup, hPerm⟩ := exists_mapM_entryAt hOrder
  rw [ends_bind]
  apply ends_of hLookup
  obtain ⟨found, hScan, hChosen⟩ := exists_inquires_scan (s := { s with generator := drawn.2 })
    m.lastPick inOrder [] none (fun v hv => hKnown drawn.2 v (hPerm.mem_iff.mp hv))
    (fun w hw => absurd hw (by simp))
  have hChosen' := hChosen.perm hPerm
  apply hScan.ends_ok.bind
  rintro found s₁ ⟨rfl, hRedirected⟩
  have hMarks₁ : s₁.marks[id]? = some m := by
    rw [hRedirected.marks]
    exact hMarks
  have hCount : s₁.randomPicks = s.randomPicks := by
    rw [hRedirected.onlyForests]
  have hSame := hRedirected.onlyForests
  cases found with
  | some v =>
      apply ends_notePick hMarks₁
      refine ⟨hChosen'.1, ?_, Or.inl ⟨hCount, hChosen'⟩⟩
      rw [NotedPick, hSame]
      rfl
  | none =>
      apply (ends_randomPick hAny hMarks₁).weaken
      rintro v s₂ ⟨hMem, hTabu, hAfter⟩
      refine ⟨hMem, ?_, Or.inr ⟨?_, hChosen', hTabu⟩⟩
      · rw [NotedPick, hAfter, hSame]
        rfl
      · rw [hAfter, ← hCount]
        rfl

end Search

/-! ## Never blind -/

/-- What is known about the propositions of a constraint where the record is right.
The generator does not matter. -/
theorem Search.known_of_tracks (hp : p.WellFormed) (h : s.Tracks p)
    (hc : p.constraints[id]? = some c) (generator : ChaCha) (hv : v ∈ p.propositionsOf c) :
    Known p { s with generator } (fun w => c.favours id w) (fun w => c.favouredIn s id w)
      (p.effectIn s) v := by
  have hTracks : State.Tracks { s with generator } p := h.of_tables rfl rfl rfl rfl
  have hNamed := hp.named hc hv
  have hRange := h.lt_of_named hNamed
  have hHelps := c.inquires_favouredIn hp hTracks hc hRange
  have hFavoured : c.favouredIn { s with generator } id v = c.favouredIn s id v := by
    cases c <;> rfl
  rw [hFavoured] at hHelps
  exact ⟨hRange, hHelps, Problem.inquires_effectIn hp hTracks hNamed⟩

/-- In a reached state, consider a clause or a demand for connection that is
recorded as violated and that some assignment satisfies. It favours the flip of at
least one of its propositions. A greedy pick for it returns, and either it picks
greedily or every proposition that the constraint favours is the one that it picked
last. -/
theorem greedy_pick_is_never_blind (hp : p.Built) (h : Reached p s)
    (hc : p.constraints[id]? = some c) (hNotPieces : ∀ g n, c ≠ .graph g (.pieces n))
    (hViolated : id ∈ s.violated.toList) (hPossible : ∃ a, c.Holds p.graphs a) :
    (∃ v s', v ∈ p.propositionsOf c ∧ c.favours id v s = .ok true s')
      ∧ ∃ m v s', s.marks[id]? = some m ∧ greedyPickFor p id c s = .ok v s'
        ∧ v ∈ p.propositionsOf c
        ∧ (s'.randomPicks = s.randomPicks
          ∨ (s'.randomPicks = s.randomPicks + 1 ∧ ∀ w ∈ p.propositionsOf c, ∀ s'',
            c.favours id w s = .ok true s'' → m.lastPick = some w)) := by
  have hWellFormed := hp.wellFormed
  have hTracks := h.tracks hWellFormed
  obtain ⟨a, hHolds⟩ := hPossible
  have hFalse := (hTracks.settled id c hc).violated.mp hViolated
  obtain ⟨v, hv, hFavoured⟩ :=
    c.exists_favoured hWellFormed hTracks hc hNotPieces hFalse hHolds
  have hAnswer : ∀ w ∈ p.propositionsOf c,
      Inquires (c.favours id w) s (.ok (c.favouredIn s id w)) := by
    intro w hw
    exact c.inquires_favouredIn hWellFormed hTracks hc
      (hTracks.lt_of_named (hWellFormed.named hc hw))
  obtain ⟨m, hMarks⟩ := hTracks.exists_marks hc
  constructor
  · obtain ⟨_, s', hRun, rfl, _⟩ := (hAnswer v hv).ends_ok.exists_ok
    rw [hFavoured] at hRun
    exact ⟨v, s', hv, hRun⟩
  · have hAny : p.propositionsOf c ≠ [] := List.ne_nil_of_mem hv
    obtain ⟨u, s', hRun, hu, _, hPicked⟩ := (ends_greedyPick hAny hMarks fun generator w hw =>
      known_of_tracks hWellFormed hTracks hc generator hw).exists_ok
    refine ⟨m, u, s', hMarks, hRun, hu, ?_⟩
    rcases hPicked with ⟨hCount, _⟩ | ⟨hCount, hNone, _⟩
    · exact Or.inl hCount
    · refine Or.inr ⟨hCount, fun w hw s'' hWanted => ?_⟩
      have hTrue := ((hAnswer w hw).ends_ok.of_ok hWanted).1
      by_contra hOther
      exact hNone w hw ⟨fun hLast => hOther hLast.symm, hTrue.symm⟩

/-- The clause of the small problem is violated while everything is false, and is
picked for. -/
theorem greedy_pick_is_never_blind_small :
    ∃ s v s₁ u s₂, Reached .small s ∧ 0 ∈ s.violated.toList
      ∧ (Constraint.clause (.exactly [⟨1⟩, ⟨1⟩, ⟨-2⟩] 3)).favours 0 v s = .ok true s₁
      ∧ greedyPickFor .small 0 (.clause (.exactly [⟨1⟩, ⟨1⟩, ⟨-2⟩] 3)) s = .ok u s₂ := by
  have hWellFormed := Problem.built_small.wellFormed
  obtain ⟨s, hReached, hFalse⟩ := exists_reached hWellFormed
  have hClause : Problem.small.constraints[0]?
      = some (.clause (.exactly [⟨1⟩, ⟨1⟩, ⟨-2⟩] 3)) := rfl
  have hViolated : 0 ∈ s.violated.toList := by
    rw [((hReached.tracks hWellFormed).settled 0 _ hClause).violated, hFalse]
    show ¬ Clause.Holds _ _
    decide
  have hPossible : ∃ a, (Constraint.clause (.exactly [⟨1⟩, ⟨1⟩, ⟨-2⟩] 3)).Holds
      Problem.small.graphs a := by
    refine ⟨⟨#[false, true, false, false]⟩, ?_⟩
    show Clause.Holds _ _
    decide
  obtain ⟨⟨v, s₁, _, hWanted⟩, _, u, s₂, _, hPicked, _⟩ :=
    greedy_pick_is_never_blind Problem.built_small hReached hClause (by simp) hViolated hPossible
  exact ⟨s, v, s₁, u, s₂, hReached, hViolated, hWanted, hPicked⟩

end LocalRepair
