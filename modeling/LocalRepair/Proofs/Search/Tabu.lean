import LocalRepair.Proofs.Search.Asking
import LocalRepair.Proofs.Search.Memory

/-!
# No pick is repeated

A constraint that is repaired again does not pick the proposition that it picked the last
time, unless it has no other. The rule is one of a single pick: it compares with what is
remembered for the constraint, and remembers the new pick in its place. That consecutive
picks differ, however much happens in between, needs that nothing else touches the memory.
Flips and questions do not, and a pick for another constraint goes into the memory of that
constraint.

`Turn` lists what can happen, with the picks as answers. A walk is made of turns, whatever
its settings are, and so is any other mixture of picks and flips.

## Main results

* `Turn.works`: what a turn does to the memories.
* `picksFor_along`: the picks for one constraint along many turns.
* `Walk.exists_turns`: a walk as a list of turns.
* `no_pick_is_repeated`.
-/

namespace LocalRepair

open Search State

variable {α : Type} {p : Problem} {s s' : State} {id v : Nat} {c : Constraint}

/-! ## Turns -/

/-- What may happen to a search that was evaluated: picks and flips in any order, with
questions in between. Generators and counters may be exchanged at any time, as they are
by draws and by the counting of a walk. -/
inductive Turn where
  | greedyPick (id : Nat)
  | randomPick (id : Nat)
  | flip (v : Nat)
  | ask (q : Question)
  | reseed (generator : ChaCha)
  | recount (tally : Stats)

namespace Turn

/-- The turn as a step. A pick is answered with the constraint and what it picked. -/
def perform (p : Problem) : Turn → Search (Option (Nat × Nat))
  | greedyPick id => do return some (id, ← greedyPickFor p id (← Search.of (p.constraint id)))
  | randomPick id => do return some (id, ← randomPickFor p id (← Search.of (p.constraint id)))
  | flip v => do
    Walk.flip p v
    return none
  | ask q => do
    let _answer ← q.ask p
    return none
  | reseed generator => do
    modify fun s => { s with generator }
    return none
  | recount tally => do
    modify fun s => { s with tally }
    return none

/-- The constraint that picks. -/
def picker : Turn → Option Nat
  | greedyPick id => some id
  | randomPick id => some id
  | _ => none

/-- The proposition that is flipped. -/
def flipped : Turn → Option Nat
  | flip v => some v
  | _ => none

/-- The pick of a turn at a state, if it returns one. -/
def picked (p : Problem) (turn : Turn) (s : State) : Option (Nat × Nat) :=
  match turn.perform p s with
  | .ok found _ => found
  | .error _ _ => none

/-- A turn keeps the record right. -/
theorem keeps_tracks (hp : p.WellFormed) (turn : Turn) :
    Keeps (turn.perform p) (·.Tracks p) := by
  have hPick : ∀ (id : Nat) (pick : Constraint → Search Nat),
      (∀ c a, p.constraints[id]? = some c →
        Respects (pick c) (Diagonal fun s => s.Tracks p ∧ s.assignment = a)) →
      Keeps (do return some (id, ← pick (← Search.of (p.constraint id)))) (·.Tracks p) := by
    intro id pick hRespects
    refine Keeps.forget State.assignment fun a => Respects.keeps ?_
    exact Problem.respects_constraint id fun c hc => (hRespects c a hc).bind fun _ => .pure _
  cases turn with
  | greedyPick id =>
      exact hPick id _ fun c a hc => ((robust_tracks hp a).yields_greedyPickFor hc).respects
  | randomPick id =>
      exact hPick id _ fun c a _ => ((robust_tracks hp a).yields_randomPick id _).respects
  | flip v => exact (Walk.keeps_flip_tracks hp v).bind fun _ => .pure _
  | ask q =>
      refine Keeps.bind ?_ fun _ => .pure _
      exact Keeps.forget State.assignment fun a =>
        Inquires.keeps fun s hs => q.exists_inquires hp hs
  | reseed generator => exact fun s h => h.of_tables rfl rfl rfl rfl
  | recount tally => exact fun s h => h.of_tables rfl rfl rfl rfl

/-- What a turn does to the memories: the constraint that picks remembers its pick, and
all else is left alone. -/
structure Effect (p : Problem) (s : State) (found : Option (Nat × Nat)) (s' : State) : Prop where
  pick : ∀ id v, found = some (id, v) →
    ∃ c, p.constraints[id]? = some c ∧ Picked s id (p.propositionsOf c) v s'
  noPick : found = none → s'.lastPick = s.lastPick

/-- The turn has its effect. If it picks, then it returns the pick of the constraint, unless
there is no such constraint, or it has no propositions. -/
def Works (p : Problem) (turn : Turn) (s : State) : Prop :=
  Ends (turn.perform p) s
    (fun found s' => Effect p s found s' ∧ found.map Prod.fst = turn.picker)
    fun _ s' => s'.lastPick = s.lastPick
      ∧ ∀ id c, turn.picker = some id → p.constraints[id]? = some c → p.propositionsOf c = []

/-- A step that leaves the memories alone and is no pick. -/
theorem works_of_remembers {x : Search α} {turn : Turn} (hx : Remembers x)
    (hPerform : turn.perform p = x >>= fun _ => pure none) (hPicker : turn.picker = none) :
    Works p turn s := by
  rw [Works, hPerform, hPicker, ends_bind]
  refine (hx _ s rfl).mono (fun _ s' hSame => ?_) fun _ s' hSame => ⟨hSame, by simp⟩
  exact ⟨⟨by simp, fun _ => hSame⟩, rfl⟩

/-- A pick for a constraint. -/
theorem works_of_picks {turn : Turn} {pick : Constraint → Search Nat}
    (hPerform : turn.perform p = do return some (id, ← pick (← Search.of (p.constraint id))))
    (hPicker : turn.picker = some id)
    (hPick : ∀ c, p.constraints[id]? = some c → p.propositionsOf c ≠ [] →
      Ends (pick c) s (Picked s id (p.propositionsOf c)) Never)
    (hNone : ∀ c, p.propositionsOf c = [] →
      Ends (pick c) s (fun _ _ => False) fun _ s' => s'.lastPick = s.lastPick) :
    Works p turn s := by
  rw [Works, hPerform, hPicker, ends_bind]
  refine ends_of_any (fun c hLookup => ?_) fun e hLookup => ⟨rfl, fun j c hj hc => ?_⟩
  · have hc := entryAt_eq_ok_iff.mp hLookup
    rw [ends_bind]
    by_cases hAny : p.propositionsOf c = []
    · refine (hNone c hAny).mono (fun _ _ hFalse => hFalse.elim) fun _ s' hSame => ⟨hSame, ?_⟩
      intro j c' hj hc'
      rw [← Option.some.inj hj, hc] at hc'
      rw [← Option.some.inj hc', hAny]
    · apply (hPick c hc hAny).weaken
      intro v s' hPicked
      refine ⟨⟨?_, by simp⟩, rfl⟩
      rintro j w hFound
      cases hFound
      exact ⟨c, hc, hPicked⟩
  · rw [← Option.some.inj hj, ← entryAt_eq_ok_iff] at hc
    cases hLookup.symm.trans hc

/-- Where the record is right, every turn works. -/
theorem works (hp : p.WellFormed) (h : s.Tracks p) (turn : Turn) : Works p turn s := by
  cases turn with
  | greedyPick id =>
      refine works_of_picks rfl rfl (fun c hc hAny => ends_greedyPickFor hp h hc hAny) ?_
      intro c hNone
      unfold greedyPickFor Search.greedyPick
      rw [hNone]
      exact rfl
  | randomPick id =>
      refine works_of_picks rfl rfl (fun c hc hAny => ends_randomPickFor h hc hAny) ?_
      intro c hNone
      unfold randomPickFor Search.randomPick
      rw [hNone, ends_bind, marksOf, ends_bind, ends_get]
      exact ends_of_any (fun _ _ => rfl) fun _ _ => rfl
  | flip v => exact works_of_remembers (Walk.remembers_flip p v) rfl rfl
  | ask q =>
      obtain ⟨o, ho⟩ := q.exists_inquires hp h
      rw [Works, perform, ends_bind]
      refine ho.ends.mono (fun _ s' hEnd => ?_) fun _ s' hRedirected => ?_
      · exact ⟨⟨by simp, fun _ => lastPick_of_marks hEnd.2.marks⟩, rfl⟩
      · exact ⟨lastPick_of_marks hRedirected.marks, by simp [picker]⟩
  | reseed generator => exact works_of_remembers (.write (by intro s; rfl)) rfl rfl
  | recount tally => exact works_of_remembers (.write (by intro s; rfl)) rfl rfl

/-- What a turn that works comes to, whether it returned or failed. -/
theorem Works.effect {turn : Turn} (h : Works p turn s) :
    Effect p s (turn.picked p s) (leftBy (turn.perform p) s)
      ∧ (∀ id v, turn.picked p s = some (id, v) → turn.picker = some id)
      ∧ ∀ id c, turn.picker = some id → p.constraints[id]? = some c → p.propositionsOf c ≠ [] →
        ∃ v, turn.picked p s = some (id, v) := by
  unfold Works Ends at h
  unfold picked leftBy
  split at h
  · rename_i found s' hStep
    rw [hStep]
    obtain ⟨hEffect, hPicker⟩ := h
    refine ⟨hEffect, ?_, ?_⟩
    · intro id v hFound
      rw [← hPicker, show found = some (id, v) from hFound, Option.map_some]
    · intro id c hId _ _
      rw [hId] at hPicker
      obtain ⟨⟨j, v⟩, hFound, rfl⟩ := Option.map_eq_some_iff.mp hPicker
      exact ⟨v, hFound⟩
  · rename_i e s' hStep
    rw [hStep]
    obtain ⟨hSame, hNone⟩ := h
    refine ⟨⟨by simp, fun _ => hSame⟩, by simp, ?_⟩
    intro id c hId hc hAny
    exact absurd (hNone id c hId hc) hAny

/-- The memory of a constraint changes with its own picks only. -/
theorem Effect.lastPick_eq {found : Option (Nat × Nat)} (h : Effect p s found s')
    (hOther : ∀ v, found ≠ some (id, v)) : s'.lastPick id = s.lastPick id := by
  cases found with
  | none => rw [h.noPick rfl]
  | some pick =>
      obtain ⟨j, v⟩ := pick
      obtain ⟨c, _, hPicked⟩ := h.pick j v rfl
      apply hPicked.other
      rintro rfl
      exact hOther v rfl

end Turn

/-! ## Many turns -/

/-- The state after some turns, any of which may have failed. -/
def turned (p : Problem) (s : State) (turns : List Turn) : State :=
  turns.foldl (fun s turn => leftBy (turn.perform p) s) s

/-- The picks along some turns, each with the constraint that picked. -/
def picksAlong (p : Problem) (s : State) : List Turn → List (Nat × Nat)
  | [] => []
  | turn :: turns => (turn.picked p s).toList ++ picksAlong p (leftBy (turn.perform p) s) turns

/-- What one constraint picked. -/
def picksFor (id : Nat) (picks : List (Nat × Nat)) : List Nat :=
  (picks.filter (·.1 == id)).map (·.2)

theorem picksFor_own {rest : List (Nat × Nat)} :
    picksFor id ((some (id, v)).toList ++ rest) = v :: picksFor id rest := by
  simp [picksFor]

theorem picksFor_other {found : Option (Nat × Nat)} {rest : List (Nat × Nat)}
    (h : ∀ v, found ≠ some (id, v)) :
    picksFor id (found.toList ++ rest) = picksFor id rest := by
  cases found with
  | none => rfl
  | some pick =>
      obtain ⟨j, v⟩ := pick
      have hj : j ≠ id := by
        rintro rfl
        exact h v rfl
      simp [picksFor, hj]

/-- Along any turns the record stays right, and a constraint picks among its propositions,
starting with another one than it remembers and never the same one twice in a row. -/
theorem picksFor_along (hp : p.WellFormed) (hc : p.constraints[id]? = some c)
    (turns : List Turn) :
    ∀ s : State, s.Tracks p → (turned p s turns).Tracks p
      ∧ (∀ v ∈ picksFor id (picksAlong p s turns), v ∈ p.propositionsOf c)
      ∧ (2 ≤ (p.propositionsOf c).length →
        List.IsChain (· ≠ ·) ((s.lastPick id).toList ++ picksFor id (picksAlong p s turns))) := by
  -- The chain starts with what is remembered, so that a turn extends it at the front.
  induction turns with
  | nil =>
      intro s h
      refine ⟨h, by simp [picksAlong, picksFor], fun _ => ?_⟩
      cases hLast : s.lastPick id <;> simp [picksAlong, picksFor]
  | cons turn turns ih =>
      intro s h
      have hTracks : (leftBy (turn.perform p) s).Tracks p := (turn.keeps_tracks hp s h).leftBy
      obtain ⟨hEffect, _⟩ := (turn.works hp h).effect
      obtain ⟨hLater, hMem, hChain⟩ := ih _ hTracks
      refine ⟨hLater, ?_⟩
      rw [picksAlong]
      by_cases hOwn : ∃ v, turn.picked p s = some (id, v)
      · obtain ⟨v, hFound⟩ := hOwn
        obtain ⟨c', hc', hPicked⟩ := hEffect.pick id v hFound
        rw [hc] at hc'
        obtain rfl := Option.some.inj hc'
        rw [hFound, picksFor_own]
        refine ⟨List.forall_mem_cons.mpr ⟨hPicked.mem, hMem⟩, fun hTwo => ?_⟩
        have hNew := hPicked.ne_lastPick (Constraint.propositions_nodup _ c) hTwo
        have hRest := hChain hTwo
        rw [hPicked.own] at hRest
        cases hLast : s.lastPick id with
        | none => exact hRest
        | some u =>
            have hNe : u ≠ v := by
              rintro rfl
              exact hNew hLast
            exact List.isChain_cons_cons.mpr ⟨hNe, hRest⟩
      · have hOther : ∀ v, turn.picked p s ≠ some (id, v) := not_exists.mp hOwn
        rw [picksFor_other hOther, ← hEffect.lastPick_eq hOther]
        exact ⟨hMem, hChain⟩

/-! ## Walks as turns -/

theorem picksAlong_append (turns more : List Turn) :
    ∀ s : State, picksAlong p s (turns ++ more)
      = picksAlong p s turns ++ picksAlong p (turned p s turns) more := by
  induction turns with
  | nil => exact fun s => rfl
  | cons turn turns ih =>
      intro s
      rw [List.cons_append, picksAlong, picksAlong, ih, List.append_assoc]
      rfl

/-- Some turns lead from one state to the other, with these picks and flips. -/
def LeadsTo (p : Problem) (s : State) (picks : List (Nat × Nat)) (flips : List Nat) (s' : State) :
    Prop :=
  ∃ turns, s' = turned p s turns ∧ picksAlong p s turns = picks
    ∧ turns.filterMap Turn.flipped = flips

namespace LeadsTo

variable {picks : List (Nat × Nat)} {flips : List Nat}

theorem refl (p : Problem) (s : State) : LeadsTo p s [] [] s := ⟨[], rfl, rfl, rfl⟩

/-- One more turn. -/
theorem turn (h : LeadsTo p s picks flips s') (turn : Turn) :
    LeadsTo p s (picks ++ (turn.picked p s').toList) (flips ++ turn.flipped.toList)
      (leftBy (turn.perform p) s') := by
  obtain ⟨turns, rfl, rfl, rfl⟩ := h
  refine ⟨turns ++ [turn], ?_, ?_, ?_⟩
  · rw [turned, turned, List.foldl_append]
    rfl
  · rw [picksAlong_append]
    simp [picksAlong]
  · rw [List.filterMap_append]
    cases hFlipped : turn.flipped <;> simp [hFlipped]

theorem reseed (h : LeadsTo p s picks flips s') (generator : ChaCha) :
    LeadsTo p s picks flips { s' with generator } := by
  have hTurn : LeadsTo p s (picks ++ []) (flips ++ []) { s' with generator } :=
    h.turn (.reseed generator)
  simpa using hTurn

theorem recount (h : LeadsTo p s picks flips s') (tally : Stats) :
    LeadsTo p s picks flips { s' with tally } := by
  have hTurn : LeadsTo p s (picks ++ []) (flips ++ []) { s' with tally } :=
    h.turn (.recount tally)
  simpa using hTurn

/-- One more turn that is a given step, with its answer read as a pick. -/
theorem ends {x : Search α} (h : LeadsTo p s picks flips s') (turn : Turn)
    (found : α → Option (Nat × Nat))
    (hPerform : turn.perform p s' = (x >>= fun a => pure (found a)) s') :
    Ends x s'
      (fun a s'' => LeadsTo p s (picks ++ (found a).toList) (flips ++ turn.flipped.toList) s'')
      fun _ s'' => LeadsTo p s picks (flips ++ turn.flipped.toList) s'' := by
  have hTurn := h.turn turn
  unfold Turn.picked leftBy at hTurn
  unfold Ends
  cases hStep : x s' with
  | ok a s'' =>
      rw [hPerform, bind_of_ok hStep] at hTurn
      exact hTurn
  | error e s'' =>
      rw [hPerform, bind_of_error hStep] at hTurn
      simpa using hTurn

end LeadsTo

namespace Walk

variable {picks : List (Nat × Nat)} {flips : List Nat}

/-- A pick of a walk is a draw and a turn. -/
theorem ends_pick_leadsTo (w : Walk) (h : LeadsTo p s picks flips s') :
    Ends (w.pick p id) s' (fun v s'' => LeadsTo p s (picks ++ [(id, v)]) flips s'')
      fun _ s'' => LeadsTo p s picks flips s'' := by
  have hEither : ∀ c s₁, p.constraint id = .ok c → LeadsTo p s picks flips s₁ →
      ∀ atRandom : Bool,
        Ends (if atRandom then randomPickFor p id c else greedyPickFor p id c) s₁
          (fun v s'' => LeadsTo p s (picks ++ [(id, v)]) flips s'')
          fun _ s'' => LeadsTo p s picks flips s'' := by
    intro c s₁ hc h₁ atRandom
    have hTurn : ∀ (pick : Constraint → Search Nat) (turn : Turn), turn.flipped = none →
        (turn.perform p = do return some (id, ← pick (← Search.of (p.constraint id)))) →
        Ends (pick c) s₁ (fun v s'' => LeadsTo p s (picks ++ [(id, v)]) flips s'')
          fun _ s'' => LeadsTo p s picks flips s'' := by
      intro pick turn hFlipped hPerform
      have hEnds := h₁.ends (x := pick c) turn (fun v => some (id, v)) (by rw [hPerform, hc]; rfl)
      simpa [hFlipped] using hEnds
    exact ends_ite (fun _ => hTurn _ (.randomPick id) rfl rfl)
      fun _ => hTurn _ (.greedyPick id) rfl rfl
  unfold pick
  rw [ends_bind]
  refine ends_of_any (fun c hc => ?_) fun _ _ => h
  refine ends_ite (fun _ => ?_) fun _ => hEither c s' hc h false
  rw [ends_bind, ends_get, ends_bind]
  refine ends_of_any (fun drawn _ => ?_) fun _ _ => h
  exact hEither c _ hc (h.reseed drawn.2) drawn.1

/-- A step of a walk flips what it picked. -/
theorem ends_step_leadsTo (w : Walk) (h : LeadsTo p s picks (picks.map Prod.snd) s') :
    Ends (w.step p id) s' (fun _ s'' => ∃ picks, LeadsTo p s picks (picks.map Prod.snd) s'')
      fun _ s'' => ∃ picks, LeadsTo p s picks (picks.map Prod.snd) s'' := by
  unfold step
  rw [ends_bind]
  refine (w.ends_pick_leadsTo h).mono (fun v s₁ hPicked => ?_) fun _ _ hFail => ⟨_, hFail⟩
  rw [ends_bind]
  have hFlip := (hPicked.recount (s₁.tally.countPick id)).ends (x := flip p v) (.flip v)
    (fun _ => none) rfl
  have hSame : picks.map Prod.snd ++ [v] = (picks ++ [(id, v)]).map Prod.snd := by simp
  refine hFlip.mono (fun _ s₂ hEnd => ?_) fun _ s₂ hEnd => ?_
  · refine ⟨picks ++ [(id, v)], ?_⟩
    rw [← hSame]
    simpa [Turn.flipped] using hEnd
  · exact ⟨picks ++ [(id, v)], hSame ▸ hEnd⟩

/-- A walk is a list of turns, in which what is picked is flipped. -/
theorem exists_turns (w : Walk) (p : Problem) (s : State) :
    ∃ turns, leftBy (w.run p) s = turned p s turns
      ∧ (picksAlong p s turns).map Prod.snd = turns.filterMap Turn.flipped := by
  have hStep : ∀ (_made id : Nat) (s' : State), id ∈ s'.violated.toList →
      (∃ picks, LeadsTo p s picks (picks.map Prod.snd) s') →
      Ends (w.step p id) s' (fun _ s'' => ∃ picks, LeadsTo p s picks (picks.map Prod.snd) s'')
        fun _ s'' => ∃ picks, LeadsTo p s picks (picks.map Prod.snd) s'' := by
    rintro _ id s' _ ⟨picks, hPicks⟩
    exact w.ends_step_leadsTo hPicks
  have hDraw : ∀ (_made : Nat) (s' : State) (generator : ChaCha),
      (∃ picks, LeadsTo p s picks (picks.map Prod.snd) s') →
      ∃ picks, LeadsTo p s picks (picks.map Prod.snd) { s' with generator } := by
    rintro _ s' generator ⟨picks, hPicks⟩
    exact ⟨picks, hPicks.reseed generator⟩
  have hLoop := w.ends_runFor
    (P := fun _ s' => ∃ picks, LeadsTo p s picks (picks.map Prod.snd) s') hStep hDraw
    w.maxFlips 0 s ⟨[], .refl p s⟩
  have hEither : Ends (w.run p) s
      (fun _ s' => ∃ picks, LeadsTo p s picks (picks.map Prod.snd) s')
      fun _ s' => ∃ picks, LeadsTo p s picks (picks.map Prod.snd) s' := by
    refine hLoop.mono ?_ fun _ _ hFail => hFail
    rintro solved s' ⟨⟨_, _, hMade, _⟩, _⟩
    exact hMade
  obtain ⟨picks, turns, hLeft, rfl, hFlips⟩ := hEither.leftBy
  exact ⟨turns, hLeft, hFlips.symm⟩

end Walk

/-! ## No pick is repeated -/

/-- What one constraint does along some turns and in the next one. If it has two
propositions or more, consecutive picks differ. It picks among its propositions, and returns
a pick if it has any. What it remembers is left alone by every turn that is not a pick of its
own. -/
structure NeverRepeats (p : Problem) (s : State) (turns : List Turn) (id : Nat) (c : Constraint) :
    Prop where
  distinct : 2 ≤ (p.propositionsOf c).length →
    (picksFor id (picksAlong p s turns)).IsChain (· ≠ ·)
  mem : ∀ v ∈ picksFor id (picksAlong p s turns), v ∈ p.propositionsOf c
  returns : ∀ turn : Turn, turn.picker = some id → p.propositionsOf c ≠ [] →
    ∃ v, turn.picked p (turned p s turns) = some (id, v)
  memory : ∀ turn : Turn, turn.picker ≠ some id →
    (leftBy (turn.perform p) (turned p s turns)).lastPick id = (turned p s turns).lastPick id

theorem State.Tracks.neverRepeats (hp : p.WellFormed) (h : s.Tracks p) (turns : List Turn)
    (hc : p.constraints[id]? = some c) : NeverRepeats p s turns id c := by
  obtain ⟨hTracks, hMem, hChain⟩ := picksFor_along hp hc turns s h
  refine ⟨fun hTwo => (hChain hTwo).right_of_append, hMem, fun turn hPicker hAny => ?_,
    fun turn hPicker => ?_⟩
  · obtain ⟨_, _, hReturns⟩ := (turn.works hp hTracks).effect
    exact hReturns id c hPicker hc hAny
  · obtain ⟨hEffect, hOwn, _⟩ := (turn.works hp hTracks).effect
    exact hEffect.lastPick_eq fun v hFound => hPicker (hOwn id v hFound)

/-- From any reached state, and along any mixture of picks for any constraints, flips and
questions, with any generator at any time, no constraint repeats its previous pick. The
same is true after the start of any attempt. The walk that follows is such a mixture, in
which exactly what is picked is flipped. -/
theorem no_pick_is_repeated (hp : p.Built) :
    (∀ s, Reached p s → ∀ (turns : List Turn) (id : Nat) (c : Constraint),
        p.constraints[id]? = some c → NeverRepeats p s turns id c)
      ∧ ∀ (w : Walk) (before : State) (tally : Stats) (s : State), Visited p before →
        w.start p { before with tally } = .ok () s →
        (∀ (turns : List Turn) (id : Nat) (c : Constraint),
          p.constraints[id]? = some c → NeverRepeats p s turns id c)
        ∧ ∃ turns, leftBy (w.run p) s = turned p s turns
          ∧ (picksAlong p s turns).map Prod.snd = turns.filterMap Turn.flipped := by
  have hWellFormed := hp.wellFormed
  constructor
  · intro s hReached turns id c hc
    exact (hReached.tracks hWellFormed).neverRepeats hWellFormed turns hc
  · intro w before tally s hVisited hStart
    have hShaped : State.Shaped { before with tally } p :=
      hVisited.shaped.of_tables rfl rfl rfl rfl
    have hTracks : s.Tracks p := (w.ends_start hWellFormed hShaped).of_ok hStart
    exact ⟨fun turns id c hc => hTracks.neverRepeats hWellFormed turns hc, w.exists_turns p s⟩

/-- The clause of the small problem has two propositions. Two picks for it, with a flip and a
pick for the pair in between, return different ones. -/
theorem no_pick_is_repeated_small :
    ∃ s u v, Reached .small s
      ∧ picksFor 0 (picksAlong .small s [.greedyPick 0, .flip 1, .randomPick 2, .randomPick 0])
        = [u, v]
      ∧ u ≠ v := by
  have hWellFormed := Problem.built_small.wellFormed
  obtain ⟨s, hReached, _⟩ := exists_reached hWellFormed
  have hClause : Problem.small.constraints[0]?
      = some (.clause (.exactly [⟨1⟩, ⟨1⟩, ⟨-2⟩] 3)) := rfl
  have hRepeats := (no_pick_is_repeated Problem.built_small).1 s hReached
  obtain ⟨u, hFirst⟩ := (hRepeats [] 0 _ hClause).returns (.greedyPick 0) rfl (by decide)
  obtain ⟨v, hLast⟩ := (hRepeats [.greedyPick 0, .flip 1, .randomPick 2] 0 _ hClause).returns
    (.randomPick 0) rfl (by decide)
  have hDistinct := (hRepeats [.greedyPick 0, .flip 1, .randomPick 2, .randomPick 0] 0 _
    hClause).distinct (by decide)
  have hOther : ∀ (turns : List Turn) (turn : Turn), turn.picker ≠ some 0 →
      ∀ w, turn.picked .small (turned .small s turns) ≠ some (0, w) := by
    intro turns turn hPicker w hPicked
    have hTracks := (picksFor_along hWellFormed hClause turns s (hReached.tracks hWellFormed)).1
    exact hPicker ((turn.works hWellFormed hTracks).effect.2.1 0 w hPicked)
  have hPicks : picksFor 0 (picksAlong .small s
      [.greedyPick 0, .flip 1, .randomPick 2, .randomPick 0]) = [u, v] := by
    have hFlip := hOther [.greedyPick 0] (.flip 1) (by decide)
    have hPair := hOther [.greedyPick 0, .flip 1] (.randomPick 2) (by decide)
    simp only [turned, List.foldl_nil, List.foldl_cons] at hFirst hLast hFlip hPair
    rw [picksAlong, hFirst, picksFor_own, picksAlong, picksFor_other hFlip, picksAlong,
      picksFor_other hPair, picksAlong, hLast, picksFor_own]
    rfl
  rw [hPicks] at hDistinct
  exact ⟨s, u, v, hReached, hPicks, (List.isChain_cons_cons.mp hDistinct).1⟩

end LocalRepair
