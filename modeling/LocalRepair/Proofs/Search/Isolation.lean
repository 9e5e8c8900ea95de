import LocalRepair.Proofs.Search.Alike
import LocalRepair.Proofs.Search.Answers
import LocalRepair.Proofs.Search.Reached

/-!
# Attempts do not see one another

An attempt starts in whatever state the last one left behind. It forgets what is kept
for constraints and graphs, seeds every proposition and evaluates the constraints.
After that its state is alike to that of an attempt which starts in a new state with
the same generator, so that the two go on side by side to the end.

Seeding leaves slot `0` of the assignment as it is. The slot is false in a new state,
and stays false as long as only propositions are flipped; that is what `State.Clean`
adds to the shape of a state. While the seeding goes on, the two assignments differ
at the propositions that still wait, and nowhere else. A chance outside `[0, 1]`
stops an attempt there.

## Main results

* `Used.clean`: the invariant of states that earlier searches left behind.
* `Walk.agree_start`: starting makes states alike.
* `attempts_are_isolated`: attempts and strategies.
-/

namespace LocalRepair

open Search State

variable {α : Type} {p : Problem} {s t s' t' : State} {k l : Nat}

/-! ## Slot zero -/

namespace Assignment

variable {a a' : Assignment} {v w : Nat} {b : Bool}

/-- Setting a value changes no other, and slot `0` cannot be set. -/
theorem getElem?_set_other (h : a.set v b = .ok a') (hw : w = 0 ∨ w ≠ v) :
    a'.values[w]? = a.values[w]? := by
  unfold set at h
  split at h
  · rename_i hRange
    have hOther : v ≠ w := by omega
    rw [← Except.ok.inj h]
    exact Array.getElem?_setIfInBounds_ne hOther
  · cases h

/-- Flipping a value changes no other. -/
theorem getElem?_flip_other (h : a.flip v = .ok (b, a')) (hw : w ≠ v) :
    a'.values[w]? = a.values[w]? := by
  unfold flip at h
  split at h
  · cases h
    exact Array.getElem?_setIfInBounds_ne hw.symm
  · cases h

/-- A proposition can be set, and has the value then. -/
theorem exists_set (hv : 0 < v ∧ v < a.values.size) (b : Bool) :
    ∃ a', a.set v b = .ok a' ∧ a'.values[v]? = some b := by
  refine ⟨⟨a.values.setIfInBounds v b⟩, ?_, ?_⟩
  · rw [set, if_pos hv]
  · exact Array.getElem?_setIfInBounds_self_of_lt hv.2

end Assignment

namespace State

/-- A state with the shape that its problem asks for, whose slot `0` is false. -/
structure Clean (s : State) (p : Problem) : Prop extends Shaped s p where
  slot : s.assignment.values[0]? = some false

theorem Clean.of_tables (h : s.Clean p) (hAssignment : s'.assignment = s.assignment)
    (hViolated : s'.violated = s.violated) (hMarks : s'.marks = s.marks)
    (hForests : s'.forests = s.forests) : s'.Clean p :=
  ⟨h.toShaped.of_tables hAssignment hViolated hMarks hForests, by rw [hAssignment]; exact h.slot⟩

theorem clean_new (p : Problem) (generator : ChaCha) : (State.new p generator).Clean p :=
  ⟨shaped_new p generator, by simp [State.new, Assignment.allFalse]⟩

end State

/-- A clean state stays clean as long as only propositions are flipped. -/
theorem stable_clean (p : Problem) : Stable p (Named p.propositionCount) (·.Clean p) :=
  have hShaped := stable_shaped p
  { setMarks := fun id m hs => ⟨hShaped.setMarks id m hs.toShaped, hs.slot⟩
    setViolated := fun hs hUpdate => ⟨hShaped.setViolated hs.toShaped hUpdate, hs.slot⟩
    setForest := fun hs hForest hGraph =>
      ⟨hShaped.setForest hs.toShaped hForest hGraph, hs.slot⟩
    setAssignment := fun hs hSet =>
      ⟨hShaped.setAssignment hs.toShaped hSet,
        (Assignment.getElem?_set_other hSet (Or.inl rfl)).trans hs.slot⟩
    setGenerator := fun _ hs => hs.of_tables rfl rfl rfl rfl
    countRandom := fun hs => hs.of_tables rfl rfl rfl rfl
    touch := fun _ _ hs => hs.of_tables rfl rfl rfl rfl
    clear := fun hs hClear => ⟨hShaped.clear hs.toShaped hClear, hs.slot⟩
    turnOver := fun hv hs hFlip =>
      ⟨hShaped.turnOver trivial hs.toShaped hFlip,
        (Assignment.getElem?_flip_other hFlip (Nat.ne_of_lt hv.1)).trans hs.slot⟩ }

/-- Constraints mention propositions only. -/
theorem Problem.WellFormed.turnable (hp : p.WellFormed) : p.Turnable (Named p.propositionCount) :=
  fun _ _ _ hc hv => hp.named hc hv

/-- The states that searches of a problem leave behind, from a new one on, if only
propositions were flipped. -/
inductive Used (p : Problem) : State → Prop where
  | new (generator : ChaCha) : Used p (.new p generator)
  | acted {s : State} (h : Used p s) (act : Act)
      (named : ∀ v, act = .move (.flip v) → Named p.propositionCount v) :
      Used p (leftBy (act.perform p) s)

/-- Searches leave clean states behind. -/
theorem Used.clean (hp : p.WellFormed) (h : Used p s) : s.Clean p := by
  induction h with
  | new generator => exact clean_new p generator
  | acted _ act named ih =>
      have hKeeps := act.keeps_stable (stable_clean p) hp.turnable
        (fun _ _ hs => hs.of_tables rfl rfl rfl rfl) named
      exact (hKeeps _ ih).leftBy

/-! ## Starting -/

namespace State

/-- Two states in which an attempt has forgotten about constraints and graphs, and
has still to seed some of the propositions. -/
structure Pending (p : Problem) (k l : Nat) (todo : List Nat) (s t : State) : Prop
    extends SameRecord s t where
  tally : s.tally = t.tally
  picks : s.randomPicks + l = t.randomPicks + k
  first : s.assignment.values.size = p.propositionCount + 1
  second : t.assignment.values.size = p.propositionCount + 1
  seeded : ∀ v, v ∉ todo → s.assignment.values[v]? = t.assignment.values[v]?

/-- How two failed attempts may differ: an improper chance stops the seeding, and the
propositions that were not seeded yet have the values that they had before. -/
def StoppedAlike (e : Fault) (s t : State) : Prop :=
  SameRecord s t ∧ (e ≠ .improperChance → s.assignment = t.assignment)

theorem Running.stopped (h : Running k l s t) (e : Fault) : StoppedAlike e s t :=
  ⟨h.toSameRecord, fun _ => h.assignment⟩

/-- When every proposition was seeded, the assignments are the same. -/
theorem Pending.running (h : Pending p k l [] s t) : Running k l s t := by
  have hValues : s.assignment.values = t.assignment.values :=
    Array.ext_getElem? fun v => h.seeded v (by simp)
  have hSame : s.assignment = t.assignment := by
    cases hs : s.assignment
    cases ht : t.assignment
    rw [hs, ht] at hValues
    exact congrArg Assignment.mk hValues
  exact ⟨⟨h.toSameRecord, hSame⟩, h.tally, h.picks⟩

end State

/-- A truth value is not drawn only if its chance is improper. -/
theorem ChaCha.eq_improperChance {g : ChaCha} {chance : Float} {e : Fault}
    (h : g.chance chance = .error e) : e = .improperChance := by
  unfold ChaCha.chance at h
  split at h
  · cases h
  · split at h
    · cases h
    · cases h
      rfl

/-- The starting value of a proposition depends on the generator only. -/
theorem Seeding.agree_seedValue {v : Nat} {next : Bool → Search α}
    {returns : α → State → State → Prop} {fails : Fault → State → State → Prop}
    (seeding : Seeding) (hp : p.WellFormed) (hv : Named p.propositionCount v)
    (hGenerator : s.generator = t.generator)
    (hNext : ∀ b generator, Agree (next b) (next b) { s with generator } { t with generator }
      returns fails)
    (hFails : fails .improperChance s t) :
    Agree (seeding.seedValue p v >>= next) (seeding.seedValue p v >>= next) s t returns fails := by
  cases seeding with
  | allFalse =>
      have hSame := hNext false s.generator
      rw [show { t with generator := s.generator } = t by rw [hGenerator]] at hSame
      exact hSame
  | byPrior default =>
      have hIndex : v - 1 < p.priors.size := by
        have hPositive := hv.1
        have hLast := hv.2
        rw [hp.priors]
        omega
      have hPrior : p.prior v = .ok p.priors[v - 1] := by
        rw [Problem.prior, Problem.entryFor, if_neg (Nat.ne_of_gt hv.1), entryAt_of_lt hIndex]
      unfold seedValue
      rw [hPrior, bind_assoc]
      dsimp only [of]
      rw [pure_bind, bind_assoc]
      apply agree_get
      rw [← hGenerator]
      cases hDraw : s.generator.chance (p.priors[v - 1].getD default) with
      | ok drawn => exact hNext drawn.1 drawn.2
      | error e =>
          rw [ChaCha.eq_improperChance hDraw]
          exact ⟨rfl, hFails⟩

namespace Walk

/-- Clearing makes the records of two states the same. What is left of the states is
the assignments, which are going to be seeded. -/
theorem agree_clear (hs : s.Clean p) (ht : t.Clean p) (hGenerator : s.generator = t.generator)
    (hTally : s.tally = t.tally) {fails : Fault → State → State → Prop} :
    Agree clear clear s t
      (fun _ => Pending p s.randomPicks t.randomPicks p.propositions) fails := by
  unfold clear
  apply agree_get
  rw [hs.violated.clear, ht.violated.clear]
  apply agree_modify
  have hMarks : s.marks.map (fun _ => ({} : Marks)) = t.marks.map fun _ => {} := by
    rw [Array.map_const', Array.map_const', hs.marks, ht.marks]
  have hGraphs : s.forests.map TrackedGraph.graph = t.forests.map TrackedGraph.graph :=
    hs.graphs.trans ht.graphs.symm
  refine
    { violated := rfl, marks := hMarks, generator := hGenerator
      forests := alike_invalidated hGraphs, tally := hTally, picks := Nat.add_comm _ _
      first := hs.assignment, second := ht.assignment, seeded := fun v hv => ?_ }
  show s.assignment.values[v]? = t.assignment.values[v]?
  rcases Nat.eq_zero_or_pos v with rfl | hPos
  · rw [hs.slot, ht.slot]
  · have hBeyond : p.propositionCount + 1 ≤ v := by
      have hNot : ¬ v < 1 + p.propositionCount := fun hLt =>
        hv (List.mem_range'_1.mpr ⟨hPos, hLt⟩)
      omega
    rw [Array.getElem?_eq_none (hs.assignment ▸ hBeyond),
      Array.getElem?_eq_none (ht.assignment ▸ hBeyond)]

/-- Seeding a proposition that waits. -/
theorem agree_seed (hp : p.WellFormed) (w : Walk) {v : Nat} {todo : List Nat}
    (hv : Named p.propositionCount v) (h : Pending p k l (v :: todo) s t) :
    Agree (do assign v (← w.seeding.seedValue p v)) (do assign v (← w.seeding.seedValue p v)) s t
      (fun _ => Pending p k l todo) StoppedAlike := by
  have hImproper : StoppedAlike .improperChance s t := ⟨h.toSameRecord, fun hNot => absurd rfl hNot⟩
  refine w.seeding.agree_seedValue hp hv h.generator (fun b generator => ?_) hImproper
  have hFirst : v < s.assignment.values.size := h.first ▸ Nat.lt_succ_of_le hv.2
  have hSecond : v < t.assignment.values.size := h.second ▸ Nat.lt_succ_of_le hv.2
  obtain ⟨a, hSet, hSelf⟩ := Assignment.exists_set ⟨hv.1, hFirst⟩ b
  obtain ⟨a', hSet', hSelf'⟩ := Assignment.exists_set ⟨hv.1, hSecond⟩ b
  unfold assign
  apply agree_get
  dsimp only
  rw [hSet, hSet']
  apply agree_modify
  refine
    { violated := h.violated, marks := h.marks, generator := rfl, forests := h.forests
      tally := h.tally, picks := h.picks
      first := (Assignment.size_set hSet).trans h.first
      second := (Assignment.size_set hSet').trans h.second
      seeded := fun w hw => ?_ }
  show a.values[w]? = a'.values[w]?
  by_cases hEq : w = v
  · rw [hEq, hSelf, hSelf']
  · rw [Assignment.getElem?_set_other hSet (Or.inr hEq),
      Assignment.getElem?_set_other hSet' (Or.inr hEq)]
    exact h.seeded w fun hMem => (List.mem_cons.mp hMem).elim hEq hw

theorem agree_seedAll (hp : p.WellFormed) (w : Walk) {todo : List Nat}
    (hTodo : ∀ v ∈ todo, Named p.propositionCount v) (h : Pending p k l todo s t) :
    Agree (todo.forM fun v => do assign v (← w.seeding.seedValue p v))
      (todo.forM fun v => do assign v (← w.seeding.seedValue p v)) s t
      (fun _ => Running k l) StoppedAlike := by
  induction todo generalizing s t with
  | nil => exact agree_pure _ h.running
  | cons v todo ih =>
      apply (agree_seed hp w (hTodo v (by simp)) h).andThen
      intro _ s' t' h'
      exact ih (fun u hu => hTodo u (List.mem_cons_of_mem _ hu)) h'

/-- Starting makes states alike. -/
theorem agree_start (hp : p.WellFormed) (w : Walk) (hs : s.Clean p) (ht : t.Clean p)
    (hGenerator : s.generator = t.generator) (hTally : s.tally = t.tally) :
    Agree (w.start p) (w.start p) s t (fun _ => Running s.randomPicks t.randomPicks)
      StoppedAlike := by
  have hNamed : ∀ v ∈ p.propositions, Named p.propositionCount v := by
    intro v hv
    have hRange := List.mem_range'_1.mp hv
    exact ⟨hRange.1, by omega⟩
  have hSeed : Agree (w.seed p) (w.seed p) s t (fun _ => Running s.randomPicks t.randomPicks)
      StoppedAlike :=
    (agree_clear hs ht hGenerator hTally).andThen fun _ _ _ h => agree_seedAll hp w hNamed h
  rw [w.start_eq]
  apply hSeed.andThen
  intro _ s₂ t₂ h₂
  have hCarried := carried_running p s.randomPicks t.randomPicks
  exact (hCarried.respects_evaluateAll s₂ t₂ h₂).mono (fun _ _ _ h => h) fun e _ _ h => h.stopped e

/-! ## Attempts -/

/-- From clean states with the same generator a walk that starts comes to the same, and
leaves alike states with the same counters. -/
theorem agree_startAndRun (hp : p.WellFormed) (w : Walk) (hs : s.Clean p) (ht : t.Clean p)
    (hGenerator : s.generator = t.generator) (hTally : s.tally = t.tally) :
    Agree (w.startAndRun p) (w.startAndRun p) s t
      (fun _ s' t' => State.Alike s' t' ∧ s'.tally = t'.tally) StoppedAlike := by
  have hCarried := carried_running p s.randomPicks t.randomPicks
  have hTurns : p.Turnable fun _ => True := fun _ _ _ _ _ => trivial
  have hStart : Agree (w.start p) (w.start p) { s with tally := { s.tally with attempts := 1 } }
      { t with tally := { t.tally with attempts := 1 } }
      (fun _ => Running s.randomPicks t.randomPicks) StoppedAlike := by
    have hFirst : State.Clean { s with tally := { s.tally with attempts := 1 } } p :=
      hs.of_tables rfl rfl rfl rfl
    have hSecond : State.Clean { t with tally := { t.tally with attempts := 1 } } p :=
      ht.of_tables rfl rfl rfl rfl
    exact agree_start hp w hFirst hSecond hGenerator (by rw [hTally])
  unfold startAndRun
  show Agree (w.start p >>= _) (w.start p >>= _) { s with tally := { s.tally with attempts := 1 } }
    { t with tally := { t.tally with attempts := 1 } } _ _
  apply hStart.andThen
  intro _ s₁ t₁ h₁
  apply agree_get
  refine Agree.andThen ((hCarried.respects_run hTurns w s₁ t₁ h₁).mono (fun _ _ _ h => h)
    fun e _ _ h => h.stopped e) fun solved s₂ t₂ h₂ => ?_
  apply agree_get
  -- The numbers of random picks differ, but not what the walk added to them.
  have hSpent : s₂.randomPicks - s₁.randomPicks = t₂.randomPicks - t₁.randomPicks := by
    have hBefore := h₁.picks
    have hAfter := h₂.picks
    omega
  have hCounted : ({ s₂.tally with randomPicks := s₂.randomPicks - s₁.randomPicks } : Stats)
      = { t₂.tally with randomPicks := t₂.randomPicks - t₁.randomPicks } := by
    rw [hSpent, h₂.tally]
  have hAlike : State.Alike
      { s₂ with tally := { s₂.tally with randomPicks := s₂.randomPicks - s₁.randomPicks } }
      { t₂ with tally := { t₂.tally with randomPicks := t₂.randomPicks - t₁.randomPicks } } :=
    ⟨⟨h₂.violated, h₂.marks, h₂.generator, h₂.forests⟩, h₂.assignment⟩
  rw [← h₂.assignment]
  cases solved with
  | true => exact ⟨rfl, hAlike, hCounted⟩
  | false => exact ⟨rfl, hAlike, hCounted⟩

end Walk

/-- Two steps with counters of their own come to the same if the steps do, with the
same counters. -/
theorem Search.agree_counting {x : Search α} {returns : α × Stats → State → State → Prop}
    {fails : Fault → State → State → Prop}
    (h : Agree x x { s with tally := {} } { t with tally := {} }
      (fun a s' t' => s'.tally = t'.tally
        ∧ returns (a, s'.tally) { s' with tally := s.tally } { t' with tally := t.tally })
      fun e s' t' => fails e { s' with tally := s.tally } { t' with tally := t.tally }) :
    Agree (counting x) (counting x) s t returns fails := by
  unfold Agree counting
  rcases h.cases with ⟨a, s', t', hs, ht, hTally, hEnd⟩ | ⟨e, s', t', hs, ht, hFail⟩
  · rw [hs, ht]
    exact ⟨by rw [hTally], hEnd⟩
  · rw [hs, ht]
    exact ⟨rfl, hFail⟩

/-- From clean states with the same generator an attempt comes to the same, and leaves
alike states. -/
theorem Walk.agree_attempt (hp : p.WellFormed) (w : Walk) (hs : s.Clean p) (ht : t.Clean p)
    (hGenerator : s.generator = t.generator) :
    Agree (w.attempt p) (w.attempt p) s t (fun _ => State.Alike) StoppedAlike := by
  have hFirst : State.Clean { s with tally := {} } p := hs.of_tables rfl rfl rfl rfl
  have hSecond : State.Clean { t with tally := {} } p := ht.of_tables rfl rfl rfl rfl
  unfold attempt
  apply agree_counting
  refine (w.agree_startAndRun hp hFirst hSecond hGenerator rfl).mono ?_ ?_
  · rintro _ s' t' ⟨h, hTally⟩
    exact ⟨hTally, ⟨⟨h.violated, h.marks, h.generator, h.forests⟩, h.assignment⟩⟩
  · rintro e s' t' ⟨h, hSame⟩
    exact ⟨⟨h.violated, h.marks, h.generator, h.forests⟩, hSame⟩

/-! ## Strategies -/

/-- An attempt in a new state, which inherits the generator and nothing else. -/
def Walk.attemptAfresh (w : Walk) (p : Problem) : Search (Option Solution × Stats) :=
  fun s => w.attempt p (.new p s.generator)

/-- A strategy that makes each of its attempts in a new state. -/
def Strategy.solveAfresh (p : Problem) : Strategy → Search (Option Solution × Stats)
  | walk w => w.attemptAfresh p
  | restarting inner policy => repeated (inner.solveAfresh p) policy policy.bound {}

namespace Strategy

/-- Repetitions go on side by side if single searches come to the same whenever the
generators are the same. -/
theorem agree_repeated {x y : Search (Option Solution × Stats)}
    (h : ∀ s t : State, s.Clean p → s.generator = t.generator →
      Agree x y s t (fun _ s' t' => State.Alike s' t' ∧ s'.Clean p) StoppedAlike)
    (policy : Restarts) (further : Nat) :
    ∀ (total : Stats) (s t : State), s.Clean p → s.generator = t.generator →
      Agree (repeated x policy further total) (repeated y policy further total) s t
        (fun _ => State.Alike) StoppedAlike := by
  induction further with
  | zero =>
      intro total s t hs hGenerator
      unfold repeated
      exact (h s t hs hGenerator).andThen fun found s' t' hEnd => agree_pure _ hEnd.1
  | succ further ih =>
      intro total s t hs hGenerator
      unfold repeated
      apply (h s t hs hGenerator).andThen
      rintro found s' t' ⟨hAlike, hClean⟩
      exact Agree.ite (fun _ => agree_pure _ hAlike) fun _ => ih _ s' t' hClean hAlike.generator

/-- A strategy comes to the same as if each attempt were made in a new state. -/
theorem agree_solve (hp : p.WellFormed) (strategy : Strategy) (hs : s.Clean p)
    (hGenerator : s.generator = t.generator) :
    Agree (strategy.solve p) (strategy.solveAfresh p) s t (fun _ => State.Alike) StoppedAlike := by
  induction strategy generalizing s t with
  | walk w =>
      have hAttempt := w.agree_attempt hp hs (clean_new p t.generator) hGenerator
      exact hAttempt
  | restarting inner policy ih =>
      have hKeeps : Keeps (inner.solve p) (·.Clean p) :=
        inner.keeps_solve (stable_clean p) hp.turnable fun _ _ hs => hs.of_tables rfl rfl rfl rfl
      refine agree_repeated (fun s t hs hGenerator => ?_) policy policy.bound {} s t hs hGenerator
      exact (ih hs hGenerator).withEnds (hKeeps s hs)

end Strategy

/-- An attempt in a state that earlier searches left behind comes to the same as one in
a new state with the same generator: it returns the same solution or none with the same
statistics, or it fails in the same way. It leaves the same assignment, the same
violated constraints in the same order, the same entries for constraints, alike forests
and the same generator; the assignment excepted if an improper chance stopped the
attempt. So every strategy comes to the same as if each of its attempts were made in a
new state which inherits the generator. -/
theorem attempts_are_isolated (hp : p.Built) (h : Used p s) :
    (∀ w : Walk, Agree (w.attempt p) (w.attempt p) s (.new p s.generator)
        (fun _ => State.Alike) StoppedAlike)
      ∧ ∀ strategy : Strategy, Agree (strategy.solve p) (strategy.solveAfresh p) s s
        (fun _ => State.Alike) StoppedAlike := by
  have hWellFormed := hp.wellFormed
  have hClean := h.clean hWellFormed
  constructor
  · intro w
    exact w.agree_attempt hWellFormed hClean (clean_new p s.generator) rfl
  · intro strategy
    exact strategy.agree_solve hWellFormed hClean rfl

/-- An attempt at the small problem leaves another assignment behind than it found, and
the attempts after it are isolated from it. -/
theorem attempts_are_isolated_small :
    ∃ s, s = leftBy ((Act.solve (.walk
          { selection := .lowest, seeding := .allFalse, maxFlips := 3 })).perform .small)
        (.new .small (.seeded 0))
      ∧ Used .small s ∧ s.assignment ≠ .allFalse 3
      ∧ Agree
        (Strategy.solve .small (.restarting (.walk { maxFlips := 1, randomStep := 0.5 }) (.upTo 2)))
        (Strategy.solveAfresh .small
          (.restarting (.walk { maxFlips := 1, randomStep := 0.5 }) (.upTo 2)))
        s s (fun _ => State.Alike) StoppedAlike := by
  have hUsed := Used.acted (.new (.seeded 0))
    (.solve (.walk { selection := .lowest, seeding := .allFalse, maxFlips := 3 })) (p := .small)
    (by simp)
  refine ⟨_, rfl, hUsed, ?_, (attempts_are_isolated Problem.built_small hUsed).2 _⟩
  decide +kernel

end LocalRepair
