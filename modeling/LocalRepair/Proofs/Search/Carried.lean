import LocalRepair.Walk
import LocalRepair.Proofs.SideBySide
import LocalRepair.Proofs.Search.Steps

/-!
# Relations that every step respects

A search is made of a few single steps: entries of tables are replaced, forests are
asked or told of a flip, the generator is drawn from, counters go up. A relation
between states that these single steps respect is respected by all the larger ones,
up to a flip and to the start of a walk. `Carried` lists the single steps. Those that
keeping track of constraints needs, once forests were told what to make of the flip, are
in `Upheld`; it looks at the forests of some graphs only, so that it also fits relations
that speak of one forest.

The relations that are meant are of two kinds. One is that of a property which no
step breaks, such as the shape of a state. The other says that two states differ in
something that no step looks at. For both kinds the definitions are gone through
once, here, each lemma following one definition.

Turning a proposition over is the one step that a relation may restrict: `turns`
says for which propositions it is respected.

## Main results

* `Upheld.respects_evaluateAll`, `Upheld.respects_tell`.
* `Carried.respects_favours`, `Carried.respects_netRisk`.
* `Carried.respects_flip`, `Carried.respects_start`.
-/

namespace LocalRepair

open Search State

variable {α : Type} {p : Problem} {turns : Nat → Prop} {R : State → State → Prop} {s t : State}

/-- Related states look the same to a step that reads them, and stay related when
the generator moves on. -/
structure Observed (R : State → State → Prop) : Prop where
  assignment : ∀ {s t}, R s t → s.assignment = t.assignment
  violated : ∀ {s t}, R s t → s.violated = t.violated
  marks : ∀ {s t}, R s t → s.marks = t.marks
  generator : ∀ {s t}, R s t → s.generator = t.generator
  setGenerator : ∀ {s t} (generator : ChaCha), R s t → R { s with generator } { t with generator }

/-- The constraint speaks of no graphs but these. -/
def Constraint.SpeaksOf (on : Nat → Prop) (c : Constraint) : Prop :=
  ∀ g demand, c = .graph g demand → on g

/-- A relation between states that is respected when entries and counters of constraints
change and forests of the graphs in `on` are asked. -/
structure Upheld (on : Nat → Prop) (R : State → State → Prop) : Prop extends Observed R where
  graphs : ∀ {s t}, R s t → s.forests.map TrackedGraph.graph = t.forests.map TrackedGraph.graph
  setMarks : ∀ {s t} (id : Nat) (m : Marks), R s t → R (s.setMarks id m) (t.setMarks id m)
  setViolated : ∀ {s t} {id : Nat} {satisfied : Bool} {w : IndexSet}, R s t →
    s.violated.update id satisfied = .ok w → R (s.setViolated w) (t.setViolated w)
  touch : ∀ {s t} (id : Nat) (change : Activity → Activity), R s t →
    R { s with tally := s.tally.touch id change } { t with tally := t.tally.touch id change }
  askMet : ∀ g, on g → ∀ demand : Connectivity Nat,
    Respects (askForest g fun gr => do return (← demand.resolve gr).isMet) R

/-- A relation between states that the single steps of a search respect, turning a
proposition over only where `turns` allows it. -/
structure Carried (p : Problem) (turns : Nat → Prop) (R : State → State → Prop) : Prop
    extends Upheld (fun _ => True) R where
  setAssignment : ∀ {s t} {v : Nat} {b : Bool} {a : Assignment}, R s t →
    s.assignment.set v b = .ok a → R { s with assignment := a } { t with assignment := a }
  countRandom : ∀ {s t}, R s t →
    R { s with randomPicks := s.randomPicks + 1 } { t with randomPicks := t.randomPicks + 1 }
  invalidate : ∀ g, Respects (Search.invalidate g) R
  noteFlip : ∀ g v present, Respects (Search.noteFlip g v present) R
  askRisk : ∀ g v (demand : Connectivity Nat) (value : Bool) (path : List Nat),
    Respects (askEdge g v fun gr e => do
      return (← demand.resolve gr).risk e value (path.contains e.val)) R
  clear : Respects Walk.clear R
  turnOver : ∀ v, turns v → Respects (Walk.turnOver v) R

/-- The first half of a start: what is kept is forgotten, and every proposition is
given a value. -/
def Walk.seed (w : Walk) (p : Problem) : Search Unit := do
  clear
  p.propositions.forM fun v => do assign v (← w.seeding.seedValue p v)

theorem Walk.start_eq (w : Walk) (p : Problem) :
    w.start p = w.seed p >>= fun _ => p.evaluateAll := by
  unfold start seed
  rw [bind_assoc]

/-- An outcome as a step respects every relation. -/
theorem Search.respects_of (outcome : Except Fault α) : Respects (of outcome) R := by
  cases outcome with
  | ok a => exact .pure a
  | error e => exact .throw e

theorem Search.yields_of (outcome : Except Fault α) :
    Yields (of outcome) R fun a => outcome = .ok a := by
  cases outcome with
  | ok a => exact .pure rfl
  | error e => exact .throw e

/-- Looking up a constraint, and going on with it. -/
theorem Problem.respects_constraint {next : Constraint → Search α} (id : Nat)
    (h : ∀ c, p.constraints[id]? = some c → Respects (next c) R) :
    Respects (Search.of (p.constraint id) >>= next) R := by
  cases hc : p.constraint id with
  | ok c => exact h c (entryAt_eq_ok_iff.mp hc)
  | error e => exact fun _ _ hR => ⟨rfl, hR⟩

/-! ## Reading and drawing -/

namespace Observed

variable (h : Observed R)
include h

theorem respects_value (v : Nat) : Respects (value v) R := by
  intro s t hR
  apply agree_get
  rw [h.assignment hR]
  exact respects_of _ s t hR

theorem respects_marksOf (id : Nat) : Respects (marksOf id) R := by
  intro s t hR
  apply agree_get
  rw [h.marks hR]
  exact respects_of _ s t hR

theorem respects_isViolated (id : Nat) : Respects (isViolated id) R := by
  intro s t hR
  apply agree_get
  rw [h.violated hR]
  exact respects_of _ s t hR

theorem respects_draw (f : ChaCha → α × ChaCha) : Respects (draw f) R := by
  intro s t hR
  have hAfter := h.setGenerator (f s.generator).2 hR
  show (f s.generator).1 = (f t.generator).1
    ∧ R { s with generator := (f s.generator).2 } { t with generator := (f t.generator).2 }
  rw [← h.generator hR]
  exact ⟨rfl, hAfter⟩

/-- Drawing a truth value, and going on with it. -/
theorem agree_chance (chance : Float) {next : Bool → Search α} {returns : α → State → State → Prop}
    {fails : Fault → State → State → Prop} (hR : R s t)
    (hNext : ∀ b s' t', R s' t' → Agree (next b) (next b) s' t' returns fails)
    (hFails : ∀ e, R s t → fails e s t) :
    Agree (do
      let (b, g) ← of ((← get).generator.chance chance)
      modify fun s => { s with generator := g }
      next b) (do
      let (b, g) ← of ((← get).generator.chance chance)
      modify fun s => { s with generator := g }
      next b) s t returns fails := by
  apply agree_get
  rw [← h.generator hR]
  cases s.generator.chance chance with
  | ok drawn => exact hNext drawn.1 _ _ (h.setGenerator drawn.2 hR)
  | error e => exact ⟨rfl, hFails e hR⟩

end Observed

namespace Upheld

variable {on : Nat → Prop} (h : Upheld on R)
include h

/-! ## Writing -/

theorem respects_changeMarks (id : Nat) (change : Marks → Marks) :
    Respects (changeMarks id change) R := by
  apply (h.respects_marksOf id).bind
  intro m s t hR
  exact agree_modify (h.setMarks id (change m) hR)

theorem respects_record (id : Nat) (satisfied : Bool) : Respects (record id satisfied) R := by
  intro s t hR
  apply agree_get
  rw [← h.violated hR]
  cases hUpdate : s.violated.update id satisfied with
  | ok w => exact agree_modify (h.setViolated hR hUpdate)
  | error e => exact ⟨rfl, hR⟩

/-- The forests of related states belong to the same graphs. -/
theorem exists_tracked (hR : R s t) {g : Nat} {u : TrackedGraph}
    (hForest : s.forests[g]? = some u) :
    ∃ f, t.forests[g]? = some ⟨u.graph, f⟩ := by
  have hGraphs := congrArg (·[g]?) (h.graphs hR)
  simp only [Array.getElem?_map, hForest, Option.map_some] at hGraphs
  obtain ⟨⟨gr, f⟩, hOther, hGraph⟩ := Option.map_eq_some_iff.mp hGraphs.symm
  obtain rfl : gr = u.graph := hGraph
  exact ⟨f, hOther⟩

/-- A path is searched for in the graph, whatever its forest is like. -/
theorem respects_keepShortestPath (id g source target : Nat) :
    Respects (Constraint.keepShortestPath id g source target) R := by
  intro s t hR
  unfold Constraint.keepShortestPath tracked
  rw [bind_assoc]
  apply agree_get
  cases hForest : s.forests[g]? with
  | none =>
      have hOther : t.forests[g]? = none := by
        have hGraphs := congrArg (·[g]?) (h.graphs hR)
        simpa [hForest] using hGraphs.symm
      unfold entryAt
      rw [hForest, hOther]
      exact ⟨rfl, hR⟩
  | some u =>
      obtain ⟨f, hOther⟩ := h.exists_tracked hR hForest
      unfold entryAt
      rw [hForest, hOther]
      show Agree (of (u.graph.shortestPath s.assignment source target) >>= _)
        (of (u.graph.shortestPath t.assignment source target) >>= _) s t _ _
      rw [← h.assignment hR]
      exact ((respects_of _).bind fun path => h.respects_changeMarks id _) s t hR

/-! ## Constraints -/

/-- What is left of a reset after the forest was made stale. -/
theorem respects_dropPath (id : Nat) (demand : Connectivity Nat) :
    Respects (match demand with
      | .pair _ _ => changeMarks id fun m => { m with path := [] }
      | _ => return) R := by
  cases demand with
  | whole => exact .pure _
  | pieces count => exact .pure _
  | sides left right => exact .pure _
  | pair source target => exact h.respects_changeMarks id _

theorem respects_reset (id : Nat) {c : Constraint} (hc : c.SpeaksOf on)
    (hInvalidate : ∀ g, on g → Respects (invalidate g) R) : Respects (c.reset id) R := by
  cases c with
  | clause k => exact .pure _
  | graph g demand =>
      exact (hInvalidate g (hc g demand rfl)).bind fun _ => h.respects_dropPath id demand

theorem respects_holdsNow (id : Nat) {c : Constraint} (hc : c.SpeaksOf on) :
    Respects (c.holdsNow id) R := by
  cases c with
  | clause k => exact (h.respects_marksOf id).bind fun _ => .pure _
  | graph g demand => exact h.askMet g (hc g demand rfl) demand

theorem respects_evaluate (id : Nat) {c : Constraint} (hc : c.SpeaksOf on) :
    Respects (c.evaluate id) R := by
  cases c with
  | clause k =>
      intro s t hR
      apply agree_get
      rw [← h.assignment hR]
      exact ((respects_of _).bind fun count => (h.respects_changeMarks id _).bind fun _ =>
        h.respects_record id _) s t hR
  | graph g demand =>
      apply (h.respects_holdsNow id hc).bind
      intro satisfied
      cases demand with
      | whole => exact h.respects_record id _
      | pieces count => exact h.respects_record id _
      | sides left right => exact h.respects_record id _
      | pair source target =>
          refine Respects.ite ?_ ?_
          · exact (h.respects_keepShortestPath id g source target).bind fun _ =>
              h.respects_record id _
          · exact (h.respects_changeMarks id _).bind fun _ => h.respects_record id _

theorem respects_followPath (id g source target edge : Nat) (present wasMet isMet : Bool) :
    Respects (Constraint.followPath id g source target edge present wasMet isMet) R := by
  apply Respects.ite (h.respects_changeMarks id _)
  apply (h.respects_marksOf id).bind
  intro _
  exact Respects.ite (h.respects_keepShortestPath id g source target) (.pure _)

/-- A demand follows a flip side by side if the forest is told of it side by side. -/
theorem agree_follow_graph (id : Nat) {g v : Nat} {value : Bool} {demand : Connectivity Nat}
    (hOn : on g)
    (hNote : Agree (noteFlip g v value) (noteFlip g v value) s t (fun _ => R) fun _ => R) :
    Agree ((Constraint.graph g demand).follow id v value)
      ((Constraint.graph g demand).follow id v value) s t (fun _ => R) fun _ => R := by
  have hSpeaks : (Constraint.graph g demand).SpeaksOf on := by
    rintro _ _ hEq
    exact (Constraint.graph.inj hEq).1 ▸ hOn
  apply hNote.andThen
  intro told s' t' hR
  cases told with
  | none => exact agree_pure _ hR
  | some edge =>
      have hRest : Respects (do
          let wasMet := !(← isViolated id)
          let isMet ← (Constraint.graph g demand).holdsNow id
          match demand with
          | .pair source target => Constraint.followPath id g source target edge value wasMet isMet
          | _ => pure ()
          record id isMet) R := by
        apply (h.respects_isViolated id).bind
        intro _
        apply (h.respects_holdsNow id hSpeaks).bind
        intro isMet
        cases demand with
        | whole => exact h.respects_record id _
        | pieces count => exact h.respects_record id _
        | sides left right => exact h.respects_record id _
        | pair source target =>
            exact (h.respects_followPath id g source target edge value _ isMet).bind fun _ =>
              h.respects_record id _
      exact hRest s' t' hR

theorem respects_follow (id v : Nat) (value : Bool) {c : Constraint} (hc : c.SpeaksOf on)
    (hNote : ∀ g, on g → Respects (noteFlip g v value) R) : Respects (c.follow id v value) R := by
  cases c with
  | clause k =>
      apply (h.respects_marksOf id).bind
      intro m
      apply Respects.ite (.throw _)
      exact (h.respects_changeMarks id _).bind fun _ => h.respects_record id _
  | graph g demand =>
      have hOn := hc g demand rfl
      exact fun s t hR => h.agree_follow_graph id hOn (hNote g hOn s t hR)

/-! ## The whole problem -/

/-- Counting a constraint that moved in or out of the violated ones. -/
theorem respects_countMove (id : Nat) (before : Bool) :
    Respects (do if (← isViolated id) != before then Search.count fun t => t.countTransition id)
      R := by
  apply (h.respects_isViolated id).bind
  intro after
  apply Respects.ite
  · exact fun s t hR => agree_modify (h.touch id _ hR)
  · exact .pure _

theorem respects_tell (v : Nat) (value : Bool) {id : Nat}
    (hc : ∀ c, p.constraints[id]? = some c → c.SpeaksOf on)
    (hNote : ∀ g, on g → Respects (noteFlip g v value) R) :
    Respects (Walk.tell p v value id) R := by
  apply (h.respects_isViolated id).bind
  intro before
  apply Problem.respects_constraint id
  intro c hStored
  exact (h.respects_follow id v value (hc c hStored) hNote).bind fun _ =>
    h.respects_countMove id before

theorem respects_checkRecord {id : Nat} (hc : ∀ c, p.constraints[id]? = some c → c.SpeaksOf on) :
    Respects (Walk.checkRecord p id) R := by
  apply Problem.respects_constraint id
  intro c hStored
  apply (h.respects_holdsNow id (hc c hStored)).bind
  intro holds
  apply (h.respects_isViolated id).bind
  intro recorded
  exact Respects.ite (.throw _) (.pure _)

section Speaking

variable (hp : ∀ (id : Nat) (c : Constraint), p.constraints[id]? = some c → c.SpeaksOf on)
include hp

theorem respects_evaluateAll (hInvalidate : ∀ g, on g → Respects (invalidate g) R) :
    Respects p.evaluateAll R := by
  have hReset : ∀ id, Respects (do (← Search.of (p.constraint id)).reset id) R :=
    fun id => Problem.respects_constraint id fun c hc =>
      h.respects_reset id (hp id c hc) hInvalidate
  have hEvaluate : ∀ id, Respects (do (← Search.of (p.constraint id)).evaluate id) R :=
    fun id => Problem.respects_constraint id fun c hc => h.respects_evaluate id (hp id c hc)
  exact (Respects.forM fun id _ => hReset id).bind fun _ => Respects.forM fun id _ => hEvaluate id

/-- Everything in a flip but the turning over. -/
theorem respects_tellAll (v : Nat) (value : Bool)
    (hNote : ∀ g, on g → Respects (noteFlip g v value) R) :
    Respects (do
      let ids ← of (p.mentioning v)
      ids.forM (Walk.tell p v value)
      ids.forM (Walk.checkRecord p)) R := by
  apply (respects_of _).bind
  intro ids
  apply (Respects.forM fun id _ => h.respects_tell v value (hp id) hNote).bind
  intro _
  exact Respects.forM fun id _ => h.respects_checkRecord (hp id)

end Speaking
end Upheld

namespace Carried

variable (h : Carried p turns R)
include h

/-! ## Constraints and forests of any graph -/

theorem respects_holdsNow (id : Nat) (c : Constraint) : Respects (c.holdsNow id) R :=
  h.toUpheld.respects_holdsNow id fun _ _ _ => trivial

theorem respects_evaluateAll : Respects p.evaluateAll R :=
  h.toUpheld.respects_evaluateAll (fun _ _ _ _ _ _ => trivial) fun g _ => h.invalidate g

theorem respects_tellAll (v : Nat) (value : Bool) :
    Respects (do
      let ids ← of (p.mentioning v)
      ids.forM (Walk.tell p v value)
      ids.forM (Walk.checkRecord p)) R :=
  h.toUpheld.respects_tellAll (fun _ _ _ _ _ _ => trivial) v value fun g _ =>
    h.noteFlip g v value

theorem respects_assign (v : Nat) (b : Bool) : Respects (assign v b) R := by
  intro s t hR
  apply agree_get
  rw [← h.assignment hR]
  cases hSet : s.assignment.set v b with
  | ok a => exact agree_modify (h.setAssignment hR hSet)
  | error e => exact ⟨rfl, hR⟩

theorem respects_risk (id v : Nat) (value : Bool) (c : Constraint) :
    Respects (c.risk id v value) R := by
  cases c with
  | clause k => exact (h.respects_marksOf id).bind fun _ => .pure _
  | graph g demand =>
      exact (h.respects_marksOf id).bind fun m => h.askRisk g v demand value m.path

theorem respects_favours (id v : Nat) (c : Constraint) : Respects (c.favours id v) R := by
  cases c with
  | clause k =>
      exact (h.respects_marksOf id).bind fun _ => (h.respects_value v).bind fun _ => .pure _
  | graph g demand =>
      apply (h.respects_value v).bind
      intro b
      apply (h.respects_risk id v (!b) (.graph g demand)).bind
      intro risk
      cases risk with
      | none => exact .pure _
      | some risk => exact .pure _

theorem respects_netRisk (v : Nat) (value : Bool) : Respects (p.netRisk v value) R := by
  apply (respects_of _).bind
  intro ids
  have hSum : ∀ sum, Respects (p.sumRisks v value ids sum) R := by
    induction ids with
    | nil => exact fun sum => .pure sum
    | cons id ids ih =>
        intro sum
        exact Problem.respects_constraint id fun c _ =>
          (h.respects_risk id v value c).bind fun _ => ih _
  exact hSum 0

/-! ## Walks -/

theorem respects_seedValue (seeding : Seeding) (v : Nat) : Respects (seeding.seedValue p v) R := by
  cases seeding with
  | allFalse => exact .pure _
  | byPrior default =>
      apply (respects_of _).bind
      intro prior
      exact fun s t hR => h.agree_chance _ hR (fun b _ _ h' => agree_pure b h') fun _ h' => h'

theorem respects_seed (w : Walk) : Respects (w.seed p) R := by
  have hSeed : ∀ v, Respects (do assign v (← w.seeding.seedValue p v)) R :=
    fun v => (h.respects_seedValue w.seeding v).bind fun b => h.respects_assign v b
  exact h.clear.bind fun _ => Respects.forM fun v _ => hSeed v

theorem respects_start (w : Walk) : Respects (w.start p) R := by
  rw [w.start_eq]
  exact (h.respects_seed w).bind fun _ => h.respects_evaluateAll

theorem respects_flip {v : Nat} (hv : turns v) : Respects (Walk.flip p v) R :=
  (h.turnOver v hv).bind fun value => h.respects_tellAll v value

end Carried
end LocalRepair
