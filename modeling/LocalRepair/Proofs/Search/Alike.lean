import LocalRepair.Proofs.Forest.Alike
import LocalRepair.Proofs.Search.Carried

/-!
# States that no search can tell apart

Two states are alike if they have the same assignment, the same violated
constraints in the same order, the same entries for constraints and the same
generator, and alike forests. What they may differ in is the number of flips and of
random picks over their whole lives, how often forests were built, and everything
about stale forests.

No step can tell alike states apart: it comes to the same in both, and leaves them
alike. For the number of random picks, which is looked at before and after a walk,
it is the difference that is the same.

## Main results

* `carried_running`: every step respects being alike.
-/

namespace LocalRepair

open Search State

variable {α : Type} {p : Problem} {s t s' t' : State} {k l : Nat}

/-- The same graph with alike forests. -/
inductive TrackedGraph.Alike : TrackedGraph → TrackedGraph → Prop where
  | forests {g : Graph} {f f' : Forest g} (h : Forest.Alike f f') : Alike ⟨g, f⟩ ⟨g, f'⟩

namespace State

/-- Two states keep the same record: the violated constraints in the same order, the
entries for constraints, the generator, and alike forests. -/
structure SameRecord (s t : State) : Prop where
  violated : s.violated = t.violated
  marks : s.marks = t.marks
  generator : s.generator = t.generator
  forests : ∀ g : Nat, Option.Rel TrackedGraph.Alike s.forests[g]? t.forests[g]?

/-- Two states keep the same record about the same assignment. -/
structure Alike (s t : State) : Prop extends SameRecord s t where
  assignment : s.assignment = t.assignment

/-- Two alike states in the same attempt, with the same counters for it. `k` and `l`
are their numbers of random picks at some moment, since when they made equally many.
-/
structure Running (k l : Nat) (s t : State) : Prop extends Alike s t where
  tally : s.tally = t.tally
  picks : s.randomPicks + l = t.randomPicks + k

/-- Both states have a forest with a number, and these are alike, or neither has. -/
theorem SameRecord.entry (h : s.SameRecord t) (g : Nat) :
    (s.forests[g]? = none ∧ t.forests[g]? = none)
      ∨ ∃ u u', s.forests[g]? = some u ∧ t.forests[g]? = some u' ∧ u.Alike u' := by
  have hAt := h.forests g
  cases hs : s.forests[g]? with
  | none =>
      cases ht : t.forests[g]? with
      | none => exact Or.inl ⟨rfl, rfl⟩
      | some u' =>
          rw [hs, ht] at hAt
          cases hAt
  | some u =>
      cases ht : t.forests[g]? with
      | none =>
          rw [hs, ht] at hAt
          cases hAt
      | some u' =>
          rw [hs, ht] at hAt
          cases hAt with
          | some hAlike => exact Or.inr ⟨u, u', rfl, rfl, hAlike⟩

/-- A forest is replaced in both states. -/
theorem SameRecord.setForest (h : s.SameRecord t) {g : Nat} {u u' : TrackedGraph}
    (hAlike : u.Alike u') : (s.setForest g u).SameRecord (t.setForest g u') := by
  refine ⟨h.violated, h.marks, h.generator, fun j => ?_⟩
  by_cases hj : j = g
  · subst hj
    rcases h.entry j with ⟨hs, ht⟩ | ⟨v, v', hs, ht, _⟩
    · have hEnds := Array.getElem?_eq_none_iff.mp hs
      have hEndt := Array.getElem?_eq_none_iff.mp ht
      rw [Array.getElem?_eq_none (by simpa [State.setForest] using hEnds),
        Array.getElem?_eq_none (by simpa [State.setForest] using hEndt)]
      exact .none
    · rw [getElem?_setForest_self hs, getElem?_setForest_self ht]
      exact .some hAlike
  · rw [getElem?_setForest_other hj, getElem?_setForest_other hj]
    exact h.forests j

theorem Running.setForest (h : Running k l s t) {g : Nat} {u u' : TrackedGraph}
    (hAlike : u.Alike u') : Running k l (s.setForest g u) (t.setForest g u') :=
  ⟨⟨h.toSameRecord.setForest hAlike, h.assignment⟩, h.tally, h.picks⟩

/-- Alike states have forests of the same graphs. -/
theorem SameRecord.graphs (h : s.SameRecord t) :
    s.forests.map TrackedGraph.graph = t.forests.map TrackedGraph.graph := by
  apply Array.ext_getElem?
  intro g
  rw [Array.getElem?_map, Array.getElem?_map]
  rcases h.entry g with ⟨hs, ht⟩ | ⟨u, u', hs, ht, hAlike⟩
  · rw [hs, ht]
  · rw [hs, ht]
    cases hAlike
    rfl

end State

/-- Once they were all marked as stale, the forests of the same graphs are alike. -/
theorem alike_invalidated
    (h : s.forests.map TrackedGraph.graph = t.forests.map TrackedGraph.graph) (g : Nat) :
    Option.Rel TrackedGraph.Alike (s.forests.map TrackedGraph.invalidate)[g]?
      (t.forests.map TrackedGraph.invalidate)[g]? := by
  have hGraphs := congrArg (·[g]?) h
  simp only [Array.getElem?_map] at hGraphs ⊢
  cases hFirst : s.forests[g]? with
  | none =>
      rw [hFirst] at hGraphs
      rw [Option.map_eq_none_iff.mp hGraphs.symm]
      exact .none
  | some u =>
      rw [hFirst] at hGraphs
      obtain ⟨⟨gr, f⟩, hSecond, hGraph⟩ := Option.map_eq_some_iff.mp hGraphs.symm
      obtain rfl : gr = u.graph := hGraph
      rw [hSecond]
      exact .some (.forests (Forest.Alike.invalidate _ _))

/-! ## Forests side by side -/

namespace Search

/-- Looking up a forest in two states, and going on with it. -/
theorem agree_tracked {g : Nat} {next : TrackedGraph → Search α}
    {returns : α → State → State → Prop} {fails : Fault → State → State → Prop} (h : s.SameRecord t)
    (hNext : ∀ u u', s.forests[g]? = some u → t.forests[g]? = some u' → u.Alike u' →
      Agree (next u) (next u') s t returns fails)
    (hFails : fails .outOfRange s t) :
    Agree (tracked g >>= next) (tracked g >>= next) s t returns fails := by
  unfold tracked entryAt
  rw [bind_assoc]
  apply agree_get
  rcases h.entry g with ⟨hs, ht⟩ | ⟨u, u', hs, ht, hAlike⟩
  · rw [hs, ht]
    exact ⟨rfl, hFails⟩
  · rw [hs, ht]
    exact hNext u u' hs ht hAlike

/-- A question that does not depend on the count is answered alike by alike forests.
-/
theorem agree_ask {g : Nat} {gr : Graph} {f f' : Forest gr} {q : Except Fault (Forest.Query gr α)}
    {β : Type} {next : α → Search β} (h : Running k l s t) (hAlike : Forest.Alike f f')
    (hBlind : ∀ r, q = .ok r → Forest.Blind r) (hNext : ∀ a, Respects (next a) (Running k l)) :
    Agree (do
        let (answer, u) ← of (TrackedGraph.ask ⟨gr, f⟩ s.assignment q)
        putTracked g u
        next answer) (do
        let (answer, u) ← of (TrackedGraph.ask ⟨gr, f'⟩ t.assignment q)
        putTracked g u
        next answer) s t (fun _ => Running k l) fun _ => Running k l := by
  rw [← h.assignment]
  unfold TrackedGraph.ask
  rcases hAlike.bringUpToDate s.assignment with ⟨u, u', hu, hu', n, rfl⟩ | ⟨e, hu, hu'⟩
  · simp only [hu, hu']
    cases q with
    | error e => exact ⟨rfl, h⟩
    | ok r =>
        have hAnswer := hBlind r rfl u n
        have hSame : (r (u.withBuilds n)).1 = (r u).1 := by rw [hAnswer]
        have hLeft : (r (u.withBuilds n)).2 = (r u).2.withBuilds n := by rw [hAnswer]
        show Agree (putTracked g ⟨gr, (r u).2⟩ >>= fun _ => next (r u).1)
          (putTracked g ⟨gr, (r (u.withBuilds n)).2⟩ >>= fun _ => next (r (u.withBuilds n)).1)
          s t _ _
        rw [hSame, hLeft]
        exact hNext _ _ _ (h.setForest (.forests (Forest.alike_withBuilds _ n)))
  · simp only [hu, hu']
    exact ⟨rfl, h⟩

end Search

/-! ## Every step -/

/-- Resolving a demand and asking about it does not depend on the count. -/
theorem Connectivity.blind_resolved {g : Graph} {β : Type} {demand : Connectivity Nat}
    {question : Connectivity g.Vertex → Forest.Query g β} (hBlind : ∀ d, Forest.Blind (question d))
    (q : Forest.Query g β)
    (hq : (do return question (← demand.resolve g)) = Except.ok (ε := Fault) q) :
    Forest.Blind q := by
  cases hResolve : demand.resolve g with
  | error e =>
      rw [hResolve] at hq
      cases hq
  | ok d =>
      rw [hResolve] at hq
      cases hq
      exact hBlind d

namespace Search

/-- A stale forest is alike whatever it was before. -/
theorem respects_invalidate_running (g : Nat) :
    Respects (Search.invalidate g) (State.Running k l) := by
  intro s t h
  apply agree_tracked h.toSameRecord _ h
  intro u u' _ _ hAlike
  cases hAlike
  exact ⟨rfl, h.setForest (.forests (Forest.Alike.invalidate _ _))⟩

/-- Alike forests stay alike when they are told of a flip. -/
theorem respects_noteFlip_running (g v : Nat) (present : Bool) :
    Respects (noteFlip g v present) (State.Running k l) := by
  intro s t h
  apply agree_tracked h.toSameRecord _ h
  intro u u' _ _ hAlike
  cases hAlike with
  | @forests gr f f' hAlike =>
      dsimp only
      cases gr.edgeBackedBy? v with
      | none => exact ⟨rfl, h⟩
      | some e => exact ⟨rfl, h.setForest (.forests (hAlike.note e present))⟩

/-- Alike forests agree on whether a demand is met. -/
theorem respects_askMet_running (g : Nat) (demand : Connectivity Nat) :
    Respects (askForest g fun gr => do return (← demand.resolve gr).isMet)
      (State.Running k l) := by
  intro s t h
  apply agree_tracked h.toSameRecord _ h
  intro u u' _ _ hAlike
  cases hAlike with
  | forests hAlike =>
      exact agree_ask h hAlike
        (fun q hq => Connectivity.blind_resolved Connectivity.blind_isMet q hq) fun a => .pure a

/-- Alike forests agree on what an edge would do to a demand. -/
theorem respects_askRisk_running (g v : Nat) (demand : Connectivity Nat) (value : Bool)
    (path : List Nat) :
    Respects (askEdge g v fun gr e => do
      return (← demand.resolve gr).risk e value (path.contains e.val)) (State.Running k l) := by
  intro s t h
  apply agree_tracked h.toSameRecord _ h
  intro u u' _ _ hAlike
  cases hAlike with
  | @forests gr f f' hAlike =>
      dsimp only
      cases gr.edgeBackedBy? v with
      | none => exact ⟨rfl, h⟩
      | some e =>
          exact agree_ask h hAlike (fun q hq => Connectivity.blind_resolved
            (fun d => Connectivity.blind_risk d e value _) q hq) fun a => .pure (some a)

end Search

namespace Walk

/-- Clearing forgets what alike states may differ in, and keeps the rest. -/
theorem respects_clear_running : Respects clear (State.Running k l) := by
  intro s t h
  unfold clear
  apply agree_get
  rw [← h.violated]
  cases s.violated.clear with
  | error e => exact ⟨rfl, h⟩
  | ok w =>
      have hMarks : s.marks.map (fun _ => ({} : Marks)) = t.marks.map fun _ => {} := by
        rw [h.marks]
      exact agree_modify
        ⟨⟨⟨rfl, hMarks, h.generator, alike_invalidated h.graphs⟩, h.assignment⟩, h.tally, h.picks⟩

/-- Alike states have the same assignment, so the same value is turned over. -/
theorem respects_turnOver_running (v : Nat) : Respects (turnOver v) (State.Running k l) := by
  intro s t h
  unfold turnOver
  apply agree_get
  rw [← h.assignment]
  cases s.assignment.flip v with
  | error e => exact ⟨rfl, h⟩
  | ok flipped =>
      exact ⟨rfl, ⟨⟨h.violated, h.marks, h.generator, h.forests⟩, rfl⟩,
        congrArg (fun tally : Stats => { tally with flips := tally.flips + 1 }) h.tally, h.picks⟩

end Walk

/-- Every step respects being alike. -/
theorem carried_running (p : Problem) (k l : Nat) :
    Carried p (fun _ => True) (State.Running k l) :=
  { assignment := fun h => h.assignment
    violated := fun h => h.violated
    marks := fun h => h.marks
    generator := fun h => h.generator
    graphs := fun h => h.graphs
    setGenerator := fun _ h =>
      ⟨⟨⟨h.violated, h.marks, rfl, h.forests⟩, h.assignment⟩, h.tally, h.picks⟩
    setMarks := fun id m h =>
      ⟨⟨⟨h.violated, congrArg (·.setIfInBounds id m) h.marks, h.generator, h.forests⟩,
        h.assignment⟩, h.tally, h.picks⟩
    setViolated := fun h _ =>
      ⟨⟨⟨rfl, h.marks, h.generator, h.forests⟩, h.assignment⟩, h.tally, h.picks⟩
    setAssignment := fun h _ =>
      ⟨⟨⟨h.violated, h.marks, h.generator, h.forests⟩, rfl⟩, h.tally, h.picks⟩
    countRandom := by
      intro s t h
      have hPicks := h.picks
      refine ⟨⟨⟨h.violated, h.marks, h.generator, h.forests⟩, h.assignment⟩, h.tally, ?_⟩
      show s.randomPicks + 1 + l = t.randomPicks + 1 + k
      omega
    touch := fun id change h =>
      ⟨⟨⟨h.violated, h.marks, h.generator, h.forests⟩, h.assignment⟩,
        congrArg (·.touch id change) h.tally, h.picks⟩
    invalidate := respects_invalidate_running
    noteFlip := respects_noteFlip_running
    askMet := fun g _ => respects_askMet_running g
    askRisk := respects_askRisk_running
    clear := Walk.respects_clear_running
    turnOver := fun v _ => Walk.respects_turnOver_running v }

end LocalRepair
