import LocalRepair.Proofs.Graph.Path
import LocalRepair.Proofs.Search.Record

/-!
# Evaluating makes the record right

Evaluating a problem starts from whatever an earlier attempt left behind. First
every constraint drops what it shares: the forest of its graph becomes stale, and
a stale forest claims nothing. Then the constraints are evaluated one by one. The
first one on a graph builds the forest, the others find it built; both cases are
covered by the same condition, that the forest mirrors the assignment.

## Main results

* `ends_holdsNow_graph`: a demand is answered with its meaning.
* `ends_evaluate`: a constraint that is evaluated is settled.
* `Problem.ends_evaluateAll`: the record is right afterwards, whatever it was.
-/

namespace LocalRepair

open Search State

variable {p : Problem} {s s' : State} {id g : Nat} {c : Constraint} {m : Marks}
  {t : TrackedGraph} {a : Assignment} {demand : Connectivity Nat} {fails : Fault → State → Prop}

namespace State

/-- A step for one constraint has settled it, and left everything else as it
was. -/
structure Settles (s s' : State) (p : Problem) (a : Assignment) (id : Nat) (c : Constraint) :
    Prop where
  shaped : s'.Shaped p
  touched : Touched s s' id c
  settled : s'.Settled p a id c

/-- A forest that was set is the one that is followed. -/
theorem follows_setForest (hForest : s.forests[g]? = some t) {f : Forest t.graph}
    (h : TrackedGraph.UpToDate ⟨t.graph, f⟩ a) : (s.setForest g ⟨t.graph, f⟩).Follows g a :=
  ⟨_, getElem?_setForest_self hForest, h⟩

/-- Forests that mirror an assignment still do after a step that settles a
constraint for it. -/
theorem Settles.mirrors (h : Settles s s' p a id c) (k : s.Mirrors g a) : s'.Mirrors g a := by
  by_cases hOwn : ∃ demand, c = .graph g demand
  · obtain ⟨demand, hEq⟩ := hOwn
    exact (h.settled.follows g demand hEq).mirrors
  · obtain ⟨t, hForest, hMirrors⟩ := k
    refine ⟨t, ?_, hMirrors⟩
    rw [h.touched.forests g fun demand hEq => hOwn ⟨demand, hEq⟩]
    exact hForest

end State

/-! ## One constraint -/

namespace Constraint

/-- A demand is answered with its meaning, if the forest could be brought up to date. After
that no more than parents change. -/
theorem ends_holdsNow_of_update {returns : Bool → State → Prop} {d : Connectivity t.graph.Vertex}
    {f : Forest t.graph} (hForest : s.forests[g]? = some t)
    (hGraph : p.graphs[g]? = some t.graph) (hResolve : demand.resolve t.graph = .ok d)
    (hUpdate : t.forest.bringUpToDate s.assignment = .ok f)
    (hUpToDate : TrackedGraph.UpToDate ⟨t.graph, f⟩ s.assignment)
    (hReturns : ∀ b f', (b = true ↔ (graph g demand).Holds p.graphs s.assignment) →
      TrackedGraph.UpToDate ⟨t.graph, f'⟩ s.assignment → Forest.Redirected f f' →
      returns b (s.setForest g ⟨t.graph, f'⟩)) :
    Ends (holdsNow id (graph g demand)) s returns fails := by
  obtain ⟨hBuilt, hSpans⟩ := hUpToDate
  obtain ⟨answer, hAsks, hAnswer⟩ := Connectivity.asks_isMet hSpans d
  obtain ⟨hFirst, hRedirected⟩ := hAsks f (.refl hSpans.ranked)
  rw [holdsNow]
  refine ends_askForest hForest hUpdate (?_ : _ = Except.ok d.isMet)
    (hReturns _ _ ?_ ?_ hRedirected)
  · rw [hResolve]
    rfl
  · rw [hFirst, hAnswer, holds_graph_iff hGraph hResolve]
  · exact ⟨hRedirected.built.trans hBuilt, hSpans.redirected hRedirected⟩

/-- A demand is answered with its meaning. If the forest was built, no more than
parents change. -/
theorem ends_holdsNow_graph {returns : Bool → State → Prop} (hp : p.WellFormed)
    (h : s.Shaped p) (hc : p.constraints[id]? = some (.graph g demand))
    (hForest : s.forests[g]? = some t) (hMirrors : t.forest.Mirrors s.assignment)
    (hReturns : ∀ b f, (b = true ↔ (graph g demand).Holds p.graphs s.assignment) →
      TrackedGraph.UpToDate ⟨t.graph, f⟩ s.assignment →
      (t.forest.built = true → Forest.Redirected t.forest f) →
      returns b (s.setForest g ⟨t.graph, f⟩)) :
    Ends (holdsNow id (graph g demand)) s returns fails := by
  obtain ⟨t', d, hForest', hGraph, hResolve⟩ := h.lookup hp hc
  rw [hForest] at hForest'
  obtain rfl := Option.some.inj hForest'
  obtain ⟨f, hUpdate, hBuilt, hSpans, hKeep⟩ := hMirrors.bringUpToDate (h.coveredBy hp hForest)
  apply ends_holdsNow_of_update hForest hGraph hResolve hUpdate ⟨hBuilt, hSpans⟩
  intro b f' hAnswer hUpToDate hRedirected
  exact hReturns b f' hAnswer hUpToDate fun hUp => hKeep hUp ▸ hRedirected

/-- Where a demand on a pair is not met, it is right to keep an empty path. -/
theorem routed_nil {source target : Nat}
    (h : ¬ (graph g (.pair source target)).Holds p.graphs a) :
    (graph g (.pair source target)).Routed p.graphs a [] := by
  intro gr u w hGraph hSource hTarget
  have hResolve := Connectivity.resolve_pair hSource hTarget
  exact Or.inr ⟨rfl, fun hJoined => h ((holds_graph_iff hGraph hResolve).mpr hJoined)⟩

/-- The path that is found for a pair of vertices is kept. -/
theorem ends_keepShortestPath {source target : Nat} {returns : Unit → State → Prop}
    (hp : p.WellFormed) (h : s.Shaped p)
    (hc : p.constraints[id]? = some (.graph g (.pair source target)))
    (hMarks : s.marks[id]? = some m)
    (hReturns : ∀ path, (graph g (.pair source target)).Routed p.graphs s.assignment path →
      returns () (s.setMarks id { m with path })) :
    Ends (keepShortestPath id g source target) s returns fails := by
  obtain ⟨t, d, hForest, hGraph, hResolve⟩ := h.lookup hp hc
  obtain ⟨u, w, hSource, hTarget, _⟩ := Connectivity.exists_of_resolve_pair hResolve
  have hRouted : ∀ path, t.graph.Connects s.assignment u w path →
      (graph g (.pair source target)).Routed p.graphs s.assignment path := by
    intro path hConnects gr u' w' hGraph' hSource' hTarget'
    obtain rfl := Option.some.inj (hGraph.symm.trans hGraph')
    obtain rfl := Except.ok.inj (hSource.symm.trans hSource')
    obtain rfl := Except.ok.inj (hTarget.symm.trans hTarget')
    exact hConnects
  rw [keepShortestPath, ends_bind]
  apply ends_tracked hForest
  rw [ends_bind, ends_get, ends_bind]
  rcases Graph.shortestPath_finds (h.coveredBy hp hForest) hSource hTarget with
    ⟨es, hFound, hPath⟩ | ⟨hNone, hApart⟩
  · apply ends_of hFound
    exact ends_changeMarks hMarks (hReturns _ (hRouted _ (Or.inl ⟨es, rfl, hPath⟩)))
  · apply ends_of hNone
    exact ends_changeMarks hMarks (hReturns _ (hRouted _ (Or.inr ⟨rfl, hApart⟩)))

/-- Recording what a constraint means settles it, if its count, its path and its
forest are right. -/
theorem ends_record_settles {satisfied : Bool} (h : s'.Shaped p)
    (hc : p.constraints[id]? = some c) (hTouched : Touched s s' id c)
    (hSatisfied : satisfied = true ↔ c.Holds p.graphs a)
    (hCounted : ∀ k, c = .clause k → ∀ m, s'.marks[id]? = some m →
      m.trueLiterals = k.truePositions a)
    (hRouted : ∀ m, s'.marks[id]? = some m → c.Routed p.graphs a m.path)
    (hFollows : ∀ g demand, c = .graph g demand → s'.Follows g a) :
    Ends (record id satisfied) s' (fun _ s'' => Settles s s'' p a id c) fails := by
  apply ends_record h.violated (Shaped.lt_of_constraint hc)
  intro w hFits hSelf hOther
  have hViolated : id ∈ w.toList ↔ ¬ c.Holds p.graphs a := by
    rw [hSelf, ← hSatisfied, Bool.not_eq_true]
  exact
    { shaped := h.setViolated hFits
      touched := hTouched.trans (.setViolated hOther)
      settled :=
        { violated := hViolated
          counted := hCounted
          routed := hRouted
          follows := hFollows } }

/-- Keeping and recording the number of true positions of a clause settles it.
-/
theorem ends_recordCount {k : Clause} (h : s.Shaped p)
    (hc : p.constraints[id]? = some (.clause k)) :
    Ends (do
        changeMarks id fun m => { m with trueLiterals := k.truePositions s.assignment }
        record id (k.accepts (k.truePositions s.assignment))) s
      (fun _ s' => Settles s s' p s.assignment id (.clause k)) fails := by
  obtain ⟨m, hMarks⟩ := h.exists_marks hc
  rw [ends_bind]
  apply ends_changeMarks hMarks
  refine ends_record_settles h.setMarks hc .setMarks Clause.accepts_iff ?_ (fun _ _ => trivial)
    (by simp)
  intro k' hk m' hm'
  rw [getElem?_setMarks_self hMarks] at hm'
  rw [← Option.some.inj hm', ← Constraint.clause.inj hk]

/-- Recording what a demand means settles it, if its path and its forest are right. -/
theorem ends_recordDemand {satisfied : Bool} (h : s'.Shaped p)
    (hc : p.constraints[id]? = some (.graph g demand))
    (hTouched : Touched s s' id (.graph g demand))
    (hSatisfied : satisfied = true ↔ (graph g demand).Holds p.graphs a)
    (hMarks : s'.marks[id]? = some m) (hRouted : (graph g demand).Routed p.graphs a m.path)
    (hFollows : s'.Follows g a) :
    Ends (record id satisfied) s' (fun _ s'' => Settles s s'' p a id (.graph g demand)) fails := by
  refine ends_record_settles h hc hTouched hSatisfied (by simp) (fun m' hm' => ?_) ?_
  · rw [hMarks] at hm'
    rwa [← Option.some.inj hm']
  · intro g' demand' hEq
    obtain rfl := (Constraint.graph.inj hEq).1
    exact hFollows

/-- A constraint that is evaluated is settled. -/
theorem ends_evaluate (hp : p.WellFormed) (h : s.Shaped p) (hc : p.constraints[id]? = some c)
    (hMirrors : ∀ g demand, c = .graph g demand → s.Mirrors g s.assignment) :
    Ends (c.evaluate id) s (fun _ s' => Settles s s' p s.assignment id c) Never := by
  cases c with
  | clause c =>
      have hCount : c.countTrue s.assignment = .ok (c.truePositions s.assignment) := by
        apply Clause.countTrue_eq (hp.short_clause hc)
        intro l hl
        rw [h.assignment]
        exact Nat.lt_succ_of_le (hp.constraints _ (Array.mem_of_getElem? hc) l hl).2
      rw [evaluate, ends_bind, ends_get, ends_bind]
      apply ends_of hCount
      exact ends_recordCount h hc
  | graph g demand =>
      obtain ⟨m, hMarks⟩ := h.exists_marks hc
      obtain ⟨t, hForest, hMirrors⟩ := hMirrors g demand rfl
      rw [evaluate, ends_bind]
      apply ends_holdsNow_graph hp h hc hForest hMirrors
      intro b f hAnswer hUpToDate _
      have hShaped : (s.setForest g ⟨t.graph, f⟩).Shaped p := h.setForest hForest rfl
      have hFollows := follows_setForest hForest hUpToDate
      have hKept : (s.setForest g ⟨t.graph, f⟩).marks[id]? = some m := hMarks
      have hRecord : (graph g demand).Routed p.graphs s.assignment m.path →
          Ends (record id b) (s.setForest g ⟨t.graph, f⟩)
            (fun _ s' => Settles s s' p s.assignment id (.graph g demand)) Never :=
        fun hRouted => ends_recordDemand hShaped hc .setForest hAnswer hKept hRouted hFollows
      have hPath : ∀ path, (graph g demand).Routed p.graphs s.assignment path →
          Ends (record id b) ((s.setForest g ⟨t.graph, f⟩).setMarks id { m with path })
            (fun _ s' => Settles s s' p s.assignment id (.graph g demand)) Never :=
        fun path hRouted => ends_recordDemand hShaped.setMarks hc
          (Touched.setForest.trans .setMarks) hAnswer (getElem?_setMarks_self hKept) hRouted
          hFollows
      cases demand with
      | whole => exact hRecord trivial
      | pieces count => exact hRecord trivial
      | sides left right => exact hRecord trivial
      | pair source target =>
          show Ends (if b = true then do keepShortestPath id g source target; record id b
            else do changeMarks id fun m => { m with path := [] }; record id b) _ _ _
          refine ends_ite (fun _ => ?_) fun hUnmet => ?_
          · rw [ends_bind]
            exact ends_keepShortestPath hp hShaped hc hMarks hPath
          · rw [ends_bind]
            exact ends_changeMarks hMarks (hPath [] (routed_nil (mt hAnswer.mpr hUnmet)))

/-! ## The whole problem -/

/-- A constraint that is reset leaves no forest built of its graph. -/
theorem ends_reset (hp : p.WellFormed) (h : s.Shaped p) (hc : p.constraints[id]? = some c) :
    Ends (c.reset id) s (fun _ s' => s'.Shaped p ∧ OnlyTables s s'
      ∧ (∀ g, s.Mirrors g s.assignment → s'.Mirrors g s.assignment)
      ∧ ∀ g demand, c = .graph g demand → s'.Mirrors g s.assignment) Never := by
  obtain ⟨m, hMarks⟩ := h.exists_marks hc
  cases c with
  | clause c => exact ⟨h, rfl, fun _ hOld => hOld, by simp⟩
  | graph g demand =>
      obtain ⟨t, d, hForest, _, _⟩ := h.lookup hp hc
      have hShaped : (s.setForest g t.invalidate).Shaped p := h.setForest hForest rfl
      have hSelf : (s.setForest g t.invalidate).Mirrors g s.assignment :=
        ⟨_, getElem?_setForest_self hForest, Forest.mirrors_of_stale rfl⟩
      have hOld : ∀ j, s.Mirrors j s.assignment →
          (s.setForest g t.invalidate).Mirrors j s.assignment := by
        intro j hj
        by_cases hEq : j = g
        · rw [hEq]
          exact hSelf
        · obtain ⟨t', hForest', hMirrors⟩ := hj
          exact ⟨t', (getElem?_setForest_other hEq).trans hForest', hMirrors⟩
      have hOwn : ∀ g' demand', graph g demand = .graph g' demand' →
          (s.setForest g t.invalidate).Mirrors g' s.assignment := by
        intro g' demand' hEq
        rw [← (Constraint.graph.inj hEq).1]
        exact hSelf
      show Ends (invalidate g >>= _) s _ _
      rw [ends_bind]
      apply ends_invalidate hForest
      cases demand with
      | whole => exact ⟨hShaped, rfl, hOld, hOwn⟩
      | pieces count => exact ⟨hShaped, rfl, hOld, hOwn⟩
      | sides left right => exact ⟨hShaped, rfl, hOld, hOwn⟩
      | pair source target =>
          exact ends_changeMarks hMarks ⟨hShaped.setMarks, rfl, hOld, hOwn⟩

end Constraint

namespace Problem

/-- Constraints are numbered without gaps. -/
theorem exists_constraint (hId : id ∈ p.constraintIds) : ∃ c, p.constraints[id]? = some c := by
  have hRange : id < p.constraints.size := by simpa [constraintIds] using hId
  exact ⟨p.constraints[id], Array.getElem?_eq_getElem hRange⟩

theorem mem_constraintIds (hc : p.constraints[id]? = some c) : id ∈ p.constraintIds := by
  simpa [constraintIds] using Shaped.lt_of_constraint hc

/-- After the constraints were reset, every forest that one of them speaks of
mirrors the assignment. -/
theorem ends_resetAll (hp : p.WellFormed) (h : s.Shaped p) :
    Ends (p.constraintIds.forM fun id => do (← Search.of (p.constraint id)).reset id) s
      (fun _ s' => s'.Shaped p ∧ OnlyTables s s'
        ∧ ∀ (id g : Nat) (demand : Connectivity Nat),
          p.constraints[id]? = some (.graph g demand) → s'.Mirrors g s.assignment) Never := by
  have hRun := ends_forM (fun id => do (← Search.of (p.constraint id)).reset id)
    (fun done rest s' => (∀ id ∈ rest, id ∈ p.constraintIds)
      ∧ s'.Shaped p ∧ OnlyTables s s'
      ∧ ∀ id ∈ done, ∀ (g : Nat) (demand : Connectivity Nat),
        p.constraints[id]? = some (.graph g demand) → s'.Mirrors g s.assignment)
    ?_ p.constraintIds [] s ⟨fun _ hId => hId, h, .refl s, by simp⟩
  · apply hRun.weaken
    rintro _ s' ⟨_, hShaped, hSame, hDone⟩
    refine ⟨hShaped, hSame, fun id g demand hc => hDone id ?_ g demand hc⟩
    simpa using mem_constraintIds hc
  · rintro done id rest s' ⟨hIds, hShaped, hSame, hDone⟩
    obtain ⟨c, hc⟩ := exists_constraint (hIds id (by simp))
    rw [ends_bind]
    refine ends_constraint hc ((c.ends_reset hp hShaped hc).weaken ?_)
    rintro _ s'' ⟨hShaped', hSame', hOld, hOwn⟩
    rw [hSame.assignment] at hOld hOwn
    refine ⟨fun j hj => hIds j (List.mem_cons_of_mem _ hj), hShaped', hSame.trans hSame', ?_⟩
    intro j hj g demand hcj
    rcases List.mem_cons.mp hj with rfl | hj
    · rw [hc] at hcj
      exact hOwn g demand (Option.some.inj hcj)
    · exact hOld g (hDone j hj g demand hcj)

/-- Evaluating some constraints, after all were reset, settles these. -/
theorem ends_evaluateThese (hp : p.WellFormed) (ids : List Nat)
    (hIds : ∀ id ∈ ids, id ∈ p.constraintIds) (h : s.Shaped p) (hSame : s.assignment = a)
    (hMirrors : ∀ (id g : Nat) (demand : Connectivity Nat),
      p.constraints[id]? = some (.graph g demand) → s.Mirrors g a) :
    Ends (ids.forM fun id => do (← Search.of (p.constraint id)).evaluate id) s
      (fun _ s' => s'.Shaped p ∧ OnlyTables s s'
        ∧ (∀ (id g : Nat) (demand : Connectivity Nat),
          p.constraints[id]? = some (.graph g demand) → s'.Mirrors g a)
        ∧ ∀ id ∈ ids, ∀ c, p.constraints[id]? = some c → s'.Settled p a id c) Never := by
  have hRun := ends_forM (fun id => do (← Search.of (p.constraint id)).evaluate id)
    (fun done rest s' => (∀ id ∈ rest, id ∈ p.constraintIds)
      ∧ s'.Shaped p ∧ OnlyTables s s'
      ∧ (∀ (id g : Nat) (demand : Connectivity Nat),
        p.constraints[id]? = some (.graph g demand) → s'.Mirrors g a)
      ∧ ∀ id ∈ done, ∀ c, p.constraints[id]? = some c → s'.Settled p a id c)
    ?_ ids [] s ⟨hIds, h, .refl s, hMirrors, by simp⟩
  · apply hRun.weaken
    rintro _ s' ⟨_, hShaped, hTables, hMirrors, hDone⟩
    exact ⟨hShaped, hTables, hMirrors, fun id hId => hDone id (by simpa using hId)⟩
  · rintro done id rest s' ⟨hIds, hShaped, hTables, hMirrors, hDone⟩
    have hSame' : s'.assignment = a := hTables.assignment.trans hSame
    obtain ⟨c, hc⟩ := exists_constraint (hIds id (by simp))
    have hOwn : ∀ g demand, c = .graph g demand → s'.Mirrors g s'.assignment := by
      rintro g demand rfl
      rw [hSame']
      exact hMirrors id g demand hc
    rw [ends_bind]
    refine ends_constraint hc ((c.ends_evaluate hp hShaped hc hOwn).weaken ?_)
    intro _ s'' hSettles
    rw [hSame'] at hSettles
    refine ⟨fun j hj => hIds j (List.mem_cons_of_mem _ hj), hSettles.shaped,
      hTables.trans hSettles.touched.onlyTables, fun j g demand hcj => ?_, fun j hj c' hcj => ?_⟩
    · exact hSettles.mirrors (hMirrors j g demand hcj)
    · by_cases hEq : j = id
      · subst hEq
        rw [hc] at hcj
        rw [← Option.some.inj hcj]
        exact hSettles.settled
      · have hOld : j ∈ done := (List.mem_cons.mp hj).resolve_left hEq
        exact hSettles.touched.settled hSettles.settled hEq (hDone j hOld c' hcj)

/-- Evaluating all constraints changes nothing but the record, and makes it right for the
assignment at hand, whatever it was before. -/
theorem ends_evaluateAll_tables (hp : p.WellFormed) (h : s.Shaped p) :
    Ends p.evaluateAll s (fun _ s' => s'.Tracks p ∧ OnlyTables s s') Never := by
  rw [evaluateAll]
  apply (ends_resetAll hp h).bind
  rintro _ s₁ ⟨hShaped, hTables, hMirrors⟩
  have hSame := hTables.assignment
  apply (ends_evaluateThese hp p.constraintIds (fun _ hId => hId) hShaped hSame hMirrors).weaken
  rintro _ s₂ ⟨hShaped', hTables', _, hSettled⟩
  refine ⟨⟨hShaped', fun id c hc => ?_⟩, hTables.trans hTables'⟩
  rw [hTables'.assignment, hSame]
  exact hSettled id (mem_constraintIds hc) c hc

/-- After an evaluation the record is right for the same assignment. -/
theorem ends_evaluateAll (hp : p.WellFormed) (h : s.Shaped p) :
    Ends p.evaluateAll s (fun _ s' => s'.Tracks p ∧ s'.assignment = s.assignment) Never :=
  (ends_evaluateAll_tables hp h).weaken fun _ _ hEnd => ⟨hEnd.1, hEnd.2.assignment⟩

end Problem
end LocalRepair
