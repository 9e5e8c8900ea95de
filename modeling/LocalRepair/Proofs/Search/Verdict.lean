import LocalRepair.Proofs.Search.Soundness

/-!
# Reports on any assignment

A report can be asked for on an assignment of any length. On one that has a value for
every proposition it is always made. A shorter assignment is a fault as soon as a value
beyond its end is asked for, but not all values need to be: a proposition may occur
in no constraint. Of a longer one nothing is read but the beginning.

Whatever the length, a report that is made is right. Here the evaluation is followed
without any assumption on the assignment, and nothing is promised of a failure. What is
needed of the assignment follows from the success of the steps: a forest that could be
made is right about the edges, and a clause whose literals were counted has none
beyond the end.

## Main results

* `Constraint.ends_evaluate_told`: what the evaluation of one constraint establishes.
* `Problem.told_of_violatedBy`: a report tells which constraints do not hold.
-/

namespace LocalRepair

/-- A clause whose literals could be counted has none beyond the end of the assignment. -/
theorem Clause.lt_of_countTrue {c : Clause} {a : Assignment} {n : Nat}
    (h : c.countTrue a = .ok n) : ∀ l ∈ c.literals, l.proposition < a.values.size := by
  have hFold : ∀ (ls : List Literal) (count n : Nat),
      ls.foldlM (fun n l => do if ← a.holds l then return n + 1 else return n) count
        = Except.ok (ε := Fault) n → ∀ l ∈ ls, l.proposition < a.values.size := by
    intro ls
    induction ls with
    | nil => simp
    | cons l ls ih =>
        intro count n hRun k hk
        rw [List.foldlM_cons] at hRun
        by_cases hRange : l.proposition < a.values.size
        · have hHolds : a.holds l = .ok (l.isTrueUnder (a.isTrue l.proposition)) := by
            rw [Assignment.holds, Assignment.value_eq hRange]
            rfl
          rcases List.mem_cons.mp hk with rfl | hk
          · exact hRange
          · rw [hHolds] at hRun
            cases hTrue : l.isTrueUnder (a.isTrue l.proposition) with
            | true =>
                rw [hTrue] at hRun
                exact ih (count + 1) n hRun k hk
            | false =>
                rw [hTrue] at hRun
                exact ih count n hRun k hk
        · have hBeyond : a.holds l = .error .outOfRange := by
            rw [Assignment.holds, Assignment.value, entryAt, Array.getElem?_eq_none (by omega)]
            rfl
          rw [hBeyond] at hRun
          cases hRun
  rw [countTrue] at h
  cases hCount : c.literals.foldlM
      (fun n l => do if ← a.holds l then return n + 1 else return n) 0 with
  | error fault =>
      rw [hCount] at h
      cases h
  | ok count => exact hFold c.literals 0 count hCount

namespace Forest

/-- A forest that could be brought up to date is built and right. -/
theorem Mirrors.spans_of_update {g : Graph} {f f' : Forest g} {a : Assignment}
    (h : f.Mirrors a) (hUpdate : f.bringUpToDate a = .ok f') :
    f'.built = true ∧ f'.Spans fun e => g.presentIn a e = true := by
  rw [Forest.bringUpToDate] at hUpdate
  by_cases hBuilt : f.built = true
  · rw [if_pos hBuilt] at hUpdate
    obtain rfl := Except.ok.inj hUpdate
    exact ⟨hBuilt, h hBuilt⟩
  · rw [if_neg hBuilt, rebuild] at hUpdate
    by_cases hCovered : g.coveredBy a = true
    · rw [if_pos hCovered] at hUpdate
      obtain rfl := Except.ok.inj hUpdate
      exact ⟨rfl, buildFrom_spans _ f⟩
    · rw [if_neg hCovered] at hUpdate
      cases hUpdate

end Forest

open Search State

variable {p : Problem} {s s' : State} {id g : Nat} {c : Constraint} {a : Assignment}
  {t : TrackedGraph}

namespace State

/-- A state in which an assignment is evaluated, of whatever length. -/
structure Evaluating (s : State) (p : Problem) (a : Assignment) : Prop where
  assignment : s.assignment = a
  violated : s.violated.Fits p.constraints.size
  graphs : s.forests.map TrackedGraph.graph = p.graphs
  mirrors : ∀ (g : Nat) (t : TrackedGraph), s.forests[g]? = some t → t.forest.Mirrors a

/-- The literals of a clause were all read, and the constraint is recorded as violated
exactly if it does not hold. -/
structure Told (s : State) (p : Problem) (a : Assignment) (id : Nat) (c : Constraint) : Prop where
  read : ∀ k, c = .clause k → ∀ l ∈ k.literals, l.proposition < a.values.size
  violated : id ∈ s.violated.toList ↔ ¬ c.Holds p.graphs a

namespace Evaluating

theorem setMarks (h : s.Evaluating p a) {m : Marks} : (s.setMarks id m).Evaluating p a :=
  ⟨h.assignment, h.violated, h.graphs, h.mirrors⟩

theorem setForest (h : s.Evaluating p a) (hForest : s.forests[g]? = some t)
    {f : Forest t.graph} (hMirrors : f.Mirrors a) :
    (s.setForest g ⟨t.graph, f⟩).Evaluating p a := by
  have hGraphs : (s.setForest g ⟨t.graph, f⟩).forests.map TrackedGraph.graph
      = s.forests.map TrackedGraph.graph := graphs_setForest hForest rfl
  refine ⟨h.assignment, h.violated, hGraphs.trans h.graphs, fun j t' hj => ?_⟩
  by_cases hSame : j = g
  · subst hSame
    rw [getElem?_setForest_self hForest] at hj
    obtain rfl := Option.some.inj hj
    exact hMirrors
  · rw [getElem?_setForest_other hSame] at hj
    exact h.mirrors j t' hj

/-- Before an evaluation no forest is built. -/
theorem new (p : Problem) (generator : ChaCha) (a : Assignment) :
    State.Evaluating { State.new p generator with assignment := a } p a := by
  have hNew := shaped_new p generator
  refine ⟨rfl, hNew.violated, hNew.graphs, fun g t hForest => ?_⟩
  have hFresh : p.graphs[g]?.map TrackedGraph.fresh = some t := by
    rw [← hForest]
    simp [State.new]
  obtain ⟨gr, _, rfl⟩ := Option.map_eq_some_iff.mp hFresh
  exact Forest.mirrors_of_stale rfl

end Evaluating
end State

namespace Search

/-- What is changed about an entry, if it can be. -/
theorem ends_changeMarks_any {change : Marks → Marks} {returns : Unit → State → Prop}
    (hReturns : ∀ m, returns () (s.setMarks id m)) :
    Ends (changeMarks id change) s returns fun _ _ => True := by
  cases hMarks : s.marks[id]? with
  | some m => exact ends_changeMarks hMarks (hReturns _)
  | none =>
      rw [changeMarks, ends_bind, marksOf, ends_bind, ends_get]
      refine ends_of_any (fun m hm => ?_) fun _ _ => trivial
      rw [entryAt_eq_ok_iff, hMarks] at hm
      cases hm

end Search

namespace Constraint

/-- After a constraint is recorded as what it means, everything is told of it and nothing
is changed for the others. -/
theorem ends_record_told {satisfied : Bool} (h : s'.Evaluating p a)
    (hc : p.constraints[id]? = some c) (hSame : s'.violated = s.violated)
    (hRead : ∀ k, c = .clause k → ∀ l ∈ k.literals, l.proposition < a.values.size)
    (hSatisfied : satisfied = true ↔ c.Holds p.graphs a) :
    Ends (record id satisfied) s' (fun _ s'' => s''.Evaluating p a ∧ s''.Told p a id c
      ∧ ∀ j, j ≠ id → (j ∈ s''.violated.toList ↔ j ∈ s.violated.toList)) fun _ _ => True := by
  apply ends_record h.violated (Shaped.lt_of_constraint hc)
  intro w hFits hSelf hOther
  refine ⟨⟨h.assignment, hFits, h.graphs, h.mirrors⟩, ⟨hRead, ?_⟩, fun j hj => ?_⟩
  · show id ∈ w.toList ↔ _
    rw [hSelf, ← hSatisfied, Bool.not_eq_true]
  · rw [← hSame]
    exact hOther j hj

/-- A path is kept, if it can be looked for at all. -/
theorem ends_keepShortestPath_any {source target : Nat} {returns : Unit → State → Prop}
    (hReturns : ∀ m, returns () (s.setMarks id m)) :
    Ends (keepShortestPath id g source target) s returns fun _ _ => True := by
  rw [keepShortestPath, tracked, ends_bind, ends_bind, ends_get]
  refine ends_of_any (fun t _ => ?_) fun _ _ => trivial
  rw [ends_bind, ends_get, ends_bind]
  exact ends_of_any (fun path _ => ends_changeMarks_any hReturns) fun _ _ => trivial

/-- A demand is answered with its meaning, if the forest can be brought up to date. -/
theorem ends_holdsNow_any {demand : Connectivity Nat} {returns : Bool → State → Prop}
    (hp : p.WellFormed) (h : s.Evaluating p a)
    (hc : p.constraints[id]? = some (.graph g demand))
    (hReturns : ∀ b (t : TrackedGraph) (f : Forest t.graph), s.forests[g]? = some t →
      f.Mirrors a → (b = true ↔ (graph g demand).Holds p.graphs a) →
      returns b (s.setForest g ⟨t.graph, f⟩)) :
    Ends (holdsNow id (graph g demand)) s returns fun _ _ => True := by
  obtain ⟨gr, d, hGraph, hResolve⟩ := hp.constraints _ (Array.mem_of_getElem? hc)
  obtain ⟨t, hForest, rfl⟩ := exists_forest_of_graphs h.graphs hGraph
  have hSame := h.assignment
  cases hUpdate : t.forest.bringUpToDate s.assignment with
  | error fault =>
      rw [holdsNow, askForest, ends_bind]
      apply ends_tracked hForest
      rw [ends_bind, ends_get, ends_bind, TrackedGraph.ask, hUpdate]
      trivial
  | ok f =>
      obtain ⟨hBuilt, hSpans⟩ := (h.mirrors g t hForest).spans_of_update (hSame ▸ hUpdate)
      apply ends_holdsNow_of_update hForest hGraph hResolve hUpdate ⟨hBuilt, hSame ▸ hSpans⟩
      intro b f' hAnswer hUpToDate _
      rw [hSame] at hAnswer hUpToDate
      exact hReturns b t f' hForest (fun _ => hUpToDate.spans) hAnswer

/-- A constraint that could be evaluated is told, and nothing is changed for the others. -/
theorem ends_evaluate_told (hp : p.WellFormed) (h : s.Evaluating p a)
    (hc : p.constraints[id]? = some c) :
    Ends (c.evaluate id) s (fun _ s' => s'.Evaluating p a ∧ s'.Told p a id c
      ∧ ∀ j, j ≠ id → (j ∈ s'.violated.toList ↔ j ∈ s.violated.toList)) fun _ _ => True := by
  cases c with
  | clause c =>
      rw [evaluate, ends_bind, ends_get, h.assignment, ends_bind]
      refine ends_of_any (fun count hCount => ?_) fun _ _ => trivial
      have hRead := Clause.lt_of_countTrue hCount
      have hTrue := Clause.countTrue_eq (hp.short_clause hc) hRead
      obtain rfl := Except.ok.inj (hTrue.symm.trans hCount)
      rw [ends_bind]
      refine ends_changeMarks_any fun m => ?_
      refine ends_record_told h.setMarks hc rfl (fun k hk => ?_) Clause.accepts_iff
      rwa [← Constraint.clause.inj hk]
  | graph g demand =>
      rw [evaluate, ends_bind]
      refine ends_holdsNow_any hp h hc fun b t f hForest hMirrors hAnswer => ?_
      have hEvaluating := h.setForest hForest hMirrors
      have hRecord : ∀ s', s'.Evaluating p a → s'.violated = s.violated →
          Ends (record id b) s' (fun _ s'' => s''.Evaluating p a ∧ s''.Told p a id (graph g demand)
            ∧ ∀ j, j ≠ id → (j ∈ s''.violated.toList ↔ j ∈ s.violated.toList)) fun _ _ => True :=
        fun s' hNow hSame => ends_record_told hNow hc hSame (by simp) hAnswer
      cases demand with
      | whole => exact hRecord _ hEvaluating rfl
      | pieces count => exact hRecord _ hEvaluating rfl
      | sides left right => exact hRecord _ hEvaluating rfl
      | pair source target =>
          show Ends (if b = true then do keepShortestPath id g source target; record id b
            else do changeMarks id fun m => { m with path := [] }; record id b) _ _ _
          refine ends_ite (fun _ => ?_) fun _ => ?_
          · rw [ends_bind]
            exact ends_keepShortestPath_any fun m => hRecord _ hEvaluating.setMarks rfl
          · rw [ends_bind]
            exact ends_changeMarks_any fun m => hRecord _ hEvaluating.setMarks rfl

/-- A constraint that is reset leaves no forest built of its graph. -/
theorem ends_reset_any (h : s.Evaluating p a) (id : Nat) (c : Constraint) :
    Ends (c.reset id) s (fun _ s' => s'.Evaluating p a) fun _ _ => True := by
  cases c with
  | clause c => exact h
  | graph g demand =>
      show Ends (invalidate g >>= _) s _ _
      rw [invalidate, tracked, ends_bind, ends_bind, ends_bind, ends_get]
      refine ends_of_any (fun t hForest => ?_) fun _ _ => trivial
      have hStale : (s.setForest g t.invalidate).Evaluating p a :=
        h.setForest (entryAt_eq_ok_iff.mp hForest) (Forest.mirrors_of_stale rfl)
      cases demand with
      | whole => exact hStale
      | pieces count => exact hStale
      | sides left right => exact hStale
      | pair source target => exact ends_changeMarks_any fun m => hStale.setMarks

end Constraint

namespace Problem

/-- After an evaluation that could be made, everything is told of every constraint. -/
theorem ends_evaluateAll_told (hp : p.WellFormed) (h : s.Evaluating p a) :
    Ends p.evaluateAll s (fun _ s' => ∀ id c, p.constraints[id]? = some c → s'.Told p a id c)
      fun _ _ => True := by
  have hReset : Ends (p.constraintIds.forM fun id => do (← Search.of (p.constraint id)).reset id) s
      (fun _ s' => s'.Evaluating p a) fun _ _ => True := by
    refine ends_each _ (fun _ _ s' => s'.Evaluating p a) (fun _ id _ s' hNow => ?_) _ [] s h
    rw [ends_bind]
    exact ends_of_any (fun c _ => Constraint.ends_reset_any hNow id c) fun _ _ => trivial
  have hEach : ∀ s', s'.Evaluating p a →
      Ends (p.constraintIds.forM fun id => do (← Search.of (p.constraint id)).evaluate id) s'
        (fun _ s'' => s''.Evaluating p a
          ∧ ∀ id ∈ p.constraintIds.reverse ++ [], ∀ c, p.constraints[id]? = some c →
            s''.Told p a id c) fun _ _ => True := by
    intro s' hStart
    refine ends_each _ (fun done _ s'' => s''.Evaluating p a
      ∧ ∀ id ∈ done, ∀ c, p.constraints[id]? = some c → s''.Told p a id c) ?_ _ [] s'
      ⟨hStart, by simp⟩
    rintro done id _ s₁ ⟨hNow, hDone⟩
    rw [ends_bind]
    refine ends_of_any (fun c hc => ?_) fun _ _ => trivial
    have hc : p.constraints[id]? = some c := entryAt_eq_ok_iff.mp hc
    refine (Constraint.ends_evaluate_told hp hNow hc).mono ?_ fun _ _ _ => trivial
    rintro _ s₂ ⟨hAfter, hTold, hOther⟩
    refine ⟨hAfter, fun j hj c' hcj => ?_⟩
    by_cases hSame : j = id
    · subst hSame
      rw [hc] at hcj
      exact Option.some.inj hcj ▸ hTold
    · have hOld := hDone j ((List.mem_cons.mp hj).resolve_left hSame) c' hcj
      exact ⟨hOld.read, (hOther j hSame).trans hOld.violated⟩
  rw [evaluateAll]
  refine Ends.andThen hReset fun _ s' hNow => (hEach s' hNow).mono ?_ fun _ _ _ => trivial
  rintro _ s'' ⟨_, hTold⟩ id c hc
  exact hTold id (by simpa using mem_constraintIds hc) c hc

/-- A report that could be made lists exactly the constraints that do not hold, and the
literals of every clause were all read for it. -/
theorem told_of_violatedBy {ids : List Nat} (hp : p.WellFormed)
    (hReport : p.violatedBy a = .ok ids) (hc : p.constraints[id]? = some c) :
    (∀ k, c = .clause k → ∀ l ∈ k.literals, l.proposition < a.values.size)
      ∧ (id ∈ ids ↔ ¬ c.Holds p.graphs a) := by
  rw [violatedBy, stateOf] at hReport
  cases hRun : p.evaluateAll { State.new p (.seeded 0) with assignment := a } with
  | error fault s =>
      rw [hRun] at hReport
      cases hReport
  | ok _ s =>
      rw [hRun] at hReport
      obtain rfl := Except.ok.inj hReport
      have hTold := (ends_evaluateAll_told hp (Evaluating.new p _ a)).of_ok hRun id c hc
      exact ⟨hTold.read, List.mem_mergeSort.trans hTold.violated⟩

end Problem
end LocalRepair
