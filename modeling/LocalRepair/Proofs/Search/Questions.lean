import LocalRepair.Pick
import LocalRepair.Proofs.Search.Evaluation

/-!
# Questions do not change a search

What a flip would do, and whether a constraint holds, is asked of the record. All
such questions are steps of a search and may fail, but where the record is right
they change nothing that matters: every forest that is asked is built, so it is
not rebuilt, and at most some of its parents are redirected.

`Inquires x s outcome` says that a question comes to an outcome at a state, and
to the same outcome after any other questions, and that it leaves the state with
redirected parents at most. A refused question is a question as well.

## Main results

* `Tracks.redirected`: redirected parents leave a record right.
* `inquires_holdsNow`, `inquires_risk`: the questions about one constraint.
* `exists_inquires_netRisk`, `exists_inquires_favours`: those that picks ask.
-/

namespace LocalRepair

open Search State

variable {α β : Type} {p : Problem} {s s' s'' : State} {id g v : Nat} {c : Constraint}
  {t t' t'' : TrackedGraph} {a : Assignment} {demand : Connectivity Nat}

/-! ## Redirected parents -/

/-- The same graph, with a forest whose parents may have been redirected. -/
inductive TrackedGraph.Redirected : TrackedGraph → TrackedGraph → Prop where
  | same (t : TrackedGraph) : Redirected t t
  | parents {g : Graph} {f f' : Forest g} (h : Forest.Redirected f f') : Redirected ⟨g, f⟩ ⟨g, f'⟩

namespace TrackedGraph.Redirected

theorem trans (h : t.Redirected t') (k : t'.Redirected t'') : t.Redirected t'' := by
  cases h with
  | same => exact k
  | parents h =>
      cases k with
      | same => exact .parents h
      | parents k => exact .parents (h.trans k)

theorem graph (h : t.Redirected t') : t'.graph = t.graph := by
  cases h <;> rfl

theorem upToDate (h : t.Redirected t') (k : t.UpToDate a) : t'.UpToDate a := by
  cases h with
  | same => exact k
  | parents h => exact ⟨h.built.trans k.built, k.spans.redirected h⟩

/-- A forest that is right is redirected as a forest of the same graph. -/
theorem exists_forest (h : t.Redirected t') (k : t.UpToDate a) :
    ∃ f, t' = ⟨t.graph, f⟩ ∧ Forest.Redirected t.forest f := by
  cases h with
  | same => exact ⟨t.forest, rfl, .refl k.spans.ranked⟩
  | parents h => exact ⟨_, rfl, h⟩

end TrackedGraph.Redirected

namespace State

/-- The second state differs from the first in the parents of its forests only,
and no root notices. -/
structure Redirected (s s' : State) : Prop where
  onlyForests : s' = { s with forests := s'.forests }
  size : s'.forests.size = s.forests.size
  forests : ∀ (g : Nat) (t : TrackedGraph), s.forests[g]? = some t →
    ∃ t', s'.forests[g]? = some t' ∧ t.Redirected t'

namespace Redirected

theorem refl (s : State) : Redirected s s :=
  ⟨rfl, rfl, fun _ t h => ⟨t, h, .same t⟩⟩

theorem trans (h : Redirected s s') (k : Redirected s' s'') : Redirected s s'' := by
  refine ⟨by rw [k.onlyForests, h.onlyForests], k.size.trans h.size, fun g t hForest => ?_⟩
  obtain ⟨t', hForest', hFirst⟩ := h.forests g t hForest
  obtain ⟨t'', hForest'', hSecond⟩ := k.forests g t' hForest'
  exact ⟨t'', hForest'', hFirst.trans hSecond⟩

theorem assignment (h : Redirected s s') : s'.assignment = s.assignment := by
  rw [h.onlyForests]

theorem violated (h : Redirected s s') : s'.violated = s.violated := by
  rw [h.onlyForests]

theorem marks (h : Redirected s s') : s'.marks = s.marks := by
  rw [h.onlyForests]

/-- Redirecting the parents of one forest. -/
theorem setForest (hForest : s.forests[g]? = some t) (h : t.Redirected t') :
    Redirected s (s.setForest g t') := by
  refine ⟨rfl, by simp [State.setForest], fun j u hu => ?_⟩
  by_cases hj : j = g
  · subst hj
    rw [hForest] at hu
    obtain rfl := Option.some.inj hu
    exact ⟨t', getElem?_setForest_self hForest, h⟩
  · exact ⟨u, (getElem?_setForest_other hj).trans hu, .same u⟩

theorem follows (h : Redirected s s') (k : s.Follows g a) : s'.Follows g a := by
  obtain ⟨t, hForest, hUpToDate⟩ := k
  obtain ⟨t', hForest', hRedirected⟩ := h.forests g t hForest
  exact ⟨t', hForest', hRedirected.upToDate hUpToDate⟩

end Redirected

theorem Shaped.redirected (h : s.Shaped p) (k : Redirected s s') : s'.Shaped p := by
  refine ⟨k.assignment ▸ h.assignment, k.violated ▸ h.violated, k.marks ▸ h.marks, ?_⟩
  refine Eq.trans (Array.ext_getElem? fun g => ?_) h.graphs
  rw [Array.getElem?_map, Array.getElem?_map]
  cases hForest : s.forests[g]? with
  | some t =>
      obtain ⟨t', hForest', hRedirected⟩ := k.forests g t hForest
      rw [hForest', Option.map_some, Option.map_some, hRedirected.graph]
  | none =>
      have hEnd := Array.getElem?_eq_none_iff.mp hForest
      rw [← k.size] at hEnd
      rw [Array.getElem?_eq_none hEnd]

/-- Redirected parents leave a record right. -/
theorem Tracks.redirected (h : s.Tracks p) (k : Redirected s s') : s'.Tracks p := by
  refine ⟨h.toShaped.redirected k, fun id c hc => ?_⟩
  have hSettled := h.settled id c hc
  rw [k.assignment]
  exact
    { violated := k.violated ▸ hSettled.violated
      counted := k.marks ▸ hSettled.counted
      routed := k.marks ▸ hSettled.routed
      follows := fun g demand hEq => k.follows (hSettled.follows g demand hEq) }

end State

/-! ## Questions and outcomes -/

/-- The question comes to this outcome, whatever questions came before, and
redirects parents at most. -/
def Inquires (x : Search α) (s : State) (outcome : Except Fault α) : Prop :=
  ∀ s', Redirected s s' → Ends x s' (fun a s'' => outcome = .ok a ∧ Redirected s s'')
    fun e s'' => outcome = .error e ∧ Redirected s s''

namespace Inquires

theorem pure (s : State) (a : α) : Inquires (Pure.pure a : Search α) s (.ok a) :=
  fun _ h => ⟨rfl, h⟩

theorem of (s : State) (outcome : Except Fault α) : Inquires (Search.of outcome) s outcome := by
  intro s' h
  cases outcome with
  | ok a => exact ⟨rfl, h⟩
  | error e => exact ⟨rfl, h⟩

/-- The second question comes to its outcome as if the first had not been asked.
-/
theorem bind {x : Search α} {next : α → Search β} {a : α} {outcome : Except Fault β}
    (hx : Inquires x s (.ok a)) (hNext : Inquires (next a) s outcome) :
    Inquires (x >>= next) s outcome := by
  intro s' h
  rw [ends_bind]
  refine (hx s' h).mono ?_ ?_
  · rintro b s'' ⟨hSame, hRedirected⟩
    rw [← Except.ok.inj hSame]
    exact hNext s'' hRedirected
  · rintro e s'' ⟨hFail, _⟩
    cases hFail

/-- After a refusal there are no further questions. -/
theorem bind_error {x : Search α} {next : α → Search β} {e : Fault}
    (hx : Inquires x s (.error e)) : Inquires (x >>= next) s (.error e) := by
  intro s' h
  rw [ends_bind]
  refine (hx s' h).mono ?_ ?_
  · rintro b s'' ⟨hSame, _⟩
    cases hSame
  · rintro e' s'' ⟨hFail, hRedirected⟩
    rw [Except.error.inj hFail]
    exact ⟨rfl, hRedirected⟩

/-- If both questions come to an outcome, so does one after the other. -/
theorem exists_bind {x : Search α} {next : α → Search β} (hx : ∃ o, Inquires x s o)
    (hNext : ∀ a, ∃ o, Inquires (next a) s o) : ∃ o, Inquires (x >>= next) s o := by
  obtain ⟨o, ho⟩ := hx
  cases o with
  | ok a =>
      obtain ⟨o', ho'⟩ := hNext a
      exact ⟨o', ho.bind ho'⟩
  | error e => exact ⟨.error e, ho.bind_error⟩

/-- A question that looks at the state may see redirected parents. -/
theorem get {next : State → Search β} {outcome : Except Fault β}
    (h : ∀ s', Redirected s s' → Inquires (next s') s outcome) :
    Inquires (MonadState.get >>= next) s outcome :=
  fun s' hs' => h s' hs' s' hs'

/-- What a question leaves behind, whatever it comes to. -/
theorem ends {x : Search α} {outcome : Except Fault α} (h : Inquires x s outcome) :
    Ends x s (fun a s' => outcome = .ok a ∧ Redirected s s') fun _ s' => Redirected s s' :=
  (h s (.refl s)).mono (fun _ _ h => h) fun _ _ h => h.2

/-- A question that is answered does not fail. -/
theorem ends_ok {x : Search α} {a : α} (h : Inquires x s (.ok a)) :
    Ends x s (fun b s' => b = a ∧ Redirected s s') Never := by
  refine (h s (.refl s)).mono ?_ ?_
  · rintro b s' ⟨hSame, hRedirected⟩
    exact ⟨(Except.ok.inj hSame).symm, hRedirected⟩
  · rintro e s' ⟨hFail, _⟩
    cases hFail

/-- Questions that come to an outcome wherever a record is right keep it right.
-/
theorem keeps {x : Search α} (h : ∀ s, s.Tracks p → ∃ o, Inquires x s o) :
    Keeps x fun s => s.Tracks p ∧ s.assignment = a := by
  rintro s ⟨hTracks, hSame⟩
  obtain ⟨o, ho⟩ := h s hTracks
  have hKeep : ∀ s', Redirected s s' → s'.Tracks p ∧ s'.assignment = a :=
    fun s' hs' => ⟨hTracks.redirected hs', hs'.assignment.trans hSame⟩
  exact ho.ends.mono (fun _ s' hs' => hKeep s' hs'.2) fun _ s' hs' => hKeep s' hs'

end Inquires

theorem inquires_value (v : Nat) : Inquires (value v) s (s.assignment.value v) := by
  apply Inquires.get
  intro s' hs'
  rw [hs'.assignment]
  exact .of s _

theorem inquires_marksOf (id : Nat) : Inquires (marksOf id) s (entryAt s.marks id) := by
  apply Inquires.get
  intro s' hs'
  rw [hs'.marks]
  exact .of s _

theorem inquires_entry {m : Marks} (h : s.marks[id]? = some m) :
    Inquires (marksOf id) s (.ok m) := by
  rw [← entryAt_eq_ok_iff.mpr h]
  exact inquires_marksOf id

/-- A forest that is up to date is found again, still up to date, after any
questions. -/
theorem State.Redirected.exists_built (hs' : Redirected s s') (hForest : s.forests[g]? = some t)
    (hUpToDate : t.UpToDate s.assignment) :
    ∃ f, s'.forests[g]? = some ⟨t.graph, f⟩ ∧ Forest.Redirected t.forest f
      ∧ f.bringUpToDate s'.assignment = .ok f := by
  obtain ⟨t', hForest', hRedirected⟩ := hs'.forests g t hForest
  obtain ⟨f, rfl, hParents⟩ := hRedirected.exists_forest hUpToDate
  exact ⟨f, hForest', hParents, if_pos (hParents.built.trans hUpToDate.built)⟩

/-- A question to a forest that is up to date. -/
theorem inquires_askForest {query : (g : Graph) → Except Fault (Forest.Query g α)}
    {q : Forest.Query t.graph α} {answer : α} (hForest : s.forests[g]? = some t)
    (hUpToDate : t.UpToDate s.assignment) (hQuery : query t.graph = .ok q)
    (hAsks : Forest.Asks q t.forest answer) : Inquires (askForest g query) s (.ok answer) := by
  intro s' hs'
  obtain ⟨f, hForest', hParents, hUpdate⟩ := hs'.exists_built hForest hUpToDate
  obtain ⟨hAnswer, hAfter⟩ := hAsks f hParents
  refine ends_askForest hForest' hUpdate hQuery ⟨by rw [hAnswer], hs'.trans ?_⟩
  exact .setForest hForest' (.parents hAfter)

/-- A question about an edge to a forest that is up to date. -/
theorem inquires_askEdge_some
    {query : (g : Graph) → g.EdgeId → Except Fault (Forest.Query g α)} {e : t.graph.EdgeId}
    {q : Forest.Query t.graph α} {answer : α} (hForest : s.forests[g]? = some t)
    (hUpToDate : t.UpToDate s.assignment) (hEdge : t.graph.edgeBackedBy? v = some e)
    (hQuery : query t.graph e = .ok q) (hAsks : Forest.Asks q t.forest answer) :
    Inquires (askEdge g v query) s (.ok (some answer)) := by
  intro s' hs'
  obtain ⟨f, hForest', hParents, hUpdate⟩ := hs'.exists_built hForest hUpToDate
  obtain ⟨hAnswer, hAfter⟩ := hAsks f hParents
  refine ends_askEdge_some hForest' hEdge hUpdate hQuery ⟨by rw [hAnswer], hs'.trans ?_⟩
  exact .setForest hForest' (.parents hAfter)

theorem inquires_askEdge_none
    {query : (g : Graph) → g.EdgeId → Except Fault (Forest.Query g α)}
    (hForest : s.forests[g]? = some t) (hEdge : t.graph.edgeBackedBy? v = none) :
    Inquires (askEdge g v query) s (.ok none) := by
  intro s' hs'
  obtain ⟨t', hForest', hRedirected⟩ := hs'.forests g t hForest
  have hEdge' : t'.graph.edgeBackedBy? v = none := by
    cases hRedirected with
    | same => exact hEdge
    | parents _ => exact hEdge
  exact ends_askEdge_none hForest' hEdge' ⟨rfl, hs'⟩

/-! ## Questions about a constraint -/

namespace Constraint

/-- What a search that tracks a problem finds for a demand. -/
theorem exists_upToDate (hp : p.WellFormed) (h : s.Tracks p)
    (hc : p.constraints[id]? = some (.graph g demand)) :
    ∃ t d, s.forests[g]? = some t ∧ p.graphs[g]? = some t.graph
      ∧ demand.resolve t.graph = .ok d ∧ t.UpToDate s.assignment := by
  obtain ⟨t, d, hForest, hGraph, hResolve⟩ := h.lookup hp hc
  have hUpToDate := ((h.settled id _ hc).follows g demand rfl).upToDate hForest
  exact ⟨t, d, hForest, hGraph, hResolve, hUpToDate⟩

/-- Whether a constraint holds is answered with its meaning. -/
theorem inquires_holdsNow (hp : p.WellFormed) (h : s.Tracks p)
    (hc : p.constraints[id]? = some c) :
    ∃ b, (b = true ↔ c.Holds p.graphs s.assignment) ∧ Inquires (c.holdsNow id) s (.ok b) := by
  cases c with
  | clause c =>
      obtain ⟨m, hMarks⟩ := h.exists_marks hc
      refine ⟨c.accepts m.trueLiterals, ?_, ?_⟩
      · rw [(h.settled id _ hc).counted c rfl m hMarks]
        exact Clause.accepts_iff
      · exact (inquires_entry hMarks).bind (.pure s _)
  | graph g demand =>
      obtain ⟨t, d, hForest, hGraph, hResolve, hUpToDate⟩ := exists_upToDate hp h hc
      obtain ⟨answer, hAsks, hAnswer⟩ := Connectivity.asks_isMet hUpToDate.spans d
      refine ⟨answer, ?_, ?_⟩
      · rw [hAnswer, holds_graph_iff hGraph hResolve]
      · rw [holdsNow]
        refine inquires_askForest hForest hUpToDate (?_ : _ = Except.ok d.isMet) hAsks
        rw [hResolve]
        rfl

end Constraint

namespace Connectivity

/-- The estimate for an edge that appears or disappears, read off the roots. -/
def estimate {gr : Graph} (f : Forest gr) (e : gr.EdgeId) (appears onPath : Bool)
    (demand : Connectivity gr.Vertex) : Int :=
  if appears then adding f e demand else removing f e onPath demand

theorem asks_risk {gr : Graph} {f : Forest gr} (e : gr.EdgeId) (appears onPath : Bool)
    (demand : Connectivity gr.Vertex) :
    Forest.Asks (demand.risk e appears onPath) f (estimate f e appears onPath demand) := by
  cases appears with
  | true => exact asks_riskOfAdding e demand
  | false => exact asks_riskOfRemoving e onPath demand

end Connectivity

namespace Constraint

theorem inquires_risk_clause {k : Clause} (h : s.Tracks p)
    (hc : p.constraints[id]? = some (.clause k)) (v : Nat) (value : Bool) :
    Inquires ((clause k).risk id v value) s
      (.ok (k.risk (k.truePositions s.assignment) v value)) := by
  obtain ⟨m, hMarks⟩ := h.exists_marks hc
  rw [← (h.settled id _ hc).counted k rfl m hMarks]
  exact (inquires_entry hMarks).bind (.pure s _)

theorem inquires_risk_graph {d : Connectivity t.graph.Vertex} {m : Marks}
    (hMarks : s.marks[id]? = some m) (hForest : s.forests[g]? = some t)
    (hResolve : demand.resolve t.graph = .ok d) (hUpToDate : t.UpToDate s.assignment) (v : Nat)
    (value : Bool) :
    Inquires ((graph g demand).risk id v value) s
      (.ok ((t.graph.edgeBackedBy? v).map fun e =>
        Connectivity.estimate t.forest e value (m.path.contains e.val) d)) := by
  apply (inquires_entry hMarks).bind
  cases hEdge : t.graph.edgeBackedBy? v with
  | none => exact inquires_askEdge_none hForest hEdge
  | some e =>
      refine inquires_askEdge_some hForest hUpToDate hEdge
        (?_ : _ = Except.ok (d.risk e value (m.path.contains e.val)))
        (Connectivity.asks_risk e value (m.path.contains e.val) d)
      rw [hResolve]
      rfl

/-- For every edge of the graph that a demand is put on there is an estimate, both of its
appearing and of its disappearing. It is read off a forest that is right. -/
theorem exists_estimate {gr : Graph} (hp : p.WellFormed) (h : s.Tracks p)
    (hc : p.constraints[id]? = some (.graph g demand)) (hGraph : p.graphs[g]? = some gr)
    (e : gr.EdgeId) :
    ∃ (f : Forest gr) (d : Connectivity gr.Vertex) (onPath : Bool),
      (f.Spans fun d => gr.presentIn s.assignment d = true) ∧ demand.resolve gr = .ok d
      ∧ ∀ appears, Inquires ((graph g demand).risk id (gr.edge e).proposition appears) s
          (.ok (some (Connectivity.estimate f e appears onPath d))) := by
  obtain ⟨m, hMarks⟩ := h.exists_marks hc
  obtain ⟨t, d, hForest, hKept, hResolve, hUpToDate⟩ := exists_upToDate hp h hc
  obtain rfl : gr = t.graph := Option.some.inj (hGraph.symm.trans hKept)
  refine ⟨t.forest, d, m.path.contains e.val, hUpToDate.spans, hResolve, fun appears => ?_⟩
  have hRisk :=
    inquires_risk_graph hMarks hForest hResolve hUpToDate (t.graph.edge e).proposition appears
  rw [Graph.edgeBackedBy?_eq_some_iff.mpr rfl, Option.map_some] at hRisk
  exact hRisk

/-- The estimate for a constraint is an answer. -/
theorem inquires_risk (hp : p.WellFormed) (h : s.Tracks p) (hc : p.constraints[id]? = some c)
    (v : Nat) (value : Bool) : ∃ risk, Inquires (c.risk id v value) s (.ok risk) := by
  cases c with
  | clause k => exact ⟨_, inquires_risk_clause h hc v value⟩
  | graph g demand =>
      obtain ⟨m, hMarks⟩ := h.exists_marks hc
      obtain ⟨t, d, hForest, _, hResolve, hUpToDate⟩ := exists_upToDate hp h hc
      exact ⟨_, inquires_risk_graph hMarks hForest hResolve hUpToDate v value⟩

/-- Whether a flip is favoured is answered, or refused for a number out of range.
-/
theorem exists_inquires_favours (hp : p.WellFormed) (h : s.Tracks p)
    (hc : p.constraints[id]? = some c) (v : Nat) : ∃ o, Inquires (c.favours id v) s o := by
  cases c with
  | clause k =>
      apply Inquires.exists_bind ⟨_, inquires_marksOf id⟩
      intro m
      exact Inquires.exists_bind ⟨_, inquires_value v⟩ fun b => ⟨_, .pure s _⟩
  | graph g demand =>
      apply Inquires.exists_bind ⟨_, inquires_value v⟩
      intro b
      obtain ⟨risk, hRisk⟩ := inquires_risk hp h hc v (!b)
      cases risk with
      | none => exact ⟨_, hRisk.bind (.pure s false)⟩
      | some risk => exact ⟨_, hRisk.bind (.pure s (decide (risk < 0)))⟩

end Constraint

namespace Problem

theorem exists_inquires_sumRisks (hp : p.WellFormed) (h : s.Tracks p) (v : Nat) (value : Bool) :
    ∀ (ids : List Nat) (sum : Int), ∃ o, Inquires (p.sumRisks v value ids sum) s o := by
  intro ids
  induction ids with
  | nil => exact fun sum => ⟨_, .pure s sum⟩
  | cons id ids ih =>
      intro sum
      rw [sumRisks]
      cases hc : p.constraint id with
      | error e => exact ⟨.error e, (Inquires.of s (.error e)).bind_error⟩
      | ok c =>
          obtain ⟨risk, hRisk⟩ :=
            c.inquires_risk hp h (entryAt_eq_ok_iff.mp hc) v value
          obtain ⟨o, ho⟩ := ih (sum + risk.getD 0)
          exact ⟨o, (Inquires.of s (.ok c)).bind (hRisk.bind ho)⟩

/-- The net effect of a flip is answered, or refused for a number out of range.
-/
theorem exists_inquires_netRisk (hp : p.WellFormed) (h : s.Tracks p) (v : Nat) (value : Bool) :
    ∃ o, Inquires (p.netRisk v value) s o :=
  Inquires.exists_bind ⟨_, .of s _⟩ fun ids => exists_inquires_sumRisks hp h v value ids 0

end Problem
end LocalRepair
