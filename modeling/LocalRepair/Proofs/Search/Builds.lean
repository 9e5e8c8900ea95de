import LocalRepair.Proofs.Forest.Builds
import LocalRepair.Proofs.Search.Reached

/-!
# One build for every forest edge that is lost

All demands on a graph share its forest, and during a flip each of them tells the forest
what became of the edge and asks it right away. The first of them finds the forest as the
last flip left it. If a forest edge is gone it makes the forest stale, and the question
that follows builds it anew. The others find a forest without the edge, which has nothing
to lose. So however many demands there are, a forest is built at most once in a flip, and
only if it lost an edge.

The number of builds that are due carries the argument. Questions keep it, and so does
keeping track of constraints as a whole; only telling of a lost edge adds to it.

## Main results

* `upheld_due`: what is due is kept by keeping track.
* `Walk.ends_flip_builds`: how often a flip builds a forest.
* `one_build_per_lost_edge`: how often forests are built.
-/

namespace LocalRepair

open Search State

variable {p : Problem} {s s' : State} {id g v n : Nat} {c : Constraint} {t : TrackedGraph}
  {demand : Connectivity Nat} {on : Nat → Prop}

/-- A property of the forests is upheld if asking whether demands are met keeps it. -/
theorem upheld_forests {P : Array TrackedGraph → Prop}
    (h : ∀ g, on g → ∀ demand : Connectivity Nat,
      Keeps (askForest g fun gr => do return (← demand.resolve gr).isMet) fun s => P s.forests) :
    Upheld on (Diagonal fun s : State => P s.forests) :=
  { assignment := fun hR => by rw [hR.1]
    violated := fun hR => by rw [hR.1]
    marks := fun hR => by rw [hR.1]
    generator := fun hR => by rw [hR.1]
    setGenerator := fun _ hR => ⟨by rw [hR.1], hR.2⟩
    graphs := fun hR => by rw [hR.1]
    setMarks := fun _ _ hR => ⟨by rw [hR.1], hR.2⟩
    setViolated := fun hR _ => ⟨by rw [hR.1], hR.2⟩
    touch := fun _ _ hR => ⟨by rw [hR.1], hR.2⟩
    askMet := fun g hg demand => (h g hg demand).respects }

/-! ## Other forests -/

section Other

variable {α : Type} {j : Nat} (hj : j ≠ g) (x : Option TrackedGraph)
include hj

/-- What is done to one forest leaves the others as they are. -/
theorem keeps_askForest_other (query : (gr : Graph) → Except Fault (Forest.Query gr α)) :
    Keeps (askForest j query) fun s => s.forests[g]? = x := by
  intro s hs
  apply Stable.ends_tracked hs
  intro t _
  rw [ends_bind, ends_get, ends_bind]
  exact ends_of_any (fun _ _ => (getElem?_setForest_other hj.symm).trans hs) fun _ _ => hs

theorem keeps_noteFlip_other (v : Nat) (value : Bool) :
    Keeps (noteFlip j v value) fun s => s.forests[g]? = x := by
  intro s hs
  apply Stable.ends_tracked hs
  intro t _
  split
  · exact hs
  · exact (getElem?_setForest_other hj.symm).trans hs

theorem keeps_invalidate_other : Keeps (invalidate j) fun s => s.forests[g]? = x := by
  intro s hs
  exact Stable.ends_tracked hs fun t _ => (getElem?_setForest_other hj.symm).trans hs

end Other

/-- A forest is upheld by constraints that speak of other graphs. -/
theorem upheld_forest (g : Nat) (x : Option TrackedGraph) :
    Upheld (· ≠ g) (Diagonal fun s : State => s.forests[g]? = x) :=
  upheld_forests (P := fun forests => forests[g]? = x) fun _ hj _ => keeps_askForest_other hj x _

/-! ## Builds that are due -/

/-- How often the forest of a graph will have been built once it is up to date. -/
def State.Due (g n : Nat) (s : State) : Prop := ∃ t, s.forests[g]? = some t ∧ t.forest.due = n

/-- Asking a forest whether a demand is met leaves what is due. -/
theorem TrackedGraph.due_ask {t t' : TrackedGraph} {a : Assignment} {answer : Bool}
    (h : t.ask a (do return (← demand.resolve t.graph).isMet) = .ok (answer, t')) :
    t'.forest.due = t.forest.due := by
  unfold TrackedGraph.ask at h
  cases hUpdate : t.forest.bringUpToDate a with
  | error e =>
      rw [hUpdate] at h
      cases h
  | ok f =>
      rw [hUpdate] at h
      cases hResolve : demand.resolve t.graph with
      | error e =>
          rw [hResolve] at h
          cases h
      | ok d =>
          rw [hResolve] at h
          cases h
          exact (Forest.due_congr (d.keepsStamp_isMet f)).trans (Forest.due_bringUpToDate hUpdate)

/-- What is due for a forest is upheld. -/
theorem upheld_due (g n : Nat) : Upheld (fun _ => True) (Diagonal (State.Due g n)) := by
  apply upheld_forests (P := fun forests => ∃ t, forests[g]? = some t ∧ t.forest.due = n)
  rintro j _ demand s ⟨t, hForest, hDue⟩
  by_cases hj : j = g
  · subst hj
    apply Stable.ends_tracked ⟨t, hForest, hDue⟩
    intro t' hForest'
    obtain rfl := Option.some.inj (hForest.symm.trans hForest')
    rw [ends_bind, ends_get, ends_bind]
    refine ends_of_any (fun found hAsk => ?_) fun _ _ => ⟨t, hForest, hDue⟩
    exact ⟨_, getElem?_setForest_self hForest, (TrackedGraph.due_ask hAsk).trans hDue⟩
  · exact (keeps_askForest_other hj (some t) _ s hForest).mono (fun _ _ hEnd => ⟨t, hEnd, hDue⟩)
      fun _ _ hEnd => ⟨t, hEnd, hDue⟩

/-! ## One constraint is told -/

/-- Whether a forest loses an edge when a proposition takes a value. -/
def TrackedGraph.loses (t : TrackedGraph) (v : Nat) (value : Bool) : Bool :=
  match t.graph.edgeBackedBy? v with
  | some e => t.forest.contains e && !value
  | none => false

theorem TrackedGraph.loses_iff {value : Bool} : t.loses v value = true ↔
    ∃ e, (t.graph.edge e).proposition = v ∧ t.forest.contains e = true ∧ value = false := by
  unfold loses
  cases hEdge : t.graph.edgeBackedBy? v with
  | none =>
      rw [Graph.edgeBackedBy?_eq_none_iff, Graph.mem_propositions] at hEdge
      simpa using fun e he _ => absurd ⟨e, he⟩ hEdge
  | some e =>
      obtain rfl := Graph.edgeBackedBy?_eq_some_iff.mp hEdge
      simp only [Bool.and_eq_true, Bool.not_eq_true']
      constructor
      · exact fun h => ⟨e, rfl, h⟩
      · rintro ⟨d, hd, h⟩
        rwa [Graph.proposition_injective hd] at h

/-- Redirected parents do not change how often a forest was built. -/
theorem TrackedGraph.Redirected.builds {t t' : TrackedGraph} (h : t.Redirected t') :
    t'.forest.builds = t.forest.builds := by
  cases h with
  | same => rfl
  | parents h => rw [h.onlyParents]

theorem TrackedGraph.Redirected.loses {t t' : TrackedGraph} (h : t.Redirected t') (v : Nat)
    (value : Bool) : t'.loses v value = t.loses v value := by
  cases h with
  | same => rfl
  | @parents gr f f' h =>
      simp only [TrackedGraph.loses]
      cases gr.edgeBackedBy? v with
      | none => rfl
      | some e => exact congrArg (· && !value) (h.contains e)

/-- During a flip a forest is on one of two sides. Either no constraint told it of the
flip, and it was built with the edge, if it is a forest edge that is gone; or it is right
about the assignment at hand. In the end it will have been built `n` times. -/
inductive State.Sided (p : Problem) (old : Assignment) (v g n : Nat) (done : List Nat)
    (s : State) : Prop where
  | untold {t : TrackedGraph} (forest : s.forests[g]? = some t) (upToDate : t.UpToDate old)
      (builds : t.forest.builds + (t.loses v (s.assignment.isTrue v)).toNat = n)
      (others : ∀ id ∈ done, ∀ demand, p.constraints[id]? ≠ some (.graph g demand))
  | told {t : TrackedGraph} (forest : s.forests[g]? = some t)
      (upToDate : t.UpToDate s.assignment) (builds : t.forest.builds = n)

/-- Redirected parents leave a forest on its side. -/
theorem State.Sided.redirected {old : Assignment} {done : List Nat}
    (h : s.Sided p old v g n done) (k : State.Redirected s s') : s'.Sided p old v g n done := by
  cases h with
  | @untold t forest upToDate builds others =>
      obtain ⟨t', hForest', hParents⟩ := k.forests g t forest
      refine .untold hForest' (hParents.upToDate upToDate) ?_ others
      rw [k.assignment, hParents.builds, hParents.loses, builds]
  | @told t forest upToDate builds =>
      obtain ⟨t', hForest', hParents⟩ := k.forests g t forest
      refine .told hForest' ?_ (hParents.builds.trans builds)
      exact k.assignment.symm ▸ hParents.upToDate upToDate

/-- A forest that is told of a flip, for the first time or again, owes what it is to be
built in the end. -/
theorem State.Sided.ends_noteFlip {old : Assignment} {done : List Nat}
    (h : s.Sided p old v g n done) (hGraph : p.graphs[g]? = (s.forests[g]?).map TrackedGraph.graph)
    (hv : v ∈ p.propositionsOf (.graph g demand)) :
    Ends (noteFlip g v (s.assignment.isTrue v)) s (fun _ => State.Due g n)
      fun _ => State.Due g n := by
  have hEdges : ∀ t, s.forests[g]? = some t → ∃ e, t.graph.edgeBackedBy? v = some e := by
    intro t hForest
    rw [hForest] at hGraph
    apply Graph.exists_edgeBackedBy
    simpa [Problem.propositionsOf, Constraint.propositions, hGraph] using hv
  cases h with
  | @untold t forest upToDate builds others =>
      obtain ⟨e, hEdge⟩ := hEdges t forest
      refine Search.ends_noteFlip forest hEdge ⟨_, getElem?_setForest_self forest, ?_⟩
      rw [Forest.due_note, Forest.due_of_built upToDate.built, ← builds]
      simp [TrackedGraph.loses, hEdge, upToDate.built]
  | @told t forest upToDate builds =>
      obtain ⟨e, hEdge⟩ := hEdges t forest
      refine Search.ends_noteFlip forest hEdge ⟨_, getElem?_setForest_self forest, ?_⟩
      -- An edge that is gone is not in a forest that is right.
      have hKept : (t.forest.contains e && !s.assignment.isTrue v) = false := by
        by_contra hLost
        simp only [Bool.not_eq_false, Bool.and_eq_true, Bool.not_eq_true'] at hLost
        have hPresent := upToDate.spans.present_of_contains e hLost.1
        rw [Graph.presentIn, Graph.edgeBackedBy?_eq_some_iff.mp hEdge, hLost.2] at hPresent
        cases hPresent
      rw [Forest.due_note, Forest.due_of_built upToDate.built, builds, Bool.and_assoc, hKept]
      simp

namespace Walk

/-- If no demand speaks of a graph, all constraints speak of others. -/
theorem speaksOf_others (hNone : ∀ (id : Nat) (demand : Connectivity Nat),
      p.constraints[id]? ≠ some (.graph g demand)) :
    ∀ (id : Nat) (c : Constraint), p.constraints[id]? = some c → c.SpeaksOf (· ≠ g) := by
  rintro id c hc j demand rfl rfl
  exact hNone id demand hc

/-- Telling a constraint of a flip keeps what its graph's forest owes once it was told. -/
theorem ends_tell_due {value : Bool} (hc : p.constraints[id]? = some (.graph g demand))
    (hNote : Ends (noteFlip g v value) s (fun _ => State.Due g n) fun _ => State.Due g n) :
    Ends (tell p v value id) s (fun _ => State.Due g n) fun _ _ => True := by
  have hUpheld := upheld_due g n
  have hFollow : Ends ((Constraint.graph g demand).follow id v value) s
      (fun _ => State.Due g n) fun _ => State.Due g n :=
    (hUpheld.agree_follow_graph id trivial hNote.agree).ends
  rw [tell, ends_bind, isViolated, ends_bind, ends_get]
  refine ends_of_any (fun before _ => ?_) fun _ _ => trivial
  rw [ends_bind]
  apply ends_constraint hc
  refine Ends.andThen (hFollow.mono (fun _ _ hEnd => hEnd) fun _ _ _ => trivial) fun _ s' hDue => ?_
  exact ((hUpheld.respects_countMove id before).keeps s' hDue).mono (fun _ _ hEnd => hEnd)
    fun _ _ _ => trivial

/-- Telling a constraint of a flip leaves the forest of a graph on one of its sides. -/
theorem ends_tell_sided {old : Assignment} {done todo : List Nat} (hp : p.WellFormed)
    (hTelling : s.Telling p old v id c todo) (h : s.Sided p old v g n done) :
    Ends (tell p v (s.assignment.isTrue v) id) s (fun _ => State.Sided p old v g n (id :: done))
      fun _ _ => True := by
  have hSettled := ends_tell hp hTelling
  by_cases hOn : ∃ demand, c = .graph g demand
  · obtain ⟨demand, rfl⟩ := hOn
    have hGraph := hTelling.following.toShaped.getElem?_graphs g
    have hDue := ends_tell_due hTelling.stored (h.ends_noteFlip hGraph hTelling.mentions)
    refine (hSettled.and hDue).mono ?_ fun _ _ hFail => hFail.2
    rintro _ _ ⟨⟨s₂, hSettles, rfl⟩, t, hForest, hDue⟩
    rw [countMove_eq] at hForest
    have hUpToDate := (hSettles.settled.follows g demand rfl).upToDate hForest
    rw [countMove_eq]
    refine .told hForest ?_ ?_
    · exact hSettles.touched.assignment.symm ▸ hUpToDate
    · rw [← hDue, Forest.due_of_built hUpToDate.built]
  · have hSpeaks : ∀ c', p.constraints[id]? = some c' → c'.SpeaksOf (· ≠ g) := by
      rintro c' hc' j demand rfl rfl
      exact hOn ⟨demand, Option.some.inj (hTelling.stored.symm.trans hc')⟩
    have hKeeps := ((upheld_forest g (s.forests[g]?)).respects_tell v (s.assignment.isTrue v)
      hSpeaks fun j hj => (keeps_noteFlip_other hj _ v _).respects).keeps
    refine (hSettled.and (hKeeps s rfl)).mono ?_ fun _ _ _ => trivial
    rintro _ _ ⟨⟨s₂, hSettles, rfl⟩, hSame⟩
    have hAssignment : (countMove s s₂ id).assignment = s.assignment := by
      rw [countMove_eq]
      exact hSettles.touched.assignment
    cases h with
    | untold forest upToDate builds others =>
        refine .untold (hSame.trans forest) upToDate (hAssignment.symm ▸ builds) ?_
        intro j hj demand hcj
        rcases List.mem_cons.mp hj with rfl | hj
        · exact hOn ⟨demand, Option.some.inj (hTelling.stored.symm.trans hcj)⟩
        · exact others j hj demand hcj
    | told forest upToDate builds =>
        exact .told (hSame.trans forest) (hAssignment.symm ▸ upToDate) builds

/-! ## Flips -/

/-- A flip builds a forest that demands share once if it loses an edge, and not at all
otherwise. -/
theorem ends_flip_builds (hp : p.WellFormed) (h : s.Tracks p) (hv : v ≤ p.propositionCount)
    (hc : p.constraints[id]? = some (.graph g demand)) (hForest : s.forests[g]? = some t) :
    Ends (flip p v) s (fun _ s' => ∃ t', s'.forests[g]? = some t' ∧ t'.forest.built = true
      ∧ t'.forest.builds = t.forest.builds + (t.loses v (!s.assignment.isTrue v)).toNat) Never := by
  have hUpToDate := ((h.settled id _ hc).follows g demand rfl).upToDate hForest
  have hFlip := ends_flip_along (Q := State.Sided p s.assignment v g
    (t.forest.builds + (t.loses v (!s.assignment.isTrue v)).toNat)) hp h hv ?_
    (fun done id todo c s₁ hTelling hSided => ends_tell_sided hp hTelling hSided)
    (fun done s₁ s₂ hRedirected hSided => hSided.redirected hRedirected)
  · apply hFlip.weaken
    rintro _ s' ⟨⟨hTracks, _⟩, done, hDone, hSided⟩
    obtain ⟨t', hForest', hUpToDate'⟩ := (hTracks.settled id _ hc).follows g demand rfl
    cases hSided with
    | @told t₁ forest _ builds =>
        obtain rfl := Option.some.inj (forest.symm.trans hForest')
        exact ⟨t₁, forest, hUpToDate'.built, builds⟩
    | @untold t₁ forest _ builds others =>
        obtain rfl := Option.some.inj (forest.symm.trans hForest')
        refine ⟨t₁, forest, hUpToDate'.built, ?_⟩
        -- The demand at hand was not told, so the proposition backs no edge of its graph.
        have hBacksNone : t₁.graph.edgeBackedBy? v = none := by
          rw [Graph.edgeBackedBy?_eq_none_iff]
          intro hBacks
          have hGraph := hTracks.getElem?_graphs g
          rw [forest] at hGraph
          have hMentions : v ∈ p.propositionsOf (.graph g demand) := by
            simpa [Problem.propositionsOf, Constraint.propositions, hGraph] using hBacks
          exact others id ((hDone id).mpr ⟨_, hc, hMentions⟩) demand hc
        simpa [TrackedGraph.loses, hBacksNone] using builds
  · intro a hFlipped
    refine .untold hForest hUpToDate ?_ (by simp)
    show _ + (t.loses v (a.isTrue v)).toNat = _
    rw [hFlipped.self]

/-- A flip leaves a forest alone that no demand speaks of. -/
theorem keeps_flip_forest (hNone : ∀ (id : Nat) (demand : Connectivity Nat),
      p.constraints[id]? ≠ some (.graph g demand)) (v : Nat) (x : Option TrackedGraph) :
    Keeps (flip p v) fun s => s.forests[g]? = x := by
  have hTurn : Keeps (turnOver v) fun s => s.forests[g]? = x := by
    intro s hs
    rw [turnOver, ends_bind, ends_get, ends_bind]
    exact ends_of_any (fun _ _ => hs) fun _ _ => hs
  apply hTurn.bind
  intro value
  exact ((upheld_forest g x).respects_tellAll (speaksOf_others hNone) v value fun j hj =>
    (keeps_noteFlip_other hj x v value).respects).keeps

end Walk

/-! ## Evaluations -/

/-- A demand that is reset makes the forest of its graph stale. -/
theorem Constraint.ends_reset_own (id : Nat) (hForest : s.forests[g]? = some t) :
    Ends ((graph g demand).reset id) s (fun _ s' => s'.forests[g]? = some t.invalidate)
      fun _ _ => True := by
  have hRest := ((upheld_forest g (some t.invalidate)).respects_dropPath id demand).keeps
  show Ends (invalidate g >>= _) s _ _
  rw [ends_bind]
  apply ends_invalidate hForest
  exact (hRest _ (getElem?_setForest_self hForest)).mono (fun _ _ hEnd => hEnd) fun _ _ _ => trivial

namespace Problem

/-- While constraints are reset, a forest becomes stale with the first of its demands. -/
theorem ends_reset_forest {done : List Nat} (j : Nat)
    (hc : p.constraints[id]? = some (.graph g demand))
    (h : s.forests[g]? = some t.invalidate ∨ id ∉ done ∧ s.forests[g]? = some t) :
    Ends (do (← Search.of (p.constraint j)).reset j) s (fun _ s' =>
        s'.forests[g]? = some t.invalidate ∨ id ∉ j :: done ∧ s'.forests[g]? = some t)
      fun _ _ => True := by
  rw [ends_bind]
  refine ends_of_any (fun c hLookup => ?_) fun _ _ => trivial
  have hcj := entryAt_eq_ok_iff.mp hLookup
  by_cases hOn : ∃ demand, c = .graph g demand
  · obtain ⟨demand, rfl⟩ := hOn
    have hStale : Ends ((Constraint.graph g demand).reset j) s
        (fun _ s' => s'.forests[g]? = some t.invalidate) fun _ _ => True := by
      rcases h with hStale | ⟨_, hSame⟩
      · show Ends _ s (fun _ s' => s'.forests[g]? = some t.invalidate.invalidate) _
        exact Constraint.ends_reset_own j hStale
      · exact Constraint.ends_reset_own j hSame
    exact hStale.mono (fun _ _ hEnd => Or.inl hEnd) fun _ _ _ => trivial
  · have hSpeaks : c.SpeaksOf (· ≠ g) := by
      rintro i demand hEq rfl
      exact hOn ⟨demand, hEq⟩
    have hKeeps := ((upheld_forest g (s.forests[g]?)).respects_reset j hSpeaks fun i hi =>
      (keeps_invalidate_other hi _).respects).keeps
    refine (hKeeps s rfl).mono (fun _ s₂ hEnd => ?_) fun _ _ _ => trivial
    rw [hEnd]
    refine h.imp_right fun h => ⟨fun hMem => ?_, h.2⟩
    rcases List.mem_cons.mp hMem with rfl | hMem
    · exact hOn ⟨_, Option.some.inj (hcj.symm.trans hc)⟩
    · exact h.1 hMem

/-- After all constraints were reset, a forest that some demand speaks of is stale, and
was built as often as before. -/
theorem ends_resetAll_forest (hc : p.constraints[id]? = some (.graph g demand))
    (hForest : s.forests[g]? = some t) :
    Ends (p.constraintIds.forM fun id => do (← Search.of (p.constraint id)).reset id) s
      (fun _ s' => s'.forests[g]? = some t.invalidate) fun _ _ => True := by
  refine Ends.mono (ends_each _ (fun done _ s' => s'.forests[g]? = some t.invalidate
      ∨ id ∉ done ∧ s'.forests[g]? = some t)
    (fun _ j _ _ h => ends_reset_forest j hc h) p.constraintIds [] s (Or.inr ⟨by simp, hForest⟩))
    (fun _ s' hEnd => ?_) fun _ _ _ => trivial
  refine hEnd.resolve_right fun hNot => hNot.1 ?_
  simpa using mem_constraintIds hc

/-- An evaluation builds a forest that some demand speaks of once. -/
theorem ends_evaluateAll_builds (hp : p.WellFormed) (h : s.Shaped p)
    (hc : p.constraints[id]? = some (.graph g demand)) (hForest : s.forests[g]? = some t) :
    Ends p.evaluateAll s (fun _ s' => ∃ t', s'.forests[g]? = some t' ∧ t'.forest.built = true
      ∧ t'.forest.builds = t.forest.builds + 1) Never := by
  have hUpheld := upheld_due g (t.forest.builds + 1)
  have hDue : Ends p.evaluateAll s (fun _ => State.Due g (t.forest.builds + 1))
      fun _ _ => True := by
    rw [evaluateAll]
    apply (ends_resetAll_forest hc hForest).andThen
    intro _ s₁ hStale
    have hEvaluate : ∀ j, Respects (do (← Search.of (p.constraint j)).evaluate j)
        (Diagonal (State.Due g (t.forest.builds + 1))) :=
      fun j => Problem.respects_constraint j fun c _ =>
        hUpheld.respects_evaluate j fun _ _ _ => trivial
    have hAll : Respects
        (p.constraintIds.forM fun j => do (← Search.of (p.constraint j)).evaluate j)
        (Diagonal (State.Due g (t.forest.builds + 1))) := Respects.forM fun j _ => hEvaluate j
    have hKeeps := hAll.keeps
    exact (hKeeps s₁ ⟨_, hStale, rfl⟩).mono (fun _ _ hEnd => hEnd) fun _ _ _ => trivial
  refine ((ends_evaluateAll hp h).and hDue).mono ?_ fun _ _ hFail => hFail.1
  rintro _ s' ⟨⟨hTracks, _⟩, t', hForest', hDue⟩
  have hUpToDate := ((hTracks.settled id _ hc).follows g demand rfl).upToDate hForest'
  exact ⟨t', hForest', hUpToDate.built, by rw [← hDue, Forest.due_of_built hUpToDate.built]⟩

/-- An evaluation leaves a forest alone that no demand speaks of. -/
theorem keeps_evaluateAll_forest (hNone : ∀ (id : Nat) (demand : Connectivity Nat),
      p.constraints[id]? ≠ some (.graph g demand)) (x : Option TrackedGraph) :
    Keeps p.evaluateAll fun s => s.forests[g]? = x :=
  ((upheld_forest g x).respects_evaluateAll (Walk.speaksOf_others hNone) fun _ hj =>
    (keeps_invalidate_other hj x).respects).keeps

end Problem

/-- Some demand of the problem speaks of a graph. -/
def Problem.Demands (p : Problem) (g : Nat) : Prop :=
  ∃ (id : Nat) (demand : Connectivity Nat), p.constraints[id]? = some (.graph g demand)

/-- After an evaluation, whatever moves followed, the forest of a graph that demands speak
of is built, and a flip leaves it built. It is built anew, and once, if the proposition
backs a forest edge that is gone, and is not built anew otherwise, however many demands
there are. An evaluation builds each of these forests once. The forest of a graph that no
demand speaks of is never touched. -/
theorem one_build_per_lost_edge (hp : p.Built) :
    (∀ s v, Reached p s → Named p.propositionCount v →
        ∃ s', Walk.flip p v s = .ok () s' ∧ ∀ (g : Nat) (gr : Graph), p.graphs[g]? = some gr →
          ∃ t, s.forests[g]? = some t ∧ t.graph = gr
            ∧ (p.Demands g → t.forest.built = true
              ∧ ∃ t', s'.forests[g]? = some t' ∧ t'.forest.built = true
                ∧ ((∃ e, (t.graph.edge e).proposition = v ∧ t.forest.contains e = true
                    ∧ s'.assignment.isTrue v = false) →
                  t'.forest.builds = t.forest.builds + 1)
                ∧ ((¬ ∃ e, (t.graph.edge e).proposition = v ∧ t.forest.contains e = true
                    ∧ s'.assignment.isTrue v = false) →
                  t'.forest.builds = t.forest.builds))
            ∧ (¬ p.Demands g → s'.forests[g]? = some t))
      ∧ ∀ s, Visited p s → ∃ s', p.evaluateAll s = .ok () s'
        ∧ ∀ (g : Nat) (gr : Graph), p.graphs[g]? = some gr →
          ∃ t, s.forests[g]? = some t ∧ t.graph = gr
            ∧ (p.Demands g → ∃ t', s'.forests[g]? = some t' ∧ t'.forest.built = true
              ∧ t'.forest.builds = t.forest.builds + 1)
            ∧ (¬ p.Demands g → s'.forests[g]? = some t) := by
  have hWellFormed := hp.wellFormed
  have hNone : ∀ g, ¬ p.Demands g → ∀ (id : Nat) (demand : Connectivity Nat),
      p.constraints[id]? ≠ some (.graph g demand) :=
    fun g hFree id demand hc => hFree ⟨id, demand, hc⟩
  constructor
  · intro s v hReached hv
    have hTracks := hReached.tracks hWellFormed
    obtain ⟨_, s', hRun, _, hFlipped⟩ := (Walk.ends_flip hWellFormed hTracks hv.2).exists_ok
    refine ⟨s', hRun, fun g gr hGraph => ?_⟩
    obtain ⟨t, hForest, rfl⟩ := hTracks.exists_forest hGraph
    refine ⟨t, hForest, rfl, ?_, fun hFree => ?_⟩
    · rintro ⟨id, demand, hc⟩
      have hUpToDate := ((hTracks.settled id _ hc).follows g demand rfl).upToDate hForest
      obtain ⟨t', hForest', hBuilt', hBuilds⟩ :=
        (Walk.ends_flip_builds hWellFormed hTracks hv.2 hc hForest).of_ok hRun
      rw [← hFlipped.self] at hBuilds
      refine ⟨hUpToDate.built, t', hForest', hBuilt', fun hLost => ?_, fun hKept => ?_⟩
      · rw [hBuilds, TrackedGraph.loses_iff.mpr hLost, Bool.toNat_true]
      · rw [← TrackedGraph.loses_iff, Bool.not_eq_true] at hKept
        rw [hBuilds, hKept, Bool.toNat_false, Nat.add_zero]
    · exact (Walk.keeps_flip_forest (hNone g hFree) v _ s hForest).of_ok hRun
  · intro s hVisited
    obtain ⟨_, s', hRun, _⟩ :=
      (Problem.ends_evaluateAll hWellFormed hVisited.shaped).exists_ok
    refine ⟨s', hRun, fun g gr hGraph => ?_⟩
    obtain ⟨t, hForest, rfl⟩ := hVisited.shaped.exists_forest hGraph
    refine ⟨t, hForest, rfl, ?_, fun hFree => ?_⟩
    · rintro ⟨id, demand, hc⟩
      exact (Problem.ends_evaluateAll_builds hWellFormed hVisited.shaped hc hForest).of_ok hRun
    · exact (Problem.keeps_evaluateAll_forest (hNone g hFree) _ s hForest).of_ok hRun

/-- Both demands of the small problem speak of its graph. The evaluation builds the forest
once. A first flip brings an edge that joins the two vertices, and a second one takes it
away again and has the forest built once more. -/
theorem one_build_per_lost_edge_small :
    ∃ s s' t t', Reached .small s ∧ Walk.flip .small 1 s = .ok () s'
      ∧ s.forests[0]? = some t ∧ s'.forests[0]? = some t'
      ∧ t.loses 1 (s'.assignment.isTrue 1) = true
      ∧ t'.forest.builds = t.forest.builds + 1 := by
  obtain ⟨hFlips, hEvaluates⟩ := one_build_per_lost_edge Problem.built_small
  let start : State := .new .small (.seeded 0)
  obtain ⟨s₀, hEvaluated, _⟩ := hEvaluates start (.new _)
  have hReached₀ : Reached .small s₀ := .evaluated (.new _) hEvaluated
  obtain ⟨s, hFirst, _⟩ := hFlips s₀ 1 hReached₀ (by decide)
  have hReached : Reached .small s := hReached₀.flip hFirst
  obtain ⟨s', hSecond, hForests⟩ := hFlips s 1 hReached (by decide)
  obtain ⟨t, hForest, _, hShared, _⟩ := hForests 0 _ rfl
  obtain ⟨_, t', hForest', _, hLost, _⟩ := hShared ⟨1, .whole, rfl⟩
  have hSeen : ((do
      Problem.small.evaluateAll
      Walk.flip .small 1
      let before ← get
      Walk.flip .small 1
      let after ← get
      return before.forests[0]?.map fun t => t.loses 1 (after.assignment.isTrue 1)
        : Search (Option Bool)).run' start) = some (some true) := by decide +kernel
  unfold EStateM.run' EStateM.run at hSeen
  have hGet : (get : Search State) s = .ok s s := rfl
  rw [bind_of_ok hEvaluated, bind_of_ok hFirst, bind_of_ok hGet, bind_of_ok hSecond] at hSeen
  have hLoses : t.loses 1 (s'.assignment.isTrue 1) = true := by
    have hAnswer := Option.some.inj hSeen
    rw [hForest] at hAnswer
    exact Option.some.inj hAnswer
  exact ⟨s, s', t, t', hReached, hSecond, hForest, hForest', hLoses,
    hLost (TrackedGraph.loses_iff.mp hLoses)⟩

end LocalRepair
