import LocalRepair.Proofs.Search.Reached

/-!
# The path that is kept for a pair

A demand on a pair of vertices keeps a path between them, since an edge on the path is
worth more than another one. The path is looked for only where the forest has just
said that the pair is connected, and is left alone by flips that take none of its
edges away.

Two things are shown of it. In every state that moves reach, it is a path: present
edges, one leading on to the next, from the one vertex to the other, and none if the
demand is not met. And the search for it never comes back without one. The forest and
the search are different ways to find out what is joined, so this is about every
moment at which one is asked after the other: while constraints are evaluated, and in
the middle of a flip, when only some of the constraints were told.

## Main results

* `AboutToAsk.mirrors`: whenever a demand is asked for, its forest is not wrong.
* `kept_path_is_genuine`: the path is a path, and the search finds one.
-/

namespace LocalRepair

open Search State

variable {p : Problem} {s s' : State} {id g : Nat}

/-- The moments at which constraint `id`, a demand on graph `g`, is asked whether it
holds before its path is looked for. This is while all constraints are evaluated, with
the ones before it done, and during a flip, with the ones before it told and the forest
told of the edge. -/
inductive AboutToAsk (p : Problem) (id g : Nat) : State → Prop where
  | evaluating {s s' : State} {earlier later : List Nat} (visited : Visited p s)
      (order : p.constraintIds = earlier ++ id :: later)
      (run : (do
        p.constraintIds.forM fun j => do (← Search.of (p.constraint j)).reset j
        earlier.forM fun j => do (← Search.of (p.constraint j)).evaluate j) s = .ok () s') :
      AboutToAsk p id g s'
  | flipping {s s' : State} {v edge : Nat} {earlier later : List Nat} (reached : Reached p s)
      (order : p.mentioning v = .ok (earlier ++ id :: later))
      (run : (do
        let value ← Walk.turnOver v
        earlier.forM (Walk.tell p v value)
        noteFlip g v value) s = .ok (some edge) s') :
      AboutToAsk p id g s'

/-- After all constraints were reset and some were evaluated, no forest is wrong. -/
theorem Problem.ends_evaluateSome (hp : p.WellFormed) (h : s.Shaped p) {earlier : List Nat}
    (hEarlier : ∀ j ∈ earlier, j ∈ p.constraintIds) {demand : Connectivity Nat}
    (hc : p.constraints[id]? = some (.graph g demand)) :
    Ends (do
        p.constraintIds.forM fun j => do (← Search.of (p.constraint j)).reset j
        earlier.forM fun j => do (← Search.of (p.constraint j)).evaluate j) s
      (fun _ s' => s'.Shaped p ∧ s'.Mirrors g s'.assignment) Never := by
  apply (ends_resetAll hp h).bind
  rintro _ s₁ ⟨hShaped, hTables, hMirrors⟩
  have hSame := hTables.assignment
  apply (ends_evaluateThese hp earlier hEarlier hShaped hSame hMirrors).weaken
  rintro _ s₂ ⟨hShaped', hTables', hMirrors', _⟩
  exact ⟨hShaped', (hTables'.assignment.trans hSame) ▸ hMirrors' id g demand hc⟩

/-- A forest that is told of a flip in its turn is not wrong afterwards. -/
theorem Walk.ends_noteFlip_following {old : Assignment} {v : Nat} {todo : List Nat}
    (hp : p.WellFormed) (hFlip : old.Flipped v s.assignment) (h : s.Following p old todo)
    {demand : Connectivity Nat} (hc : p.constraints[id]? = some (.graph g demand))
    (hv : v ∈ p.propositionsOf (.graph g demand)) :
    Ends (noteFlip g v (s.assignment.isTrue v)) s
      (fun _ s' => s'.Shaped p ∧ s'.Mirrors g s'.assignment) Never := by
  obtain ⟨t, _, hForest, hGraph, _⟩ := h.lookup hp hc
  have hBacks : v ∈ t.graph.propositions := by
    simpa [Problem.propositionsOf, Constraint.propositions, hGraph] using hv
  obtain ⟨e, hEdge⟩ := Graph.exists_edgeBackedBy hBacks
  have hOneSide : t.UpToDate old ∨ t.UpToDate s.assignment :=
    (h.forests id g demand hc).imp (·.upToDate hForest) (·.upToDate hForest)
  apply ends_noteFlip hForest hEdge
  exact ⟨h.toShaped.setForest hForest rfl, _, getElem?_setForest_self hForest,
    TrackedGraph.UpToDate.mirrors_note hEdge hFlip hOneSide⟩

/-- Whenever a demand is about to be asked for, its forest is not wrong. -/
theorem AboutToAsk.mirrors (hp : p.WellFormed) (h : AboutToAsk p id g s)
    {demand : Connectivity Nat} (hc : p.constraints[id]? = some (.graph g demand)) :
    s.Shaped p ∧ s.Mirrors g s.assignment := by
  cases h with
  | @evaluating s₀ _ earlier later visited order run =>
      have hEarlier : ∀ j ∈ earlier, j ∈ p.constraintIds := by
        intro j hj
        simp [order, hj]
      exact (Problem.ends_evaluateSome hp visited.shaped hEarlier hc).of_ok run
  | @flipping s₀ _ v edge earlier later reached order run =>
      have hTracks := reached.tracks hp
      -- A flip out of range would have been refused.
      have hv : v ≤ p.propositionCount := by
        by_contra hOut
        have hRange : s₀.assignment.values.size ≤ v := by
          rw [hTracks.assignment]
          omega
        rw [bind_of_error (Walk.turnOver_refused hRange)] at run
        cases run
      obtain ⟨ids, hIds, hAscending, hMentioning⟩ := hp.mentioning v hv
      obtain rfl : ids = earlier ++ id :: later := Except.ok.inj (hIds.symm.trans order)
      obtain ⟨c, hc', hMentions⟩ := (hMentioning id).mp (by simp)
      obtain rfl := Option.some.inj (hc.symm.trans hc')
      have hRun : Ends (do
          let value ← Walk.turnOver v
          earlier.forM (Walk.tell p v value)
          noteFlip g v value) s₀ (fun _ s' => s'.Shaped p ∧ s'.Mirrors g s'.assignment) Never := by
        apply (Walk.ends_turnOver hp hTracks hv hMentioning).bind
        rintro _ s₁ ⟨rfl, hFlipped, hFollowing, _⟩
        have hEarlier : ∀ j ∈ earlier, ∃ c, p.constraints[j]? = some c ∧ v ∈ p.propositionsOf c :=
          fun j hj => (hMentioning j).mp (by simp [hj])
        refine (Walk.ends_tellThese (Q := fun _ _ => True) hp hFlipped earlier (id :: later)
          (hAscending.imp Nat.ne_of_lt) hEarlier hFollowing trivial ?_).bind ?_
        · intro done j todo c s₂ hTelling _
          exact (Walk.ends_tell hp hTelling).weaken fun _ _ _ => trivial
        · rintro _ s₂ ⟨hFollowing', hSame, _⟩
          rw [← hSame] at hFlipped ⊢
          exact Walk.ends_noteFlip_following hp hFlipped hFollowing' hc hMentions
      exact hRun.of_ok run

/-- A path that is kept where the demand holds is a path without repeated vertices. -/
theorem State.Tracks.exists_simplePath (h : s.Tracks p) {source target : Nat} {gr : Graph}
    {u w : gr.Vertex} {m : Marks}
    (hc : p.constraints[id]? = some (.graph g (.pair source target)))
    (hGraph : p.graphs[g]? = some gr) (hSource : gr.vertex source = .ok u)
    (hTarget : gr.vertex target = .ok w) (hMarks : s.marks[id]? = some m) :
    (id ∉ s.violated.toList → ∃ es, m.path = es.map Fin.val
        ∧ gr.SimplePath (fun e => gr.presentIn s.assignment e = true) u es w)
      ∧ (id ∈ s.violated.toList → m.path = []) := by
  have hSettled := h.settled id _ hc
  have hResolve := Connectivity.resolve_pair hSource hTarget
  have hViolated : id ∈ s.violated.toList
      ↔ ¬ gr.Joined (fun e => gr.presentIn s.assignment e = true) u w :=
    hSettled.violated.trans (not_congr (Constraint.holds_graph_iff hGraph hResolve))
  rw [hViolated, not_not]
  rcases hSettled.routed m hMarks gr u w hGraph hSource hTarget with
    ⟨es, hSame, hPath⟩ | ⟨hNone, hApart⟩
  · exact ⟨fun _ => ⟨es, hSame, hPath⟩, fun hApart => absurd hPath.joined hApart⟩
  · exact ⟨fun hJoined => absurd hJoined hApart, fun _ => hNone⟩

/-- Where the forest answers that a pair is connected, the search for a path finds one. -/
theorem Constraint.ends_holdsNow_finds (hp : p.WellFormed) (h : s.Shaped p)
    {source target : Nat} (hc : p.constraints[id]? = some (.graph g (.pair source target)))
    (hMirrors : s.Mirrors g s.assignment) :
    Ends ((graph g (.pair source target)).holdsNow id) s (fun b s' => b = true →
      ∃ t path, s'.forests[g]? = some t
        ∧ t.graph.shortestPath s'.assignment source target = .ok (some path)) Never := by
  obtain ⟨t, hForest, hMirrors⟩ := hMirrors
  obtain ⟨t', d, hForest', hGraph, hResolve⟩ := h.lookup hp hc
  obtain rfl := Option.some.inj (hForest.symm.trans hForest')
  obtain ⟨u, w, hSource, hTarget, rfl⟩ := Connectivity.exists_of_resolve_pair hResolve
  apply ends_holdsNow_graph hp h hc hForest hMirrors
  intro b f hAnswer _ _ hMet
  have hJoined := (holds_graph_iff hGraph hResolve).mp (hAnswer.mp hMet)
  rcases Graph.shortestPath_finds (h.coveredBy hp hForest) hSource hTarget with
    ⟨path, hFound, _⟩ | ⟨_, hApart⟩
  · exact ⟨⟨t.graph, f⟩, path, getElem?_setForest_self hForest, hFound⟩
  · exact absurd hJoined hApart

/-- In every state that moves reach, the path that is kept for a pair of vertices is made
of different present edges that lead from the one to the other and come through no vertex
twice, and of none only if the two are the same; if the pair is violated, the path is
empty. And whenever the forest answers, during an evaluation or a flip, that the pair is
connected, the search for a path that follows finds one. -/
theorem kept_path_is_genuine (hp : p.Built) {source target : Nat}
    (hc : p.constraints[id]? = some (.graph g (.pair source target))) :
    (∀ s, Reached p s → ∃ (gr : Graph) (u w : gr.Vertex) (m : Marks) (violated : Bool),
        p.graphs[g]? = some gr ∧ gr.vertex source = .ok u ∧ gr.vertex target = .ok w
        ∧ s.marks[id]? = some m ∧ s.violated.contains id = .ok violated
        ∧ (violated = false → ∃ es vs, m.path = es.map Fin.val ∧ m.path.Nodup
          ∧ (∀ e ∈ es, gr.presentIn s.assignment e = true)
          ∧ gr.Route (fun e => gr.presentIn s.assignment e = true) u es vs w ∧ vs.Nodup
          ∧ (m.path = [] ↔ source = target))
        ∧ (violated = true → m.path = []))
      ∧ ∀ s s', AboutToAsk p id g s →
        (Constraint.graph g (.pair source target)).holdsNow id s = .ok true s' →
        ∃ t path, s'.forests[g]? = some t
          ∧ t.graph.shortestPath s'.assignment source target = .ok (some path) := by
  have hWellFormed := hp.wellFormed
  constructor
  · intro s hReached
    have hTracks := hReached.tracks hWellFormed
    obtain ⟨t, d, _, hGraph, hResolve⟩ := hTracks.lookup hWellFormed hc
    obtain ⟨u, w, hSource, hTarget, _⟩ := Connectivity.exists_of_resolve_pair hResolve
    obtain ⟨m, hMarks⟩ := hTracks.exists_marks hc
    obtain ⟨hMet, hUnmet⟩ := hTracks.exists_simplePath hc hGraph hSource hTarget hMarks
    refine ⟨t.graph, u, w, m, _, hGraph, hSource, hTarget, hMarks,
      hTracks.violated.contains_eq (Shaped.lt_of_constraint hc), fun hSatisfied => ?_,
      fun hViolated => hUnmet (of_decide_eq_true hViolated)⟩
    obtain ⟨es, hSame, vs, hRoute, hNodup⟩ := hMet (of_decide_eq_false hSatisfied)
    have hEnds : u = w ↔ source = target := by
      rw [Fin.ext_iff, Graph.val_of_vertex hSource, Graph.val_of_vertex hTarget]
    refine ⟨es, vs, hSame, ?_, fun e => hRoute.present_of_mem, hRoute, hNodup, ?_⟩
    · rw [hSame]
      exact (hRoute.nodup_edges hNodup).map Fin.val_injective
    · rw [hSame, List.map_eq_nil_iff, hRoute.eq_nil_iff hNodup, hEnds]
  · intro s s' hAsk hMet
    obtain ⟨hShaped, hMirrors⟩ := hAsk.mirrors hWellFormed hc
    exact (Constraint.ends_holdsNow_finds hWellFormed hShaped hc hMirrors).of_ok hMet rfl

/-- The small problem with its first edge present. The pair keeps that edge as its path
after an evaluation; and when it is asked about in its turn, after the other two
constraints, the answer is that it is connected, and the search finds a path. -/
theorem kept_path_is_genuine_small :
    (∃ (s : State) (gr : Graph) (u w : gr.Vertex) (m : Marks) (es : List gr.EdgeId)
        (vs : List gr.Vertex), Reached .small s ∧ Problem.small.graphs[0]? = some gr
      ∧ gr.vertex 0 = .ok u ∧ gr.vertex 1 = .ok w ∧ s.marks[2]? = some m ∧ m.path = [0]
      ∧ m.path = es.map Fin.val
      ∧ gr.Route (fun e => gr.presentIn s.assignment e = true) u es vs w ∧ vs.Nodup)
      ∧ ∃ (s s' : State) (t : TrackedGraph) (path : List t.graph.EdgeId),
        AboutToAsk .small 2 0 s
        ∧ (Constraint.graph 0 (.pair 0 1)).holdsNow 2 s = .ok true s'
        ∧ t.graph.shortestPath s'.assignment 0 1 = .ok (some path) := by
  have hPair : Problem.small.constraints[2]? = some (.graph 0 (.pair 0 1)) := rfl
  obtain ⟨hKept, hFinds⟩ := kept_path_is_genuine Problem.built_small hPair
  let start : State := { State.new .small (.seeded 0) with
    assignment := ⟨#[false, true, false, false]⟩, generator := .seeded 0 }
  have hVisited : Visited .small start := (Visited.new (.seeded 0)).seeded _ _ (by decide)
  constructor
  · have hSeen : ((Problem.small.evaluateAll >>= fun _ => do
        return (← get).marks[2]?.map Marks.path).run' start) = some (some [0]) := by decide +kernel
    unfold EStateM.run' EStateM.run at hSeen
    cases hRun : Problem.small.evaluateAll start with
    | error e s =>
        rw [bind_of_error hRun] at hSeen
        cases hSeen
    | ok _ s =>
        rw [bind_of_ok hRun] at hSeen
        have hReached : Reached .small s := .evaluated hVisited hRun
        obtain ⟨gr, u, w, m, violated, hGraph, hSource, hTarget, hMarks, _, hMet, hUnmet⟩ :=
          hKept s hReached
        have hPath : m.path = [0] := by
          simpa [hMarks] using Option.some.inj hSeen
        have hSatisfied : violated = false := by
          by_contra hViolated
          simp [hUnmet (by simpa using hViolated)] at hPath
        obtain ⟨es, vs, hSame, _, _, hRoute, hNodup, _⟩ := hMet hSatisfied
        exact ⟨s, gr, u, w, m, es, vs, hReached, hGraph, hSource, hTarget, hMarks, hPath, hSame,
          hRoute, hNodup⟩
  · let before : Search Unit := do
      Problem.small.constraintIds.forM fun j => do
        (← Search.of (Problem.small.constraint j)).reset j
      [0, 1].forM fun j => do (← Search.of (Problem.small.constraint j)).evaluate j
    have hSeen : ((before >>= fun _ => (Constraint.graph 0 (.pair 0 1)).holdsNow 2).run' start)
        = some true := by decide +kernel
    unfold EStateM.run' EStateM.run at hSeen
    cases hRun : before start with
    | error e s =>
        rw [bind_of_error hRun] at hSeen
        cases hSeen
    | ok _ s =>
        rw [bind_of_ok hRun] at hSeen
        have hOrder : Problem.small.constraintIds = [0, 1] ++ 2 :: [] := rfl
        have hAsk : AboutToAsk .small 2 0 s := .evaluating hVisited hOrder hRun
        cases hHolds : (Constraint.graph 0 (.pair 0 1)).holdsNow 2 s with
        | error e s' =>
            rw [hHolds] at hSeen
            cases hSeen
        | ok b s' =>
            rw [hHolds] at hSeen
            obtain rfl : b = true := Option.some.inj hSeen
            obtain ⟨t, path, _, hFound⟩ := hFinds s s' hAsk hHolds
            exact ⟨s, s', t, path, hAsk, hHolds, hFound⟩

end LocalRepair
