import LocalRepair.Walk
import LocalRepair.Proofs.Search.Questions

/-!
# A flip keeps the record right

A flip turns a proposition over and then tells the constraints that mention it,
one after the other. In between, the record is right in two ways: the constraints
that were told are settled for the new assignment, and those that wait are
recorded as the old assignment left them. A forest that several constraints share
changes sides with the first of them; telling it of the flip again does no harm.

`Following` is this state of affairs, with the constraints that still wait. It
holds after the proposition is turned over, since constraints that do not mention
it cannot tell the two assignments apart; it moves on by one constraint with
every telling; and when none waits any more the record is right.

## Main results

* `Constraint.ends_follow`: a constraint that is told is settled.
* `Walk.ends_tell`: one step of a flip.
* `Walk.ends_flip`: a flip succeeds, and the record is right afterwards.
-/

namespace LocalRepair

open Search State

variable {p : Problem} {s s' : State} {id g v : Nat} {c : Constraint} {m : Marks}
  {t : TrackedGraph} {old a : Assignment} {demand : Connectivity Nat}
  {fails : Fault → State → Prop}

/-! ## One constraint -/

/-- A forest that is right about one side of a flip and is told of it mirrors
the other side. -/
theorem TrackedGraph.UpToDate.mirrors_note {e : t.graph.EdgeId}
    (hEdge : t.graph.edgeBackedBy? v = some e) (hFlip : old.Flipped v a)
    (h : t.UpToDate old ∨ t.UpToDate a) : (t.forest.note e (a.isTrue v)).Mirrors a := by
  obtain rfl := Graph.edgeBackedBy?_eq_some_iff.mp hEdge
  rcases h with hOld | hNew
  · refine Forest.Mirrors.note (fun _ => hOld.spans) (fun d hd => ?_) rfl
    have hOther : (t.graph.edge d).proposition ≠ (t.graph.edge e).proposition :=
      fun hEq => hd (Graph.proposition_injective hEq)
    rw [Graph.presentIn_flipped_other hFlip hOther]
  · exact Forest.Mirrors.note (fun _ => hNew.spans) (fun _ _ => Iff.rfl) rfl

namespace Constraint

/-- A path that is kept for a pair stays right if the flip took away none of its edges.
-/
theorem Routed.kept {source target : Nat} {path : List Nat} {e : t.graph.EdgeId}
    (h : (graph g (.pair source target)).Routed p.graphs old path)
    (hGraph : p.graphs[g]? = some t.graph) (hEdge : t.graph.edgeBackedBy? v = some e)
    (hFlip : old.Flipped v a) (hMet : (graph g (.pair source target)).Holds p.graphs old)
    (hKept : a.isTrue v = true ∨ e.val ∉ path) :
    (graph g (.pair source target)).Routed p.graphs a path := by
  obtain rfl := Graph.edgeBackedBy?_eq_some_iff.mp hEdge
  intro gr u w hGraph' hSource hTarget
  obtain rfl := Option.some.inj (hGraph.symm.trans hGraph')
  have hResolve := Connectivity.resolve_pair hSource hTarget
  have hJoined := (holds_graph_iff hGraph hResolve).mp hMet
  rcases h t.graph u w hGraph hSource hTarget with ⟨es, rfl, hPath⟩ | ⟨_, hApart⟩
  · refine Or.inl ⟨es, rfl, hPath.mono fun d hd hPresent => ?_⟩
    by_cases hSelf : d = e
    · subst hSelf
      exact hKept.resolve_right fun hNot => hNot (List.mem_map_of_mem hd)
    · have hOther : (t.graph.edge d).proposition ≠ (t.graph.edge e).proposition :=
        fun hEq => hSelf (Graph.proposition_injective hEq)
      rwa [Graph.presentIn_flipped_other hFlip hOther]
  · exact absurd hJoined hApart

/-- Bringing a path up to date changes no more than the path, and makes it right. -/
theorem ends_followPath {source target : Nat} {wasMet isMet : Bool} {e : t.graph.EdgeId}
    {returns : Unit → State → Prop} (hp : p.WellFormed) (h : s.Shaped p)
    (hc : p.constraints[id]? = some (.graph g (.pair source target)))
    (hGraph : p.graphs[g]? = some t.graph) (hEdge : t.graph.edgeBackedBy? v = some e)
    (hFlip : old.Flipped v s.assignment) (hMarks : s.marks[id]? = some m)
    (hOld : (graph g (.pair source target)).Routed p.graphs old m.path)
    (hWas : wasMet = true ↔ (graph g (.pair source target)).Holds p.graphs old)
    (hIs : isMet = true ↔ (graph g (.pair source target)).Holds p.graphs s.assignment)
    (hKeep : (graph g (.pair source target)).Routed p.graphs s.assignment m.path → returns () s)
    (hPath : ∀ path, (graph g (.pair source target)).Routed p.graphs s.assignment path →
      returns () (s.setMarks id { m with path })) :
    Ends (followPath id g source target e.val (s.assignment.isTrue v) wasMet isMet) s returns
      fails := by
  rw [followPath]
  refine ends_ite (fun hUnmet => ends_changeMarks hMarks (hPath [] (routed_nil ?_))) fun _ => ?_
  · rw [← hIs]
    simpa using hUnmet
  rw [ends_bind]
  apply ends_marksOf hMarks
  refine ends_ite (fun _ => ends_keepShortestPath hp h hc hMarks hPath) fun hSame => ?_
  -- The pair was connected, and the path has lost no edge.
  simp only [Bool.or_eq_true, Bool.not_eq_true', Bool.and_eq_true, List.contains_iff_mem,
    not_or, not_and, Bool.not_eq_false] at hSame
  refine hKeep (hOld.kept hGraph hEdge hFlip (hWas.mp hSame.1) ?_)
  by_cases hPresent : s.assignment.isTrue v = true
  · exact Or.inl hPresent
  · exact Or.inr (hSame.2 (by simpa using hPresent))

/-- A clause that is told of a flip counts its true literals right. -/
theorem ends_follow_clause {k : Clause} (hp : p.WellFormed)
    (hFlip : old.Flipped v s.assignment) (h : s.Shaped p)
    (hc : p.constraints[id]? = some (.clause k)) (hRecords : s.Records p old id (.clause k)) :
    Ends ((clause k).follow id v (s.assignment.isTrue v)) s
      (fun _ s' => Settles s s' p s.assignment id (.clause k)) Never := by
  obtain ⟨m, hMarks⟩ := h.exists_marks hc
  have hCount : (m.trueLiterals : Int) + k.shift v (s.assignment.isTrue v)
      = k.truePositions s.assignment := by
    rw [hRecords.counted k rfl m hMarks, Clause.truePositions_flipped hFlip]
  have hRange := k.truePositions_le s.assignment
  rw [follow, ends_bind]
  apply ends_marksOf hMarks
  simp only [hCount, Int.toNat_natCast, (hp.short_clause hc).inWord_truePositions]
  refine ends_ite (fun hBad => ?_) fun _ => ?_
  · omega
  · exact ends_recordCount h hc

/-- A demand was asked after its forest was told of a flip: nothing but that forest has
changed, which follows the assignment, and the answer is right. -/
structure Asked (s s' : State) (p : Problem) (a : Assignment) (id g : Nat)
    (demand : Connectivity Nat) (isMet : Bool) : Prop where
  shaped : s'.Shaped p
  touched : Touched s s' id (.graph g demand)
  marks : s'.marks = s.marks
  follows : s'.Follows g a
  answer : isMet = true ↔ (graph g demand).Holds p.graphs a

/-- A demand whose forest was told of a flip is answered with its meaning. -/
theorem ends_holdsNow_told {f : Forest t.graph} (hp : p.WellFormed) (h : s.Shaped p)
    (hc : p.constraints[id]? = some (.graph g demand)) (hForest : s.forests[g]? = some t)
    (hMirrors : f.Mirrors s.assignment) :
    Ends (holdsNow id (graph g demand)) (s.setForest g ⟨t.graph, f⟩)
      (fun isMet s' => Asked s s' p s.assignment id g demand isMet) Never := by
  have hTold : (s.setForest g ⟨t.graph, f⟩).forests[g]? = some ⟨t.graph, f⟩ :=
    getElem?_setForest_self hForest
  have hShaped : (s.setForest g ⟨t.graph, f⟩).Shaped p := h.setForest hForest rfl
  apply ends_holdsNow_graph hp hShaped hc hTold hMirrors
  intro isMet f' hAnswer hUpToDate _
  exact
    { shaped := hShaped.setForest hTold rfl
      touched := Touched.setForest.trans .setForest
      marks := rfl
      follows := follows_setForest hTold hUpToDate
      answer := hAnswer }

/-- A demand that is told of a flip is recorded by its meaning. -/
theorem ends_follow_graph (hp : p.WellFormed) (hFlip : old.Flipped v s.assignment)
    (h : s.Shaped p) (hc : p.constraints[id]? = some (.graph g demand))
    (hv : v ∈ p.propositionsOf (.graph g demand)) (hRecords : s.Records p old id (.graph g demand))
    (hForests : s.Follows g old ∨ s.Follows g s.assignment) :
    Ends ((graph g demand).follow id v (s.assignment.isTrue v)) s
      (fun _ s' => Settles s s' p s.assignment id (.graph g demand)) Never := by
  obtain ⟨m, hMarks⟩ := h.exists_marks hc
  obtain ⟨t, d, hForest, hGraph, _⟩ := h.lookup hp hc
  have hOneSide : t.UpToDate old ∨ t.UpToDate s.assignment :=
    hForests.imp (fun hOld => hOld.upToDate hForest) fun hNew => hNew.upToDate hForest
  have hBacks : v ∈ t.graph.propositions := by
    simpa [Problem.propositionsOf, propositions, hGraph] using hv
  obtain ⟨e, hEdge⟩ := Graph.exists_edgeBackedBy hBacks
  have hMirrors := TrackedGraph.UpToDate.mirrors_note hEdge hFlip hOneSide
  have hWas : (!decide (id ∈ s.violated.toList)) = true ↔ (graph g demand).Holds p.graphs old := by
    rw [Bool.not_eq_true', decide_eq_false_iff_not]
    exact (not_congr hRecords.violated).trans not_not
  -- The forest is told of the edge, and asked after that.
  rw [follow, ends_bind]
  apply ends_noteFlip hForest hEdge
  have hTold : (s.setForest g ⟨t.graph, t.forest.note e (s.assignment.isTrue v)⟩).Shaped p :=
    h.setForest hForest rfl
  show Ends (isViolated id >>= _) _ _ _
  rw [ends_bind]
  apply ends_isViolated hTold.violated (Shaped.lt_of_constraint hc)
  apply (ends_holdsNow_told hp h hc hForest hMirrors).bind
  intro isMet s₁ hAsked
  have hMarksKept : s₁.marks[id]? = some m := by rw [hAsked.marks, hMarks]
  have hRecord : (graph g demand).Routed p.graphs s.assignment m.path →
      Ends (record id isMet) s₁
        (fun _ s' => Settles s s' p s.assignment id (.graph g demand)) Never :=
    fun hRouted => ends_recordDemand hAsked.shaped hc hAsked.touched hAsked.answer hMarksKept
      hRouted hAsked.follows
  have hPath : ∀ path, (graph g demand).Routed p.graphs s.assignment path →
      Ends (record id isMet) (s₁.setMarks id { m with path })
        (fun _ s' => Settles s s' p s.assignment id (.graph g demand)) Never :=
    fun path hRouted => ends_recordDemand hAsked.shaped.setMarks hc
      (hAsked.touched.trans .setMarks) hAsked.answer (getElem?_setMarks_self hMarksKept) hRouted
      hAsked.follows
  cases demand with
  | whole => exact hRecord trivial
  | pieces count => exact hRecord trivial
  | sides left right => exact hRecord trivial
  | pair source target =>
      have hIs := hAsked.answer
      rw [← hAsked.touched.assignment] at hFlip hIs hRecord hPath ⊢
      show Ends (followPath id g source target e.val _ _ isMet >>= _) _ _ _
      rw [ends_bind]
      exact ends_followPath hp hAsked.shaped hc hGraph hEdge hFlip hMarksKept
        (hRecords.routed m hMarks) hWas hIs hRecord hPath

/-- A constraint that is told of a flip is settled. -/
theorem ends_follow (hp : p.WellFormed) (hFlip : old.Flipped v s.assignment) (h : s.Shaped p)
    (hc : p.constraints[id]? = some c) (hv : v ∈ p.propositionsOf c)
    (hRecords : s.Records p old id c)
    (hForests : ∀ g demand, c = .graph g demand → s.Follows g old ∨ s.Follows g s.assignment) :
    Ends (c.follow id v (s.assignment.isTrue v)) s
      (fun _ s' => Settles s s' p s.assignment id c) Never := by
  cases c with
  | clause k => exact ends_follow_clause hp hFlip h hc hRecords
  | graph g demand => exact ends_follow_graph hp hFlip h hc hv hRecords (hForests g demand rfl)

end Constraint

/-! ## All constraints that mention a proposition -/

namespace State

/-- During a flip: the constraints in the list wait, with the record of the old
assignment, and all others are settled. Forests are on either side. -/
structure Following (s : State) (p : Problem) (old : Assignment) (todo : List Nat) : Prop
    extends Shaped s p where
  done : ∀ id c, p.constraints[id]? = some c → id ∉ todo → s.Settled p s.assignment id c
  waiting : ∀ id c, p.constraints[id]? = some c → id ∈ todo → s.Records p old id c
  forests : ∀ (id g : Nat) (demand : Connectivity Nat),
    p.constraints[id]? = some (.graph g demand) → s.Follows g old ∨ s.Follows g s.assignment

/-- When no constraint waits any more the record is right. -/
theorem Following.tracks (h : s.Following p old []) : s.Tracks p :=
  ⟨h.toShaped, fun id c hc => h.done id c hc (by simp)⟩

/-- A constraint that is settled waits no longer. -/
theorem Settles.following {rest : List Nat} (k : Settles s s' p s.assignment id c)
    (h : s.Following p old (id :: rest)) (hc : p.constraints[id]? = some c) (hNew : id ∉ rest) :
    s'.Following p old rest := by
  have hSame := k.touched.assignment
  have hDone : ∀ j c', p.constraints[j]? = some c' → j ∉ rest →
      s'.Settled p s'.assignment j c' := by
    intro j c' hcj hj
    rw [hSame]
    by_cases hEq : j = id
    · subst hEq
      rw [hc] at hcj
      rw [← Option.some.inj hcj]
      exact k.settled
    · have hNotWaiting : j ∉ id :: rest := by simp [hEq, hj]
      exact k.touched.settled k.settled hEq (h.done j c' hcj hNotWaiting)
  have hWaiting : ∀ j c', p.constraints[j]? = some c' → j ∈ rest → s'.Records p old j c' := by
    intro j c' hcj hj
    have hOther : j ≠ id := fun hEq => hNew (hEq ▸ hj)
    exact k.touched.records hOther (h.waiting j c' hcj (List.mem_cons_of_mem _ hj))
  have hForests : ∀ (j g : Nat) (demand : Connectivity Nat),
      p.constraints[j]? = some (.graph g demand) →
        s'.Follows g old ∨ s'.Follows g s'.assignment := by
    intro j g demand hcj
    rw [hSame]
    rcases h.forests j g demand hcj with hOld | hNow
    · exact k.touched.follows k.settled.follows hOld
    · rcases k.touched.follows k.settled.follows hNow with hKept | hTold
      · exact Or.inr hKept
      · exact Or.inr hTold
  exact ⟨k.shaped, hDone, hWaiting, hForests⟩

/-- Counters are no part of the record. -/
theorem Records.setTally (h : s.Records p a id c) (tally : Stats) :
    State.Records { s with tally } p a id c :=
  ⟨h.violated, h.counted, h.routed⟩

theorem Following.setTally {todo : List Nat} (h : s.Following p old todo) (tally : Stats) :
    State.Following { s with tally } p old todo :=
  ⟨⟨h.assignment, h.violated, h.marks, h.graphs⟩,
    fun id c hc hId =>
      ⟨(h.done id c hc hId).toRecords.setTally tally, (h.done id c hc hId).follows⟩,
    fun id c hc hId => (h.waiting id c hc hId).setTally tally,
    h.forests⟩

/-- A moment during a flip: the next constraint to be told is `id`, which mentions the
proposition that was turned over. -/
structure Telling (s : State) (p : Problem) (old : Assignment) (v id : Nat) (c : Constraint)
    (rest : List Nat) : Prop where
  flipped : old.Flipped v s.assignment
  following : s.Following p old (id :: rest)
  stored : p.constraints[id]? = some c
  mentions : v ∈ p.propositionsOf c
  fresh : id ∉ rest

/-- The state after a constraint was told, with a transition counted if that moved the
constraint in or out of the violated ones. -/
def countMove (before after : State) (id : Nat) : State :=
  if id ∈ after.violated.toList ↔ id ∈ before.violated.toList then after
  else { after with tally := after.tally.countTransition id }

/-- Counting changes no more than the counters. -/
theorem countMove_eq (before after : State) (id : Nat) :
    countMove before after id = { after with tally := (countMove before after id).tally } := by
  unfold countMove
  split <;> rfl

end State

namespace Walk

/-- A constraint that is told of a flip is settled, and its move is counted. -/
theorem ends_tell {rest : List Nat} (hp : p.WellFormed) (h : s.Telling p old v id c rest) :
    Ends (tell p v (s.assignment.isTrue v) id) s
      (fun _ s' => ∃ s₁, Settles s s₁ p s.assignment id c ∧ s' = countMove s s₁ id) Never := by
  have hId : id < p.constraints.size := Shaped.lt_of_constraint h.stored
  rw [tell, ends_bind]
  apply ends_isViolated h.following.violated hId
  rw [ends_bind]
  apply ends_constraint h.stored
  have hFollow := c.ends_follow hp h.flipped h.following.toShaped h.stored h.mentions
    (h.following.waiting id c h.stored (by simp)) ?_
  · apply hFollow.bind
    intro _ s₁ hSettles
    rw [ends_bind]
    apply ends_isViolated hSettles.shaped.violated hId
    refine ends_ite (fun hMoved => ⟨s₁, hSettles, ?_⟩) fun hStays => ⟨s₁, hSettles, ?_⟩
    · rw [countMove, if_neg]
      intro hSame
      simp [hSame] at hMoved
    · rw [countMove, if_pos]
      simpa using hStays
  · rintro g demand rfl
    exact h.following.forests id g demand h.stored

/-- Telling some of the constraints that wait leaves the others waiting. Meanwhile a
property of the constraints that were told may be followed. -/
theorem ends_tellThese {Q : List Nat → State → Prop} (hp : p.WellFormed)
    (hFlip : old.Flipped v s.assignment) (ids rest : List Nat) (hNodup : (ids ++ rest).Nodup)
    (hMention : ∀ id ∈ ids, ∃ c, p.constraints[id]? = some c ∧ v ∈ p.propositionsOf c)
    (h : s.Following p old (ids ++ rest)) (hQ : Q [] s)
    (hTell : ∀ done id todo c s₁, s₁.Telling p old v id c todo → Q done s₁ →
      Ends (tell p v (s₁.assignment.isTrue v) id) s₁ (fun _ => Q (id :: done)) fun _ _ => True) :
    Ends (ids.forM (tell p v (s.assignment.isTrue v))) s
      (fun _ s' => s'.Following p old rest ∧ s'.assignment = s.assignment ∧ Q ids.reverse s')
      Never := by
  have hRun := ends_forM (tell p v (s.assignment.isTrue v))
    (fun done todo s' => (todo ++ rest).Nodup
      ∧ (∀ id ∈ todo, ∃ c, p.constraints[id]? = some c ∧ v ∈ p.propositionsOf c)
      ∧ s'.Following p old (todo ++ rest) ∧ s'.assignment = s.assignment ∧ Q done s')
    ?_ ids [] s ⟨hNodup, hMention, h, rfl, hQ⟩
  · apply hRun.weaken
    rintro _ s' ⟨_, _, hFollowing, hSame, hQ'⟩
    exact ⟨hFollowing, hSame, by simpa using hQ'⟩
  · rintro done id todo s₁ ⟨hDistinct, hIds, hFollowing, hSame, hQ₁⟩
    obtain ⟨hNew, hRest⟩ := List.nodup_cons.mp hDistinct
    obtain ⟨c, hc, hv⟩ := hIds id (by simp)
    have hTelling : s₁.Telling p old v id c (todo ++ rest) :=
      ⟨hSame.symm ▸ hFlip, hFollowing, hc, hv, hNew⟩
    have hStep := (ends_tell hp hTelling).and (hTell done id (todo ++ rest) c s₁ hTelling hQ₁)
    rw [hSame] at hStep
    refine hStep.mono ?_ fun _ _ hFail => hFail.1
    rintro _ s' ⟨⟨s₂, hSettles, rfl⟩, hQ'⟩
    rw [← hSame] at hSettles
    have hNext := (hSettles.following hFollowing hc hNew).setTally (countMove s₁ s₂ id).tally
    rw [← countMove_eq] at hNext
    refine ⟨hRest, fun j hj => hIds j (List.mem_cons_of_mem _ hj), hNext, ?_, hQ'⟩
    rw [countMove_eq]
    exact hSettles.touched.assignment.trans hSame

/-- Where the record is right, checking it finds nothing wrong, and redirects parents at
most. -/
theorem ends_checkRecord (hp : p.WellFormed) (h : s.Tracks p)
    (hc : p.constraints[id]? = some c) :
    Ends (checkRecord p id) s (fun _ s' => Redirected s s') Never := by
  obtain ⟨b, hMeaning, hHolds⟩ := c.inquires_holdsNow hp h hc
  have hRecord : (b == decide (id ∈ s.violated.toList)) = false := by
    have hViolated := (h.settled id c hc).violated
    rw [← hMeaning] at hViolated
    cases b <;> simp_all
  rw [checkRecord, ends_bind]
  apply ends_constraint hc
  apply hHolds.ends_ok.bind
  rintro b' s' ⟨rfl, hRedirected⟩
  have hTracks := h.redirected hRedirected
  rw [ends_bind]
  apply ends_isViolated hTracks.violated (Shaped.lt_of_constraint hc)
  rw [hRedirected.violated, hRecord]
  exact hRedirected

/-- Where the record is right, checking some constraints finds nothing wrong. -/
theorem ends_checkAll (hp : p.WellFormed) (ids : List Nat)
    (hIds : ∀ id ∈ ids, ∃ c, p.constraints[id]? = some c) (h : s.Tracks p) :
    Ends (ids.forM (checkRecord p)) s (fun _ s' => Redirected s s') Never := by
  have hRun := ends_forM (checkRecord p)
    (fun _ rest s' => (∀ id ∈ rest, ∃ c, p.constraints[id]? = some c) ∧ Redirected s s')
    ?_ ids [] s ⟨hIds, .refl s⟩
  · exact hRun.weaken fun _ _ hEnd => hEnd.2
  · rintro _ id rest s₁ ⟨hRest, hRedirected⟩
    obtain ⟨c, hc⟩ := hRest id (by simp)
    apply (ends_checkRecord hp (h.redirected hRedirected) hc).weaken
    intro _ s₂ hNext
    exact ⟨fun j hj => hRest j (List.mem_cons_of_mem _ hj), hRedirected.trans hNext⟩

/-! ## The whole flip -/

/-- A number beyond the assignment is refused before anything changes. -/
theorem turnOver_refused (h : s.assignment.values.size ≤ v) :
    turnOver v s = .error .outOfRange s := by
  have hGet : (get : Search State) s = .ok s s := rfl
  have hFlip : (of (s.assignment.flip v) : Search (Bool × Assignment)) s
      = .error .outOfRange s := by
    rw [Assignment.flip_refused h]
    rfl
  exact (bind_of_ok hGet).trans (bind_of_error hFlip)

/-- The state after a proposition was turned over, before any constraint is told. -/
def overturned (s : State) (a : Assignment) : State :=
  { s with
    assignment := a
    flips := s.flips + 1
    tally := { s.tally with flips := s.tally.flips + 1 } }

/-- A constraint that does not mention a proposition cannot tell the two sides of its flip
apart, so the record of the constraint is right for both. -/
theorem settled_flipped (hp : p.WellFormed) (h : s.Tracks p)
    (hFlipped : s.assignment.Flipped v a) (hc : p.constraints[id]? = some c)
    (hOther : v ∉ p.propositionsOf c) : s.Settled p a id c := by
  have hSettled := h.settled id c hc
  refine ⟨⟨?_, fun k hk m hm => ?_, fun m hm => ?_⟩, fun g demand hEq => ?_⟩
  · exact hSettled.violated.trans (not_congr (Constraint.holds_flipped_iff hFlipped hOther)).symm
  · subst hk
    rw [hSettled.counted k rfl m hm]
    exact (Clause.truePositions_of_not_mem hFlipped hOther).symm
  · exact (hSettled.routed m hm).flipped hFlipped hOther
  · subst hEq
    obtain ⟨t, d, hForest, hGraph, _, hUpToDate⟩ := Constraint.exists_upToDate hp h hc
    have hSame : t.graph.presentIn a = t.graph.presentIn s.assignment := by
      apply Constraint.presentIn_flipped_of_not_mem hFlipped
      simpa [Problem.propositionsOf, Constraint.propositions, hGraph] using hOther
    refine ⟨t, hForest, hUpToDate.built, ?_⟩
    show t.forest.Spans fun e => t.graph.presentIn a e = true
    rw [hSame]
    exact hUpToDate.spans

/-- Turning a proposition over leaves the constraints that mention it waiting,
and no others. -/
theorem ends_turnOver (hp : p.WellFormed) (h : s.Tracks p) (hv : v ≤ p.propositionCount)
    {ids : List Nat} (hMentioning : ∀ id, id ∈ ids ↔
      ∃ c, p.constraints[id]? = some c ∧ v ∈ p.propositionsOf c) :
    Ends (turnOver v) s (fun value s' => value = s'.assignment.isTrue v
      ∧ s.assignment.Flipped v s'.assignment ∧ s'.Following p s.assignment ids
      ∧ s' = overturned s s'.assignment) Never := by
  have hRange : v < s.assignment.values.size := by
    rw [h.assignment]
    exact Nat.lt_succ_of_le hv
  obtain ⟨a, hFlip, hFlipped⟩ := Assignment.flip_eq hRange
  have hDone : ∀ id c, p.constraints[id]? = some c → id ∉ ids →
      State.Settled { s with assignment := a, flips := s.flips + 1 } p a id c := by
    intro id c hc hId
    have hOther : v ∉ p.propositionsOf c := fun hv => hId ((hMentioning id).mpr ⟨c, hc, hv⟩)
    have hSettled := settled_flipped hp h hFlipped hc hOther
    exact ⟨⟨hSettled.violated, hSettled.counted, hSettled.routed⟩, hSettled.follows⟩
  have hWaiting : ∀ id c, p.constraints[id]? = some c → id ∈ ids →
      State.Records { s with assignment := a, flips := s.flips + 1 } p s.assignment id c := by
    intro id c hc _
    have hSettled := h.settled id c hc
    exact ⟨hSettled.violated, hSettled.counted, hSettled.routed⟩
  have hFollowing : State.Following { s with assignment := a, flips := s.flips + 1 } p
      s.assignment ids :=
    { assignment := hFlipped.size.trans h.assignment
      violated := h.violated
      marks := h.marks
      graphs := h.graphs
      done := hDone
      waiting := hWaiting
      forests := fun id g demand hc => Or.inl ((h.settled id _ hc).follows g demand rfl) }
  rw [turnOver, ends_bind, ends_get, ends_bind]
  apply ends_of hFlip
  exact ⟨hFlipped.self.symm, hFlipped, hFollowing.setTally _, rfl⟩

/-- A flip succeeds where the record is right, turns over one proposition, and leaves
the record right. A property of the constraints that were told holds afterwards if it
holds when the proposition was turned over, and telling and questions keep it. -/
theorem ends_flip_along {Q : List Nat → State → Prop} (hp : p.WellFormed) (h : s.Tracks p)
    (hv : v ≤ p.propositionCount)
    (hTurned : ∀ a, s.assignment.Flipped v a → Q [] (overturned s a))
    (hTell : ∀ done id todo c s₁, s₁.Telling p s.assignment v id c todo → Q done s₁ →
      Ends (tell p v (s₁.assignment.isTrue v) id) s₁ (fun _ => Q (id :: done)) fun _ _ => True)
    (hAsk : ∀ done s₁ s₂, s₁.Redirected s₂ → Q done s₁ → Q done s₂) :
    Ends (flip p v) s (fun _ s' => (s'.Tracks p ∧ s.assignment.Flipped v s'.assignment)
      ∧ ∃ done, (∀ id, id ∈ done ↔ ∃ c, p.constraints[id]? = some c ∧ v ∈ p.propositionsOf c)
        ∧ Q done s') Never := by
  obtain ⟨ids, hIds, hAscending, hMentioning⟩ := hp.mentioning v hv
  rw [flip]
  apply (ends_turnOver hp h hv hMentioning).bind
  rintro value s₁ ⟨rfl, hFlipped, hFollowing, hSame₁⟩
  rw [ends_bind]
  apply ends_of hIds
  have hNodup : (ids ++ []).Nodup := by
    rw [List.append_nil]
    exact hAscending.imp Nat.ne_of_lt
  have hStart : s₁.Following p s.assignment (ids ++ []) := by rwa [List.append_nil]
  refine (ends_tellThese hp hFlipped ids [] hNodup
    (fun id hId => (hMentioning id).mp hId) hStart (hSame₁ ▸ hTurned _ hFlipped) hTell).bind ?_
  rintro _ s₂ ⟨hTold, hSame, hQ⟩
  refine (ends_checkAll hp ids (fun id hId => ?_) hTold.tracks).weaken ?_
  · obtain ⟨c, hc, _⟩ := (hMentioning id).mp hId
    exact ⟨c, hc⟩
  · intro _ s₃ hRedirected
    refine ⟨⟨hTold.tracks.redirected hRedirected, by rwa [hRedirected.assignment, hSame]⟩,
      ids.reverse, fun id => ?_, hAsk _ _ _ hRedirected hQ⟩
    rw [List.mem_reverse, hMentioning]

/-- A flip succeeds where the record is right, turns over one proposition, and
leaves the record right. -/
theorem ends_flip (hp : p.WellFormed) (h : s.Tracks p) (hv : v ≤ p.propositionCount) :
    Ends (flip p v) s
      (fun _ s' => s'.Tracks p ∧ s.assignment.Flipped v s'.assignment) Never := by
  refine (ends_flip_along (Q := fun _ _ => True) hp h hv (fun _ _ => trivial) ?_
    fun _ _ _ _ _ => trivial).weaken fun _ _ hEnd => hEnd.1
  intro done id todo c s₁ hTelling _
  exact (ends_tell hp hTelling).weaken fun _ _ _ => trivial

end Walk
end LocalRepair
