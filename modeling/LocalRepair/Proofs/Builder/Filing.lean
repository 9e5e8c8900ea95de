import LocalRepair.Proofs.Builder.Contradictions
import LocalRepair.Proofs.Forest.Course

/-!
# Equal clauses are stored once

Two tables have to stay aligned: the constraints in the order in which they were taken in, and
the clauses with their numbers, which are looked up before a clause is stored. Between two
clauses there may be demands, which get numbers as well but are not looked up, and requests
that are refused. `Filed` says that a clause is found under a number exactly if it is stored there,
so that what is looked up is never stale, never missing, and never there twice.

Constraints are only ever added at the end. Hence a number that was answered once goes on
naming the same constraint, and whether two clauses have one number can be read off the
finished problem.

## Main results

* `Filed.store`, `Filed.push_graph`: taking in a constraint keeps the clauses filed.
* `ends_numbered`: what a request is answered with.
* `grown_run`: the clauses are filed after any requests, and constraints keep their numbers.
* `Filed.answers_again`: the answer to a clause that is stored.
* `equal_clauses_share_a_number`.
-/

namespace LocalRepair

namespace Builder

variable {α : Type} {b b' : Builder} {c : Clause} {id : Nat}

/-! ## Filed clauses -/

/-- A stored clause is on propositions of the builder, and a clause is looked up under a
number exactly if it is stored there. -/
structure Filed (b : Builder) : Prop where
  named : ∀ c, .clause c ∈ b.constraints → ∀ l ∈ c.literals, Named b.names.size l.proposition
  lookup_eq_iff : ∀ c id, b.clauseIds.lookup c = some id ↔ b.constraints[id]? = some (.clause c)

/-- Looking for one constraint, another one at the end does not matter. -/
theorem getElem?_push_of_ne {cs : Array Constraint} {d e : Constraint} (h : d ≠ e) (id : Nat) :
    (cs.push d)[id]? = some e ↔ cs[id]? = some e := by
  rw [Array.getElem?_push]
  by_cases hLast : id = cs.size
  · simp [hLast, h]
  · simp [hLast]

namespace Filed

/-- Only the names, the constraints and the clauses that are looked up matter, and there may
be more names. -/
theorem of_tables (h : b.Filed) {names : Array String} (hNames : b.names.size ≤ names.size)
    (priors : Array (Option Float)) (decisions : List Decision) (graphs : Array Graph) :
    Filed { b with names, priors, decisions, graphs } :=
  ⟨fun c hc l hl => (h.named c hc l hl).mono hNames, h.lookup_eq_iff⟩

/-- A demand can be taken in, and is not looked up. -/
theorem push_graph (h : b.Filed) (graph : Nat) (d : Connectivity Nat) :
    Filed { b with constraints := b.constraints.push (.graph graph d) } := by
  refine ⟨fun c hc => h.named c (by simpa using hc), fun c id => ?_⟩
  rw [getElem?_push_of_ne (by simp)]
  exact h.lookup_eq_iff c id

/-- A clause that is not found can be stored under the next number. -/
theorem store (h : b.Filed) (hNamed : ∀ l ∈ c.literals, Named b.names.size l.proposition)
    (hNew : b.clauseIds.lookup c = none) :
    Filed { b with
      clauseIds := (c, b.constraints.size) :: b.clauseIds
      constraints := b.constraints.push (.clause c) } := by
  refine ⟨fun k hk => ?_, fun k id => ?_⟩
  · rcases Array.mem_push.mp hk with hOld | hSame
    · exact h.named k hOld
    · cases hSame
      exact hNamed
  · by_cases hSame : c = k
    · subst hSame
      have hAbsent : b.constraints[id]? ≠ some (.clause c) := by
        rw [Ne, ← h.lookup_eq_iff, hNew]
        simp
      rw [List.lookup_cons_self, Array.getElem?_push]
      by_cases hLast : id = b.constraints.size
      · simp [hLast]
      · simp [hLast, hAbsent, Ne.symm hLast]
    · have hOther : (k == c) = false := by simpa using Ne.symm hSame
      rw [List.lookup_cons, hOther, getElem?_push_of_ne (by simpa using hSame)]
      exact h.lookup_eq_iff k id

/-- Equal clauses have one number. -/
theorem number_unique (h : b.Filed) {id' : Nat} (hc : b.constraints[id]? = some (.clause c))
    (hc' : b.constraints[id']? = some (.clause c)) : id = id' := by
  rw [← h.lookup_eq_iff] at hc hc'
  exact Option.some.inj (hc.symm.trans hc')

end Filed

theorem filed_empty : empty.Filed :=
  ⟨by simp [empty], by simp [empty]⟩

/-- The clauses of the later builder are filed, and every constraint has kept its number. -/
structure Grown (b b' : Builder) : Prop where
  filed : b'.Filed
  stored : ∀ (id : Nat) (d : Constraint), b.constraints[id]? = some d →
    b'.constraints[id]? = some d

theorem Filed.grown (h : b.Filed) : b.Grown b := ⟨h, fun _ _ hStored => hStored⟩

theorem Grown.trans {b'' : Builder} (h : b.Grown b') (h' : b'.Grown b'') : b.Grown b'' :=
  ⟨h'.filed, fun id d hStored => h'.stored id d (h.stored id d hStored)⟩

/-! ## Steps that take in a constraint -/

/-- The step answers with the number under which the constraint that is asked for is stored,
and keeps the clauses filed and the constraints at their numbers. Or it is refused, and
changes nothing. -/
def Answers (x : Build Nat) (b : Builder) (wanted : Option Constraint) : Prop :=
  Ends x b (fun id b' => b.Grown b' ∧ b'.constraints[id]? = wanted) fun _ b' => b' = b

/-- A check changes nothing, so what follows it is answered. -/
theorem Checks.answers {x : Build α} {next : α → Build Nat} {found : α → Prop}
    {wanted : Option Constraint} (h : Checks x b found)
    (hNext : ∀ a, found a → Answers (next a) b wanted) : Answers (x >>= next) b wanted :=
  h.andThen (fun _ => rfl) hNext

/-- A clause that is not found is stored under the next number, or opposed by a note. -/
theorem answers_storeClause (h : b.Filed)
    (hNamed : ∀ l ∈ c.literals, Named b.names.size l.proposition)
    (hNew : b.clauseIds.lookup c = none) : Answers (storeClause c) b (some (.clause c)) := by
  have hStored : ∀ decisions, b.Grown { b with
      clauseIds := (c, b.constraints.size) :: b.clauseIds
      decisions
      constraints := b.constraints.push (.clause c) } := by
    intro decisions
    exact ⟨(h.store hNamed hNew).of_tables le_rfl _ decisions _,
      fun _ _ hOld => getElem?_push_of_some hOld _⟩
  rw [Answers, storeClause, ends_bind, ends_get]
  cases c.decided? with
  | none => exact ⟨hStored _, Array.getElem?_push_size⟩
  | some l =>
      simp only [ends_bind, ends_get]
      cases b.decisionOn? l.proposition with
      | none => exact ⟨hStored _, Array.getElem?_push_size⟩
      | some earlier =>
          exact ends_ite (fun _ => rfl) fun _ => ⟨hStored _, Array.getElem?_push_size⟩

theorem answers_addClause (h : b.Filed) (c : Clause) :
    Answers (addClause c) b (some (.clause c)) := by
  apply (checks_all Literal.proposition c.literals b).answers
  intro _ hNamed
  rw [Answers, ends_bind, ends_get]
  cases hLookup : b.clauseIds.lookup c with
  | some id => exact ⟨h.grown, (h.lookup_eq_iff c id).mp hLookup⟩
  | none => exact ends_ite (fun _ => rfl) fun _ => answers_storeClause h hNamed hLookup

theorem answers_addConstraint (h : b.Filed) (d : Constraint) :
    Answers (addConstraint d) b (some d) := by
  cases d with
  | clause c => exact answers_addClause h c
  | graph graph d =>
      rw [Answers, addConstraint, ends_bind, ends_get]
      apply (checks_all (fun v => v) _ b).answers
      intro _ _
      exact ⟨⟨h.push_graph graph d, fun _ _ hOld => getElem?_push_of_some hOld _⟩,
        Array.getElem?_push_size⟩

theorem answers_demand (h : b.Filed) (graph : Nat) (d : Connectivity Nat) :
    Answers (demand graph d) b (some (.graph graph d)) := by
  apply (checks_graph graph b).answers
  intro g _
  apply (checks_outcome (d.check graph g) b).answers
  intro _ _
  exact answers_addConstraint h (.graph graph d)

theorem answers_boundEdges (h : b.Filed) (graph min max : Nat) :
    Answers (boundEdges graph min max) b (b.edgeBound? graph min max) := by
  apply (checks_graph graph b).answers
  intro g hGraph
  rw [edgeBound?, hGraph]
  exact answers_addClause h _

/-! ## Steps that take in no constraint -/

theorem grown_newProposition (b : Builder) (name : String) :
    Keeps (newProposition name) b.Grown :=
  fun _ h => ⟨h.filed.of_tables (by simp) _ _ _, h.stored⟩

theorem grown_setPrior (b : Builder) (v : Nat) (p : Float) : Keeps (setPrior v p) b.Grown := by
  intro b₁ h
  apply (checks_proposition v b₁).andThen fun _ => h
  intro _ _
  exact ends_ite (fun _ => ⟨h.filed.of_tables le_rfl _ _ _, h.stored⟩) fun _ => h

theorem grown_addGraph (b : Builder) (g : Graph) : Keeps (addGraph g) b.Grown := by
  intro b₁ h
  apply (checks_all (fun v => v) g.propositions b₁).andThen fun _ => h
  intro _ _
  exact ⟨h.filed.of_tables le_rfl _ _ _, h.stored⟩

/-! ## Answers to requests -/

/-- The request as a step that answers with the number of a constraint, if it asks for
one. -/
def Request.numbered : Request → Build (Option Nat)
  | addClause c => do return some (← Builder.addClause c)
  | addConstraint c => do return some (← Builder.addConstraint c)
  | require l => do return some (← Builder.require l)
  | demand graph d => do return some (← Builder.demand graph d)
  | boundEdges graph min max => do return some (← Builder.boundEdges graph min max)
  | request => do
    request.perform
    return none

/-- What is answered makes no difference for what the request leaves behind. -/
theorem leftBy_numbered (request : Request) (b : Builder) :
    leftBy request.numbered b = leftBy request.perform b := by
  have hNumber : ∀ x : Build Nat, leftBy (x >>= fun id => pure (some id)) b
      = leftBy (x >>= fun _ => pure ()) b :=
    fun x => (leftBy_answer x _ b).trans (leftBy_answer x _ b).symm
  cases request with
  | addClause c => exact hNumber _
  | addConstraint c => exact hNumber _
  | require l => exact hNumber _
  | demand graph d => exact hNumber _
  | boundEdges graph min max => exact hNumber _
  | newProposition name => exact leftBy_answer _ _ b
  | newPropositions stem count => exact leftBy_answer _ _ b
  | setPrior v p => exact leftBy_answer _ _ b
  | completeGraph vertexCount => exact leftBy_answer _ _ b
  | addGraph g => exact leftBy_answer _ _ b

/-- The constraint under a number that was answered. -/
def constraintOf? (b : Builder) (answer : Option Nat) : Option Constraint :=
  answer.bind fun id => b.constraints[id]?

/-- A request is answered with the number of the constraint that it asks for, or refused. -/
theorem ends_numbered (h : b.Filed) (request : Request) :
    Ends request.numbered b
      (fun answer b' => b.Grown b' ∧ b'.constraintOf? answer = request.asked b)
      fun _ b' => b' = b := by
  have hNumber : ∀ {x : Build Nat} {wanted : Option Constraint}, Answers x b wanted →
      Ends (x >>= fun id => pure (some id)) b
        (fun answer b' => b.Grown b' ∧ b'.constraintOf? answer = wanted) fun _ b' => b' = b :=
    fun hAnswers => Ends.andThen hAnswers fun _ _ hEnd => hEnd
  have hNone : ∀ {r : Request}, Keeps r.perform b.Grown →
      Ends (r.perform >>= fun _ => pure none) b
        (fun answer b' => b.Grown b' ∧ b'.constraintOf? answer = none) fun _ b' => b' = b := by
    intro r hKeeps
    have hEnd := Ends.and (hKeeps b h.grown) (atomic_perform r b)
    exact (hEnd.mono (fun _ _ hBoth => hBoth.1) fun _ _ hBoth => hBoth.2).andThen
      fun _ _ hGrown => ⟨hGrown, rfl⟩
  cases request with
  | addClause c => exact hNumber (answers_addClause h c)
  | addConstraint c => exact hNumber (answers_addConstraint h c)
  | require l => exact hNumber (answers_addClause h (.unit l))
  | demand graph d => exact hNumber (answers_demand h graph d)
  | boundEdges graph min max => exact hNumber (answers_boundEdges h graph min max)
  | newProposition name => exact hNone ((grown_newProposition b name).bind fun _ => .pure _)
  | newPropositions stem count =>
      have hKeeps := keeps_newPropositions_of (grown_newProposition b) stem count
      exact hNone (hKeeps.bind fun _ => .pure _)
  | setPrior v p => exact hNone (grown_setPrior b v p)
  | completeGraph vertexCount =>
      have hKeeps := keeps_completeGraph_of (grown_newProposition b) vertexCount
      exact hNone (hKeeps.bind fun _ => .pure _)
  | addGraph g => exact hNone ((grown_addGraph b g).bind fun _ => .pure _)

/-- A request keeps the clauses filed and the constraints at their numbers, also when it is
refused. -/
theorem grown_leftBy (h : b.Filed) (request : Request) :
    b.Grown (leftBy request.perform b) := by
  rw [← leftBy_numbered]
  apply Ends.leftBy
  refine (ends_numbered h request).mono (fun _ _ hEnd => hEnd.1) ?_
  rintro _ _ rfl
  exact h.grown

/-- So do any requests. -/
theorem grown_run (requests : List Request) :
    ∀ b : Builder, b.Filed → b.Grown (b.run requests) := by
  induction requests with
  | nil => exact fun b h => h.grown
  | cons request requests ih =>
      intro b h
      have hFirst := grown_leftBy h request
      exact hFirst.trans (ih _ hFirst.filed)

theorem filed_after (requests : List Request) : (after requests).Filed :=
  (grown_run requests empty filed_empty).filed

/-- Requests one after the other. -/
theorem after_append (requests later : List Request) :
    after (requests ++ later) = (after requests).run later :=
  List.foldl_append

/-- Between two moments of a course of requests constraints keep their numbers. -/
theorem grown_take (requests : List Request) {count later : Nat} (hLater : count ≤ later) :
    (after (requests.take count)).Grown (after (requests.take later)) := by
  have hSplit : requests.take later
      = requests.take count ++ (requests.take later).drop count := by
    have hFront : (requests.take later).take count = requests.take count := by
      rw [List.take_take, Nat.min_eq_left hLater]
    rw [← hFront, List.take_append_drop]
  rw [hSplit, after_append]
  exact grown_run _ _ (filed_after _)

/-! ## Clauses that are stored -/

/-- A clause that is stored is answered with its number, and nothing changes. -/
theorem Filed.addClause_again (h : b.Filed) (hStored : b.constraints[id]? = some (.clause c)) :
    Ends (addClause c) b (fun n b' => n = id ∧ b' = b) Never := by
  apply (ends_checkAll Literal.proposition (h.named c (Array.mem_of_getElem? hStored))).bind
  intro _ b' hSame
  rw [hSame, ends_bind, ends_get, (h.lookup_eq_iff c id).mpr hStored]
  exact ⟨rfl, rfl⟩

/-- So it is whichever request asks for it. -/
theorem Filed.answers_again (h : b.Filed) (hStored : b.constraints[id]? = some (.clause c))
    {request : Request} (hAsked : request.asked b = some (.clause c)) :
    request.numbered b = .ok (some id) b := by
  have hAgain : ∀ {x : Build Nat}, Ends x b (fun n b' => n = id ∧ b' = b) Never →
      (x >>= fun id => pure (some id)) b = .ok (some id) b := by
    intro x hEnd
    obtain ⟨_, _, hStep, rfl, rfl⟩ := hEnd.exists_ok
    exact bind_of_ok hStep
  cases request with
  | addClause k =>
      cases hAsked
      exact hAgain (h.addClause_again hStored)
  | addConstraint d =>
      cases hAsked
      exact hAgain (h.addClause_again hStored)
  | require l =>
      cases hAsked
      exact hAgain (h.addClause_again hStored)
  | boundEdges graph min max =>
      have hBound : b.edgeBound? graph min max = some (.clause c) := hAsked
      rw [edgeBound?, Option.map_eq_some_iff] at hBound
      obtain ⟨g, hGraph, hSame⟩ := hBound
      cases hSame
      apply hAgain
      rw [boundEdges, ends_bind, Builder.graph, ends_bind, ends_get, hGraph]
      exact h.addClause_again hStored
  | demand graph d => cases hAsked
  | newProposition name => cases hAsked
  | newPropositions stem count => cases hAsked
  | setPrior v p => cases hAsked
  | completeGraph vertexCount => cases hAsked
  | addGraph g => cases hAsked

/-! ## Numbers that were answered -/

/-- Among some requests the one at a place asks for the constraint, and is answered with the
number. -/
def Answered (requests : List Request) (place : Nat) (d : Constraint) (id : Nat) : Prop :=
  ∃ request b', requests[place]? = some request
    ∧ request.asked (after (requests.take place)) = some d
    ∧ request.numbered (after (requests.take place)) = .ok (some id) b'

/-- From then on the number is that of the constraint. -/
theorem Answered.stored {requests : List Request} {place count : Nat} {d : Constraint}
    (h : Answered requests place d id) (hLater : place < count) :
    (after (requests.take count)).constraints[id]? = some d := by
  obtain ⟨request, b', hRequest, hAsked, hAnswer⟩ := h
  obtain ⟨hGrown, hStored⟩ := (ends_numbered (filed_after _) request).of_ok hAnswer
  have hThen : after (requests.take (place + 1)) = b' := by
    rw [List.take_add_one, hRequest, after_append]
    show leftBy request.perform _ = b'
    rw [← leftBy_numbered, leftBy, hAnswer]
  have hKept := grown_take requests (Nat.succ_le_of_lt hLater)
  rw [hThen] at hKept
  exact hKept.stored id d (hStored.trans hAsked)

/-- In particular it is that of the constraint in the end. -/
theorem Answered.stored_after {requests : List Request} {place : Nat} {d : Constraint}
    (h : Answered requests place d id) : (after requests).constraints[id]? = some d := by
  have hPlace : place < requests.length := by
    obtain ⟨_, _, hRequest, _⟩ := h
    exact (List.getElem?_eq_some_iff.mp hRequest).1
  have hEnd := h.stored hPlace
  rwa [List.take_length] at hEnd

end Builder

/-! ## Equal clauses share a number -/

/-- Whatever a builder is asked for: two clauses that are granted are answered with one number
exactly if they have the same literals in the same order, the same lower end, and the same
upper end, as it is lowered when a clause is made. The constraint under a number that was
answered is the one that was asked for, from then on and in the problem that is made. No two
clauses of the problem are equal. And a clause that was granted is granted again, whichever
request asks for it, with the same number, and changes nothing. -/
theorem equal_clauses_share_a_number (requests : List Builder.Request) :
    (∀ (place place' : Nat) (literals literals' : List Literal) (min min' max max' id id' : Nat),
        Builder.Answered requests place (.clause (.window literals min max)) id →
        Builder.Answered requests place' (.clause (.window literals' min' max')) id' →
        (id = id' ↔ literals = literals' ∧ min = min'
          ∧ (Clause.window literals min max).max = (Clause.window literals' min' max').max))
      ∧ (∀ (place : Nat) (d : Constraint) (id : Nat), Builder.Answered requests place d id →
        (∀ count, place < count →
          (Builder.after (requests.take count)).constraints[id]? = some d)
        ∧ (Builder.after requests).toProblem.constraints[id]? = some d)
      ∧ (∀ (c : Clause) (id id' : Nat),
        (Builder.after requests).toProblem.constraints[id]? = some (.clause c) →
        (Builder.after requests).toProblem.constraints[id']? = some (.clause c) → id = id')
      ∧ ∀ (place : Nat) (c : Clause) (id : Nat) (request : Builder.Request),
        Builder.Answered requests place (.clause c) id →
        request.asked (.after requests) = some (.clause c) →
        request.numbered (.after requests) = .ok (some id) (.after requests) := by
  have hFiled := Builder.filed_after requests
  refine ⟨fun place place' literals literals' min min' max max' id id' h h' => ?_,
    fun place d id h => ⟨fun count => h.stored, h.stored_after⟩,
    fun c id id' => hFiled.number_unique,
    fun place c id request h hAsked => hFiled.answers_again h.stored_after hAsked⟩
  constructor
  · rintro rfl
    have hSame := h.stored_after.symm.trans h'.stored_after
    have hClauses : Clause.window literals min max = .window literals' min' max' := by
      simpa using hSame
    exact ⟨congrArg Clause.literals hClauses, congrArg Clause.min hClauses,
      congrArg Clause.max hClauses⟩
  · rintro ⟨rfl, rfl, hMax⟩
    have hSame : Clause.window literals min max = .window literals min max' :=
      Clause.ext rfl rfl hMax
    rw [hSame] at h
    exact hFiled.number_unique h.stored_after h'.stored_after

/-- Clauses on five propositions and demands on a graph whose edges they back; one request is
refused. -/
def Builder.mixedRequests : List Builder.Request :=
  [.newPropositions "x" 5,
    .addGraph Forest.triangle,
    .addClause (.window [⟨1⟩, ⟨2⟩, ⟨3⟩, ⟨4⟩, ⟨5⟩] 2 9),
    .require ⟨6⟩,
    .addConstraint (.graph 0 .whole),
    .addConstraint (.clause (.exactly [⟨1⟩, ⟨2⟩, ⟨3⟩, ⟨4⟩, ⟨5⟩] 2)),
    .boundEdges 0 2 7]

/-- The last request bounds the edges by what the first clause says, and is answered with its
number. The clause in between has another upper end and another number. -/
theorem equal_clauses_share_a_number_mixed :
    Builder.Answered Builder.mixedRequests 2
        (.clause (.window [⟨1⟩, ⟨2⟩, ⟨3⟩, ⟨4⟩, ⟨5⟩] 2 9)) 0
      ∧ Builder.Answered Builder.mixedRequests 5
        (.clause (.window [⟨1⟩, ⟨2⟩, ⟨3⟩, ⟨4⟩, ⟨5⟩] 2 2)) 2
      ∧ Builder.Answered Builder.mixedRequests 6
        (.clause (.window [⟨1⟩, ⟨2⟩, ⟨3⟩, ⟨4⟩, ⟨5⟩] 2 7)) 0
      ∧ (Clause.window [⟨1⟩, ⟨2⟩, ⟨3⟩, ⟨4⟩, ⟨5⟩] 2 9).max
        = (Clause.window [⟨1⟩, ⟨2⟩, ⟨3⟩, ⟨4⟩, ⟨5⟩] 2 7).max
      ∧ (Clause.window [⟨1⟩, ⟨2⟩, ⟨3⟩, ⟨4⟩, ⟨5⟩] 2 9).max
        ≠ (Clause.window [⟨1⟩, ⟨2⟩, ⟨3⟩, ⟨4⟩, ⟨5⟩] 2 2).max
      ∧ (Builder.after Builder.mixedRequests).toProblem.constraints[0]?
        = some (.clause (.window [⟨1⟩, ⟨2⟩, ⟨3⟩, ⟨4⟩, ⟨5⟩] 2 9))
      ∧ (Builder.Request.addConstraint (.clause (.atLeast [⟨1⟩, ⟨2⟩, ⟨3⟩, ⟨4⟩, ⟨5⟩] 2))).numbered
          (Builder.after Builder.mixedRequests)
        = .ok (some 0) (Builder.after Builder.mixedRequests) := by
  obtain ⟨hNumbers, hStored, _, hAgain⟩ := equal_clauses_share_a_number Builder.mixedRequests
  have hFirst : Builder.Answered Builder.mixedRequests 2
      (.clause (.window [⟨1⟩, ⟨2⟩, ⟨3⟩, ⟨4⟩, ⟨5⟩] 2 9)) 0 := ⟨_, _, rfl, rfl, rfl⟩
  have hOther : Builder.Answered Builder.mixedRequests 5
      (.clause (.window [⟨1⟩, ⟨2⟩, ⟨3⟩, ⟨4⟩, ⟨5⟩] 2 2)) 2 := ⟨_, _, rfl, rfl, rfl⟩
  have hLast : Builder.Answered Builder.mixedRequests 6
      (.clause (.window [⟨1⟩, ⟨2⟩, ⟨3⟩, ⟨4⟩, ⟨5⟩] 2 7)) 0 := ⟨_, _, rfl, rfl, rfl⟩
  have hSameEnd := ((hNumbers _ _ _ _ _ _ _ _ _ _ hFirst hLast).mp rfl).2.2
  have hOtherEnd : (Clause.window [⟨1⟩, ⟨2⟩, ⟨3⟩, ⟨4⟩, ⟨5⟩] 2 9).max
      ≠ (Clause.window [⟨1⟩, ⟨2⟩, ⟨3⟩, ⟨4⟩, ⟨5⟩] 2 2).max := by
    intro hEnds
    have hOneNumber := (hNumbers _ _ _ _ _ _ _ _ _ _ hFirst hOther).mpr ⟨rfl, rfl, hEnds⟩
    cases hOneNumber
  exact ⟨hFirst, hOther, hLast, hSameEnd, hOtherEnd, (hStored _ _ _ hFirst).2,
    hAgain _ _ _ _ hFirst rfl⟩

end LocalRepair
