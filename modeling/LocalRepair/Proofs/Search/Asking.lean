import LocalRepair.Proofs.Search.Answers
import LocalRepair.Proofs.Search.Reached

/-!
# Asking changes no answer

Four kinds of questions are put to a search: whether a constraint holds, what a flip would
do to it, whether it favours a flip, and what a flip would do on the whole. To ask is
a step with a state all the same. It may compress paths in a forest, and it would rebuild
a forest that is stale, and then the structures that later questions meet, and the number
of builds, would depend on what was asked before.

In a reached state no forest that a constraint speaks of is stale. So a question
redirects parents to their roots and does nothing else, and that is invisible to all other
questions. They may be asked in any order, or not at all.

## Main results

* `Question.exists_inquires`: any question comes to an outcome, and to the same one after
  others.
* `redirected_asked`: what many questions leave behind.
* `asking_changes_no_answer`.
-/

namespace LocalRepair

open Search State

variable {α : Type} {p : Problem} {s s' : State}

/-! ## Questions -/

/-- What can be asked about a constraint, or about a proposition that is to take a
value. -/
inductive Question where
  | holdsNow (id : Nat)
  | risk (id v : Nat) (value : Bool)
  | favours (id v : Nat)
  | netRisk (v : Nat) (value : Bool)

namespace Question

/-- The answers to a question. A risk is none where the proposition does not matter. -/
abbrev Answer : Question → Type
  | holdsNow _ => Bool
  | risk _ _ _ => Option Int
  | favours _ _ => Bool
  | netRisk _ _ => Int

/-- The question as a step. -/
def ask (p : Problem) : (q : Question) → Search q.Answer
  | holdsNow id => do (← Search.of (p.constraint id)).holdsNow id
  | risk id v value => do (← Search.of (p.constraint id)).risk id v value
  | favours id v => do (← Search.of (p.constraint id)).favours id v
  | netRisk v value => p.netRisk v value

/-- The question is about a constraint and a proposition that exist. -/
def Sensible (p : Problem) : Question → Prop
  | holdsNow id => id < p.constraints.size
  | risk id _ _ => id < p.constraints.size
  | favours id v => id < p.constraints.size ∧ Named p.propositionCount v
  | netRisk v _ => Named p.propositionCount v

/-- A question about a constraint, if there is such a constraint. -/
theorem exists_inquires_constraint {ask : Constraint → Search α} (id : Nat)
    (h : ∀ c, p.constraints[id]? = some c → ∃ o, Inquires (ask c) s o) :
    ∃ o, Inquires (Search.of (p.constraint id) >>= ask) s o := by
  cases hc : p.constraint id with
  | error e => exact ⟨.error e, (Inquires.of s (.error e)).bind_error⟩
  | ok c =>
      obtain ⟨o, ho⟩ := h c (entryAt_eq_ok_iff.mp hc)
      exact ⟨o, (Inquires.of s (.ok c)).bind ho⟩

/-- Where the record is right, any question comes to an outcome. -/
theorem exists_inquires (hp : p.WellFormed) (h : s.Tracks p) (q : Question) :
    ∃ o, Inquires (q.ask p) s o := by
  cases q with
  | holdsNow id =>
      apply exists_inquires_constraint id
      intro c hc
      obtain ⟨b, _, hHolds⟩ := c.inquires_holdsNow hp h hc
      exact ⟨_, hHolds⟩
  | risk id v value =>
      exact exists_inquires_constraint id fun c hc => ⟨_, c.inquires_riskIn hp h hc v value⟩
  | favours id v =>
      exact exists_inquires_constraint id fun c hc => c.exists_inquires_favours hp h hc v
  | netRisk v value => exact Problem.exists_inquires_netRisk hp h v value

/-- A sensible question about a constraint is put to it. -/
theorem inquires_constraint {ask : Constraint → Search α} {id : Nat} (hId : id < p.constraints.size)
    (h : ∀ c, p.constraints[id]? = some c → ∃ answer, Inquires (ask c) s (.ok answer)) :
    ∃ answer, Inquires (Search.of (p.constraint id) >>= ask) s (.ok answer) := by
  have hc := Array.getElem?_eq_getElem hId
  obtain ⟨answer, hAnswer⟩ := h _ hc
  have hLookup := Inquires.of s (p.constraint id)
  rw [show p.constraint id = .ok _ from entryAt_eq_ok_iff.mpr hc] at hLookup ⊢
  exact ⟨answer, hLookup.bind hAnswer⟩

/-- Where the record is right, a sensible question is answered. -/
theorem exists_answer (hp : p.WellFormed) (h : s.Tracks p) {q : Question} (hq : q.Sensible p) :
    ∃ answer, Inquires (q.ask p) s (.ok answer) := by
  cases q with
  | holdsNow id =>
      apply inquires_constraint hq
      intro c hc
      obtain ⟨b, _, hHolds⟩ := c.inquires_holdsNow hp h hc
      exact ⟨b, hHolds⟩
  | risk id v value =>
      exact inquires_constraint hq fun c hc => ⟨_, c.inquires_riskIn hp h hc v value⟩
  | favours id v =>
      obtain ⟨hId, hv⟩ := hq
      exact inquires_constraint hId fun c hc =>
        ⟨_, c.inquires_favouredIn hp h hc (h.lt_of_named hv)⟩
  | netRisk v value =>
      obtain ⟨ids, hIds, _, hMentioning⟩ := hp.mentioning v hq.2
      refine ⟨_, Problem.inquires_netRisk hIds value
        (fun id => ((p.constraints[id]?.bind fun c => c.riskIn s id v value).getD 0)) ?_⟩
      intro id hId
      obtain ⟨c, hc, _⟩ := (hMentioning id).mp hId
      exact ⟨c, _, hc, c.inquires_riskIn hp h hc v value, by rw [hc, Option.bind_some]⟩

end Question

/-! ## Many questions -/

/-- What a step comes to, without the state that it leaves behind. -/
def outcomeOf {ε σ : Type} (x : EStateM ε σ α) (s : σ) : Except ε α :=
  match x s with
  | .ok a _ => .ok a
  | .error e _ => .error e

/-- The state after some questions, any of which may have failed. -/
def asked (p : Problem) (s : State) (questions : List Question) : State :=
  questions.foldl (fun s q => leftBy (q.ask p) s) s

/-- A question after others: what it comes to, and what it leaves behind. -/
theorem Inquires.after {x : Search α} {o : Except Fault α} (h : Inquires x s o)
    (hs' : Redirected s s') : outcomeOf x s' = o ∧ Redirected s (leftBy x s') := by
  have hEnds := h s' hs'
  unfold Ends at hEnds
  unfold outcomeOf leftBy
  split at hEnds
  · rename_i hStep
    rw [hStep]
    exact ⟨hEnds.1.symm, hEnds.2⟩
  · rename_i hStep
    rw [hStep]
    exact ⟨hEnds.1.symm, hEnds.2⟩

/-- Where the record is right, any questions redirect parents at most. -/
theorem redirected_asked (hp : p.WellFormed) (h : s.Tracks p) (questions : List Question) :
    Redirected s (asked p s questions) := by
  -- Every state on the way is compared with the first one, where the record is right.
  have hAll : ∀ (questions : List Question) (s' : State), Redirected s s' →
      Redirected s (asked p s' questions) := by
    intro questions
    induction questions with
    | nil => exact fun _ hs' => hs'
    | cons q questions ih =>
        intro s' hs'
        obtain ⟨o, ho⟩ := q.exists_inquires hp h
        exact ih _ (ho.after hs').2
  exact hAll questions s (.refl s)

/-- The same graph, with a forest that differs in its parents only. Each vertex has the
root that it had, and a parent that differs is that root. -/
def TrackedGraph.Compressed (t t' : TrackedGraph) : Prop :=
  ∃ f : Forest t.graph, t' = ⟨t.graph, f⟩ ∧ f = { t.forest with parent := f.parent }
    ∧ ∀ v, f.root v = t.forest.root v ∧ (f.up v = t.forest.up v ∨ f.up v = t.forest.root v)

theorem TrackedGraph.Redirected.compressed {t t' : TrackedGraph} (h : t.Redirected t') :
    t.Compressed t' := by
  cases h with
  | same => exact ⟨t.forest, rfl, rfl, fun v => ⟨rfl, Or.inl rfl⟩⟩
  | parents h => exact ⟨_, rfl, h.onlyParents, fun v => ⟨h.root v, h.parent v⟩⟩

/-! ## Asking changes no answer -/

/-- In a reached state, any questions leave the assignment, the violated constraints, what
is kept for each constraint, the generator and the counters as they are, and forests are
compressed at most. Every forest that a constraint speaks of is built, and stays so without
another build. And any question comes to what it would have come to at once, which is an
answer if the question is a sensible one. -/
theorem asking_changes_no_answer (hp : p.Built) (h : Reached p s) (questions : List Question) :
    ((asked p s questions).assignment = s.assignment
        ∧ (asked p s questions).violated = s.violated
        ∧ (asked p s questions).marks = s.marks
        ∧ (asked p s questions).generator = s.generator
        ∧ (asked p s questions).flips = s.flips
        ∧ (asked p s questions).randomPicks = s.randomPicks
        ∧ (asked p s questions).tally = s.tally)
      ∧ (asked p s questions).forests.size = s.forests.size
      ∧ (∀ (g : Nat) (t : TrackedGraph), s.forests[g]? = some t →
        ∃ t', (asked p s questions).forests[g]? = some t' ∧ t.Compressed t')
      ∧ (∀ (id g : Nat) (demand : Connectivity Nat), p.constraints[id]? = some (.graph g demand) →
        ∃ t t' : TrackedGraph, s.forests[g]? = some t
          ∧ (asked p s questions).forests[g]? = some t' ∧ t.forest.built = true
          ∧ t'.forest.built = true ∧ t'.forest.builds = t.forest.builds)
      ∧ ∀ q : Question, outcomeOf (q.ask p) (asked p s questions) = outcomeOf (q.ask p) s
        ∧ (q.Sensible p → ∃ answer, outcomeOf (q.ask p) s = .ok answer) := by
  have hWellFormed := hp.wellFormed
  have hTracks := h.tracks hWellFormed
  have hRedirected := redirected_asked hWellFormed hTracks questions
  have hForests : ∀ (g : Nat) (t : TrackedGraph), s.forests[g]? = some t →
      ∃ t', (asked p s questions).forests[g]? = some t' ∧ t.Compressed t' := by
    intro g t hForest
    obtain ⟨t', hForest', hParents⟩ := hRedirected.forests g t hForest
    exact ⟨t', hForest', hParents.compressed⟩
  refine ⟨?_, hRedirected.size, hForests, ?_, ?_⟩
  · rw [hRedirected.onlyForests]
    exact ⟨rfl, rfl, rfl, rfl, rfl, rfl, rfl⟩
  · intro id g demand hc
    obtain ⟨t, _, hForest, _, _, hUpToDate⟩ := Constraint.exists_upToDate hWellFormed hTracks hc
    obtain ⟨t', hForest', f, rfl, hOnlyParents, _⟩ := hForests g t hForest
    refine ⟨t, _, hForest, hForest', hUpToDate.built, ?_, ?_⟩
    · show f.built = true
      rw [hOnlyParents]
      exact hUpToDate.built
    · show f.builds = _
      rw [hOnlyParents]
  · intro q
    obtain ⟨o, ho⟩ := q.exists_inquires hWellFormed hTracks
    refine ⟨?_, fun hSensible => ?_⟩
    · rw [(ho.after hRedirected).1, (ho.after (.refl s)).1]
    · obtain ⟨answer, hAnswer⟩ := q.exists_answer hWellFormed hTracks hSensible
      exact ⟨answer, (hAnswer.after (.refl s)).1⟩

/-- Once the small problem was evaluated, the pair can be asked about after the whole
graph, or before. -/
theorem asking_changes_no_answer_small :
    ∃ s answer, Reached .small s
      ∧ outcomeOf ((Question.risk 2 1 true).ask .small) s = .ok answer
      ∧ outcomeOf ((Question.risk 2 1 true).ask .small)
          (asked .small s [.holdsNow 1, .netRisk 3 true, .favours 2 3]) = .ok answer
      ∧ (asked .small s [.holdsNow 1, .netRisk 3 true, .favours 2 3]).marks = s.marks := by
  obtain ⟨s, hReached, _⟩ := exists_reached Problem.built_small.wellFormed
  obtain ⟨⟨_, _, hMarks, _⟩, _, _, _, hAnswers⟩ := asking_changes_no_answer Problem.built_small
    hReached [.holdsNow 1, .netRisk 3 true, .favours 2 3]
  obtain ⟨hSame, hAnswered⟩ := hAnswers (.risk 2 1 true)
  obtain ⟨answer, hAnswer⟩ := hAnswered (by decide : 2 < Problem.small.constraints.size)
  exact ⟨s, answer, hReached, hAnswer, hSame.trans hAnswer, hMarks⟩

end LocalRepair
