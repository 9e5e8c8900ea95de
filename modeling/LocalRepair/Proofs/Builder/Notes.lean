import LocalRepair.Meaning
import LocalRepair.Proofs.Builder

/-!
# Notes on what was decided

A clause on one literal may decide it: it asks for the literal, or forbids the opposite one.
A builder notes what its clauses decide, one note for each proposition, and compares a new
clause with the notes and not with the clauses. The notes are made clause by clause, in any
order, with requests in between that are refused or answered with an earlier clause, and
they are never looked at again.

`Noted` says that they are right: what a stored clause decides is noted, and what is noted
was decided by a stored clause. So the notes tell exactly which clauses oppose a stored one.

## Main results

* `Clause.isTrue_of_decided`: what it means to decide a literal.
* `Builder.Noted.push_clause`: when a clause can be stored.
* `Builder.Opposes.excludes`: a clause that opposes others cannot be satisfied with them.
* `Builder.Noted.opposes_of_note`, `Builder.Noted.not_opposes_of_note`: the notes tell.
-/

namespace LocalRepair

variable {c : Clause} {l : Literal} {a : Assignment}

/-! ## What a clause decides -/

/-- The opposite of a literal on a proposition has the other sign. -/
theorem Literal.isPositive_negation (h : 0 < l.proposition) :
    l.negation.isPositive = !l.isPositive := by
  unfold proposition at h
  have hSigns : 0 < -l.encoded ↔ ¬ 0 < l.encoded := by omega
  simp only [isPositive, negation, hSigns, decide_not]

namespace Clause

/-- A clause decides a literal if it is on that literal and asks for it, or on the
opposite one and forbids it. -/
theorem eq_of_decided (h : c.decided? = some l) :
    (c.literals = [l] ∧ c.min = 1) ∨ (c.literals = [l.negation] ∧ c.max = 0) := by
  unfold decided? at h
  split at h
  · rename_i k hOne
    split at h
    · rename_i hMin
      cases h
      exact Or.inl ⟨hOne, hMin⟩
    · split at h
      · rename_i hMax
        cases h
        exact Or.inr ⟨by simpa using hOne, hMax⟩
      · cases h
  · cases h

/-- The literal that a clause decides is on a proposition of the clause. -/
theorem exists_of_decided (h : c.decided? = some l) :
    ∃ k ∈ c.literals, k.proposition = l.proposition := by
  rcases eq_of_decided h with ⟨hLiterals, _⟩ | ⟨hLiterals, _⟩
  · exact ⟨l, by simp [hLiterals], rfl⟩
  · exact ⟨l.negation, by simp [hLiterals], by simp⟩

/-- An assignment satisfies a clause only if it makes the literal true that the clause
decides. -/
theorem isTrue_of_decided (hDecided : c.decided? = some l) (hl : 0 < l.proposition)
    (h : c.Holds a) : a.isTrue l.proposition = l.isPositive := by
  obtain ⟨hLow, hHigh⟩ := h
  rcases eq_of_decided hDecided with ⟨hLiterals, hMin⟩ | ⟨hLiterals, hMax⟩
  · have hOne : 0 < [l].countP fun k => k.isTrueUnder (a.isTrue k.proposition) := by
      rw [truePositions, hLiterals, hMin] at hLow
      exact hLow
    obtain ⟨k, hk, hTrue⟩ := List.countP_pos_iff.mp hOne
    rw [List.mem_singleton.mp hk] at hTrue
    simpa [Literal.isTrueUnder] using hTrue
  · have hNone : [l.negation].countP (fun k => k.isTrueUnder (a.isTrue k.proposition)) = 0 := by
      rw [truePositions, hLiterals, hMax] at hHigh
      exact Nat.le_zero.mp hHigh
    have hFalse := List.countP_eq_zero.mp hNone l.negation (by simp)
    rw [Literal.proposition_negation, Literal.isTrueUnder, Literal.isPositive_negation hl] at hFalse
    simpa using hFalse

/-- What a clause on propositions decides is a literal on a proposition. -/
theorem proposition_pos_of_decided (h : c.decided? = some l)
    (hNamed : ∀ k ∈ c.literals, 0 < k.proposition) : 0 < l.proposition := by
  obtain ⟨k, hk, hEq⟩ := exists_of_decided h
  rw [← hEq]
  exact hNamed k hk

/-- No assignment satisfies a clause with an empty window. -/
theorem not_holds_of_empty (h : c.max < c.min) : ¬ c.Holds a := by
  rintro ⟨hLow, hHigh⟩
  omega

end Clause

namespace Builder

variable {b : Builder}

/-! ## Notes on what was decided -/

/-- The notes on clauses are right. A stored clause is on propositions, can be satisfied
by itself, and is noted if it decides something. What is noted was decided by the stored
clause that the note speaks of, and the clauses that are looked up are stored under the
numbers that are answered. -/
structure Noted (b : Builder) : Prop where
  named : ∀ c, .clause c ∈ b.constraints → ∀ l ∈ c.literals, 0 < l.proposition
  hopeful : ∀ c, .clause c ∈ b.constraints → ¬ c.max < c.min
  decided : ∀ c, .clause c ∈ b.constraints → ∀ l, c.decided? = some l →
    ∃ note, b.decisionOn? l.proposition = some note ∧ note.value = l.isPositive
  notes : ∀ note ∈ b.decisions, b.constraints[note.constraint]? = some (.clause note.clause)
    ∧ ∃ l, note.clause.decided? = some l ∧ l.proposition = note.proposition
      ∧ l.isPositive = note.value
  numbers : ∀ c id, (c, id) ∈ b.clauseIds → b.constraints[id]? = some (.clause c)

/-- The same tables of constraints and notes. -/
structure Spared (b b' : Builder) : Prop where
  constraints : b'.constraints = b.constraints
  clauseIds : b'.clauseIds = b.clauseIds
  decisions : b'.decisions = b.decisions

theorem Noted.of_spared {b' : Builder} (h : b.Noted) (hSpared : Spared b b') : b'.Noted := by
  obtain ⟨hConstraints, hIds, hDecisions⟩ := hSpared
  refine ⟨?_, ?_, ?_, ?_, ?_⟩
  · rw [hConstraints]
    exact h.named
  · rw [hConstraints]
    exact h.hopeful
  · rw [hConstraints]
    unfold decisionOn?
    rw [hDecisions]
    exact h.decided
  · rw [hConstraints, hDecisions]
    exact h.notes
  · rw [hConstraints, hIds]
    exact h.numbers

/-- A constraint keeps its number when another one is taken in. -/
theorem getElem?_push_of_some {cs : Array Constraint} {id : Nat} {d : Constraint}
    (h : cs[id]? = some d) (c : Constraint) : (cs.push c)[id]? = some d := by
  obtain ⟨hId, hValue⟩ := Array.getElem?_eq_some_iff.mp h
  rw [Array.getElem?_push_lt hId, hValue]

/-- Demands are not noted. -/
theorem Noted.push_graph (h : b.Noted) (id : Nat) (d : Connectivity Nat) :
    Noted { b with constraints := b.constraints.push (.graph id d) } := by
  have hClause : ∀ c, .clause c ∈ b.constraints.push (.graph id d) → .clause c ∈ b.constraints := by
    intro c hc
    simpa using hc
  refine ⟨fun c hc => h.named c (hClause c hc), fun c hc => h.hopeful c (hClause c hc),
    fun c hc => h.decided c (hClause c hc), fun note hNote => ?_, fun c n hEntry => ?_⟩
  · obtain ⟨hStored, hDecides⟩ := h.notes note hNote
    exact ⟨getElem?_push_of_some hStored _, hDecides⟩
  · exact getElem?_push_of_some (h.numbers c n hEntry) _

/-- A clause can be stored if the notes, as they are or with a new one that takes none
away, have what it decides. -/
theorem Noted.push_clause (h : b.Noted) (hNamed : ∀ l ∈ c.literals, 0 < l.proposition)
    (hHopeful : ¬ c.max < c.min) {decisions : List Decision}
    (hOld : ∀ v note, b.decisionOn? v = some note →
      decisions.find? (·.proposition == v) = some note)
    (hDecided : ∀ l, c.decided? = some l → ∃ note,
      decisions.find? (·.proposition == l.proposition) = some note ∧ note.value = l.isPositive)
    (hNotes : ∀ note ∈ decisions, note ∈ b.decisions ∨ ∃ l, c.decided? = some l
      ∧ note = ⟨l.proposition, l.isPositive, b.constraints.size, c⟩) :
    Noted { b with
      clauseIds := (c, b.constraints.size) :: b.clauseIds
      decisions
      constraints := b.constraints.push (.clause c) } := by
  have hClause : ∀ k, .clause k ∈ b.constraints.push (.clause c) →
      .clause k ∈ b.constraints ∨ k = c := by
    intro k hk
    simpa using hk
  refine ⟨?_, ?_, ?_, ?_, ?_⟩
  · intro k hk
    rcases hClause k hk with hOldClause | rfl
    · exact h.named k hOldClause
    · exact hNamed
  · intro k hk
    rcases hClause k hk with hOldClause | rfl
    · exact h.hopeful k hOldClause
    · exact hHopeful
  · intro k hk l hl
    rcases hClause k hk with hOldClause | rfl
    · obtain ⟨note, hNote, hValue⟩ := h.decided k hOldClause l hl
      exact ⟨note, hOld _ _ hNote, hValue⟩
    · exact hDecided l hl
  · intro note hNote
    rcases hNotes note hNote with hOldNote | ⟨l, hl, rfl⟩
    · obtain ⟨hStored, hDecides⟩ := h.notes note hOldNote
      exact ⟨getElem?_push_of_some hStored _, hDecides⟩
    · exact ⟨Array.getElem?_push_size, l, hl, rfl, rfl⟩
  · intro k id hEntry
    rcases List.mem_cons.mp hEntry with hNew | hOldEntry
    · cases hNew
      exact Array.getElem?_push_size
    · exact getElem?_push_of_some (h.numbers k id hOldEntry) _

/-! ## Clauses that oppose others -/

/-- The clause cannot be satisfied by itself, or it decides the opposite of what a stored
clause decides. -/
def Opposes (b : Builder) (c : Clause) : Prop :=
  c.max < c.min ∨ ∃ k l, .clause k ∈ b.constraints ∧ c.decided? = some l
    ∧ k.decided? = some l.negation

/-- With all that was taken in, no assignment satisfies the constraint. -/
def Excludes (b : Builder) (c : Constraint) : Prop :=
  ∀ a, ¬ ((∀ d ∈ b.constraints, d.Holds b.graphs a) ∧ c.Holds b.graphs a)

/-- A clause that opposes others is excluded by them. -/
theorem Opposes.excludes (h : b.Opposes c) (hNamed : ∀ l ∈ c.literals, 0 < l.proposition) :
    b.Excludes (.clause c) := by
  rintro a ⟨hAll, hNew⟩
  rcases h with hEmpty | ⟨k, l, hk, hDecided, hOpposite⟩
  · exact Clause.not_holds_of_empty hEmpty hNew
  · have hPositive := Clause.proposition_pos_of_decided hDecided hNamed
    have hNewValue : a.isTrue l.proposition = l.isPositive :=
      Clause.isTrue_of_decided hDecided hPositive hNew
    have hOldValue : a.isTrue l.proposition = !l.isPositive := by
      rw [← Literal.isPositive_negation hPositive, ← Literal.proposition_negation]
      exact Clause.isTrue_of_decided hOpposite (by simpa using hPositive) (hAll _ hk)
    rw [hNewValue] at hOldValue
    cases hSign : l.isPositive <;> simp [hSign] at hOldValue

/-- A note that says otherwise was made for a stored clause that is opposed. -/
theorem Noted.opposes_of_note (h : b.Noted) (hPositive : 0 < l.proposition)
    (hDecided : c.decided? = some l) {note : Decision}
    (hNote : b.decisionOn? l.proposition = some note) (hOther : note.value ≠ l.isPositive) :
    b.Opposes c := by
  obtain ⟨hStored, k, hk, hProposition, hValue⟩ := h.notes note (List.mem_of_find?_eq_some hNote)
  have hAbout : note.proposition = l.proposition := by
    simpa using List.find?_some hNote
  have hNegation : k = l.negation := by
    -- The two are on one proposition, which is not zero, and have different signs.
    rw [← hValue, Ne, Literal.isPositive, Literal.isPositive, decide_eq_decide] at hOther
    rw [hAbout] at hProposition
    unfold Literal.proposition at hProposition hPositive
    have hEncoded : k.encoded = -l.encoded := by omega
    cases k
    exact congrArg Literal.mk hEncoded
  exact Or.inr ⟨note.clause, l, Array.mem_of_getElem? hStored, hDecided, hNegation ▸ hk⟩

/-- If the note on what a clause decides agrees, or there is none, then no stored clause is
opposed. -/
theorem Noted.not_opposes_of_note (h : b.Noted) (hPositive : 0 < l.proposition)
    (hHopeful : ¬ c.max < c.min) (hDecided : c.decided? = some l)
    (hNote : ∀ note, b.decisionOn? l.proposition = some note → note.value = l.isPositive) :
    ¬ b.Opposes c := by
  rintro (hEmpty | ⟨k, j, hk, hDecided', hOpposite⟩)
  · exact hHopeful hEmpty
  · rw [hDecided] at hDecided'
    obtain rfl := Option.some.inj hDecided'
    obtain ⟨note, hFound, hValue⟩ := h.decided k hk _ hOpposite
    rw [Literal.proposition_negation] at hFound
    rw [hNote note hFound, Literal.isPositive_negation hPositive] at hValue
    cases hSign : l.isPositive <;> simp [hSign] at hValue

/-- A clause that decides nothing opposes no other. -/
theorem not_opposes_of_undecided (hHopeful : ¬ c.max < c.min) (hDecided : c.decided? = none) :
    ¬ b.Opposes c := by
  rintro (hEmpty | ⟨_, _, _, hSome, _⟩)
  · exact hHopeful hEmpty
  · cases hDecided.symm.trans hSome

/-- Stored clauses do not oppose each other. -/
theorem Noted.not_opposes (h : b.Noted) (hc : .clause c ∈ b.constraints) : ¬ b.Opposes c := by
  have hHopeful := h.hopeful c hc
  cases hDecided : c.decided? with
  | none => exact not_opposes_of_undecided hHopeful hDecided
  | some l =>
      have hPositive := Clause.proposition_pos_of_decided hDecided (h.named c hc)
      obtain ⟨note, hNote, hValue⟩ := h.decided c hc l hDecided
      refine h.not_opposes_of_note hPositive hHopeful hDecided fun note' hNote' => ?_
      rw [← Option.some.inj (hNote.symm.trans hNote'), hValue]

end Builder

end LocalRepair
