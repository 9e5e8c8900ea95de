import LocalRepair.Builder
import LocalRepair.Proofs.Assignment
import LocalRepair.Proofs.Clause
import LocalRepair.Proofs.Graph.Edges

/-!
# Well-formed problems

A search follows numbers: from a flipped proposition to the constraints that
mention it, from a constraint to its graph, from a graph to the propositions of
its edges. None of these numbers is checked on the way. `Problem.WellFormed`
says that none of them leads astray, and that the lists of constraints are
complete, so that a flip visits every constraint it can matter to, and visits it
once.

Propositions are numbered, and true literals counted, in 32 bits. `Problem.Fits`
says that a problem is not too large for that.

## Main results

* `mention_foldl`: the lists that building a problem fills.
* `Builder.Sound.wellFormed`: a builder with sound tables makes a well-formed
  problem, unless that is too large.
-/

namespace LocalRepair

/-- A number of one of `count` propositions. -/
def Named (count v : Nat) : Prop := 0 < v ∧ v ≤ count

instance (count v : Nat) : Decidable (Named count v) := inferInstanceAs (Decidable (_ ∧ _))

/-- Propositions keep their numbers when others are added. -/
theorem Named.mono {count more v : Nat} (h : Named count v) (hMore : count ≤ more) :
    Named more v :=
  ⟨h.1, Nat.le_trans h.2 hMore⟩

namespace Constraint

/-- Everything that a constraint refers to exists: the propositions of a clause,
and the graph and the vertices of a demand. -/
def Grounded (count : Nat) (graphs : Array Graph) : Constraint → Prop
  | .clause c => ∀ l ∈ c.literals, Named count l.proposition
  | .graph id demand => ∃ g d, graphs[id]? = some g ∧ demand.resolve g = .ok d

variable {count : Nat} {graphs : Array Graph} {c : Constraint}

/-- A constraint stays grounded when propositions are added. -/
theorem Grounded.mono (h : c.Grounded count graphs) {more : Nat} (hMore : count ≤ more) :
    c.Grounded more graphs := by
  cases c with
  | clause c => exact fun l hl => (h l hl).mono hMore
  | graph id demand => exact h

/-- A constraint stays grounded when a graph is added. -/
theorem Grounded.push (h : c.Grounded count graphs) (g : Graph) :
    c.Grounded count (graphs.push g) := by
  cases c with
  | clause c => exact h
  | graph id demand =>
      obtain ⟨g', d, hGraph, hResolve⟩ := h
      have hId : id < graphs.size := (Array.getElem?_eq_some_iff.mp hGraph).1
      refine ⟨g', d, ?_, hResolve⟩
      rw [Array.getElem?_push_lt hId, ← hGraph, Array.getElem?_eq_getElem hId]

/-- The literals of a clause can be counted in 32 bits. For a demand nothing is
counted. -/
def Short : Constraint → Prop
  | .clause c => c.Short
  | .graph _ _ => True

instance : DecidablePred Short
  | .clause c => inferInstanceAs (Decidable c.Short)
  | .graph _ _ => .isTrue trivial

/-- No constraint lists a proposition twice. -/
theorem propositions_nodup (graphs : Array Graph) (c : Constraint) :
    (c.propositions graphs).Nodup := by
  cases c with
  | clause c => exact ascending_nodup _
  | graph id demand =>
      rw [propositions]
      cases graphs[id]? with
      | none => exact List.nodup_nil
      | some g => exact g.distinct

end Constraint

/-- The numbers of propositions and the numbers of true literals fit 32 bits. -/
structure Problem.Fits (p : Problem) : Prop where
  numbers : p.propositionCount < 2 ^ 32
  short : ∀ c ∈ p.constraints, c.Short

/-- The numbers in a problem fit 32 bits and lead somewhere, its priors are probabilities,
and the constraints that mention a proposition are listed, all of them and each once, in
ascending order. -/
structure Problem.WellFormed (p : Problem) : Prop extends Problem.Fits p where
  priors : p.priors.size = p.propositionCount
  chances : ∀ chance, some chance ∈ p.priors → isProbability chance = true
  graphs : ∀ g ∈ p.graphs, ∀ v ∈ g.propositions, Named p.propositionCount v
  constraints : ∀ c ∈ p.constraints, c.Grounded p.propositionCount p.graphs
  mentioning : ∀ v, v ≤ p.propositionCount → ∃ ids, p.mentioning v = .ok ids
    ∧ ids.Pairwise (· < ·)
    ∧ ∀ id, id ∈ ids ↔ ∃ c, p.constraints[id]? = some c ∧ v ∈ p.propositionsOf c

/-- The literals of a clause of the problem can be counted in 32 bits. -/
theorem Problem.WellFormed.short_clause {p : Problem} (h : p.WellFormed) {id : Nat} {c : Clause}
    (hc : p.constraints[id]? = some (.clause c)) : c.Short :=
  h.short _ (Array.mem_of_getElem? hc)

/-! ## The lists of constraints -/

/-- Adding a constraint to the lists of some propositions. -/
theorem getElem?_foldl_modify (id w : Nat) :
    ∀ (vs : List Nat) (lists : Array (List Nat)), vs.Nodup →
      (vs.foldl (fun lists v => lists.modify v (· ++ [id])) lists)[w]?
        = if w ∈ vs then lists[w]?.map (· ++ [id]) else lists[w]? := by
  intro vs
  induction vs with
  | nil =>
      intro lists _
      simp
  | cons v vs ih =>
      intro lists hNodup
      obtain ⟨hNew, hRest⟩ := List.nodup_cons.mp hNodup
      rw [List.foldl_cons, ih _ hRest, Array.getElem?_modify]
      by_cases hw : v = w
      · subst hw
        simp [hNew]
      · have hOther : w ≠ v := fun h => hw h.symm
        simp [hw, hOther]

/-- The constraints of a row that mention proposition `v`, by number. -/
def mentionedIn (graphs : Array Graph) (row : List (Constraint × Nat)) (v : Nat) : List Nat :=
  (row.filter fun entry => decide (v ∈ entry.1.propositions graphs)).map (·.2)

/-- Going through a row of constraints appends to the list of each proposition
those that mention it. -/
theorem mention_foldl (graphs : Array Graph) (v : Nat) :
    ∀ (row : List (Constraint × Nat)) (lists : Array (List Nat)) (ids : List Nat),
      lists[v]? = some ids →
      (row.foldl (Builder.mention graphs) lists)[v]? = some (ids ++ mentionedIn graphs row v) := by
  intro row
  induction row with
  | nil =>
      intro lists ids h
      simpa [mentionedIn] using h
  | cons entry row ih =>
      intro lists ids h
      have hStep : (Builder.mention graphs lists entry)[v]?
          = if v ∈ entry.1.propositions graphs then lists[v]?.map (· ++ [entry.2])
            else lists[v]? :=
        getElem?_foldl_modify entry.2 v _ lists (Constraint.propositions_nodup graphs entry.1)
      rw [List.foldl_cons]
      by_cases hMentions : v ∈ entry.1.propositions graphs
      · rw [if_pos hMentions, h] at hStep
        rw [ih _ _ hStep]
        simp [mentionedIn, hMentions]
      · rw [if_neg hMentions, h] at hStep
        rw [ih _ _ hStep]
        simp [mentionedIn, hMentions]

/-- A row that is numbered in order lists its numbers in order. -/
theorem mentionedIn_pairwise (graphs : Array Graph) (cs : List Constraint) (v : Nat) :
    (mentionedIn graphs cs.zipIdx v).Pairwise (· < ·) := by
  have hNumbers : (cs.zipIdx.map (·.2)).Pairwise (· < ·) := by
    rw [List.zipIdx_map_snd]
    exact List.pairwise_lt_range'
  exact hNumbers.sublist (List.filter_sublist.map _)

theorem mem_mentionedIn {graphs : Array Graph} {cs : Array Constraint} {v id : Nat} :
    id ∈ mentionedIn graphs cs.toList.zipIdx v
      ↔ ∃ c, cs[id]? = some c ∧ v ∈ c.propositions graphs := by
  simp only [mentionedIn, List.mem_map, List.mem_filter, decide_eq_true_eq]
  constructor
  · rintro ⟨⟨c, i⟩, ⟨hEntry, hv⟩, rfl⟩
    rw [List.mem_zipIdx_iff_getElem?] at hEntry
    exact ⟨c, by simpa using hEntry, hv⟩
  · rintro ⟨c, hc, hv⟩
    refine ⟨(c, id), ⟨?_, hv⟩, rfl⟩
    rw [List.mem_zipIdx_iff_getElem?]
    simpa using hc

/-! ## From a builder to its problem -/

/-- The tables of a builder are of equal length where they have to be, its priors are
probabilities, and nothing in them refers to nothing. -/
structure Builder.Sound (b : Builder) : Prop where
  priors : b.priors.size = b.names.size
  chances : ∀ chance, some chance ∈ b.priors → isProbability chance = true
  graphs : ∀ g ∈ b.graphs, ∀ v ∈ g.propositions, Named b.names.size v
  constraints : ∀ c ∈ b.constraints, c.Grounded b.names.size b.graphs

/-- A builder with sound tables makes a well-formed problem, unless that is too large. -/
theorem Builder.Sound.wellFormed {b : Builder} (h : b.Sound) (hFits : b.toProblem.Fits) :
    b.toProblem.WellFormed := by
  refine ⟨hFits, h.priors, h.chances, h.graphs, h.constraints, fun v hv => ?_⟩
  refine ⟨mentionedIn b.graphs b.constraints.toList.zipIdx v, ?_,
    mentionedIn_pairwise _ _ v, fun id => mem_mentionedIn⟩
  have hStart : (Array.replicate (b.names.size + 1) ([] : List Nat))[v]? = some [] := by
    have hRange : v < b.names.size + 1 := Nat.lt_succ_of_le hv
    rw [Array.getElem?_replicate, if_pos hRange]
  exact entryAt_eq_ok_iff.mpr (mention_foldl b.graphs v _ _ [] hStart)

end LocalRepair
