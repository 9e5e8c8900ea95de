import Mathlib.Algebra.BigOperators.Group.Finset.Piecewise
import Mathlib.Algebra.Order.BigOperators.Group.Finset
import LocalRepair.Proofs.Clause
import LocalRepair.Proofs.Connectivity.Answers

/-!
# What is violated can be helped

A constraint that some assignment satisfies is not beyond help where it is
violated: one of its propositions moves it in the right direction when it is
turned over. Which proposition that is, is not said; only that there is one.

For a clause the argument is an exchange. The numbers of true positions under two
assignments differ by a sum over propositions, and what a proposition adds to the
sum is its shift or nothing. So if the sum is positive, some shift is.

For a demand for connection the argument is a cut. Two vertices that are joined
by all edges of some assignment, but not by the present ones, lie on different
sides of the class of the first one; so one of those edges leaves the class, and
it is absent.

## Main results

* `Clause.exists_wanted`: a violated clause wants a proposition.
* `Graph.Joined.exists_leaving`: an edge that leaves a class.
* `Connectivity.exists_helping`: an absent edge that an unmet demand estimates to
  help.
-/

namespace LocalRepair

namespace Clause

variable {c : Clause} {a a' : Assignment}

/-! ## Exchanging an assignment for another -/

/-- By how much a literal adds to the number of true positions when one assignment
is exchanged for another. -/
def exchange (a a' : Assignment) (l : Literal) : Int :=
  (if l.isTrueUnder (a'.isTrue l.proposition) then 1 else 0)
    - (if l.isTrueUnder (a.isTrue l.proposition) then 1 else 0)

/-- A sum over literals, taken proposition by proposition. -/
theorem sum_by_proposition (weight : Literal → Int) {vs : Finset Nat} :
    ∀ ls : List Literal, (∀ l ∈ ls, l.proposition ∈ vs) →
      (ls.map weight).sum = ∑ v ∈ vs, ((ls.filter (·.proposition == v)).map weight).sum := by
  intro ls
  induction ls with
  | nil => simp
  | cons l ls ih =>
      intro hIn
      have hHead : ∀ v, (((l :: ls).filter (·.proposition == v)).map weight).sum
          = (if l.proposition = v then weight l else 0)
            + ((ls.filter (·.proposition == v)).map weight).sum := by
        intro v
        by_cases hv : l.proposition = v
        · rw [List.filter_cons_of_pos (by simpa using hv), if_pos hv, List.map_cons, List.sum_cons]
        · rw [List.filter_cons_of_neg (by simpa using hv), if_neg hv, Int.zero_add]
      rw [Finset.sum_congr rfl fun v _ => hHead v, Finset.sum_add_distrib, Finset.sum_ite_eq,
        if_pos (hIn l (by simp)), ← ih fun k hk => hIn k (List.mem_cons_of_mem _ hk),
        List.map_cons, List.sum_cons]

theorem truePositions_exchange (c : Clause) (a a' : Assignment) :
    (c.truePositions a' : Int) - c.truePositions a = (c.literals.map (exchange a a')).sum := by
  rw [truePositions, truePositions]
  induction c.literals with
  | nil => rfl
  | cons l ls ih =>
      rw [List.countP_cons, List.countP_cons, List.map_cons, List.sum_cons, ← ih, exchange]
      push_cast
      ring

/-- What a proposition adds to an exchange is its shift, if the assignments differ
there. -/
theorem sum_exchange_eq (c : Clause) (a a' : Assignment) (v : Nat) :
    ((c.literalsOf v).map (exchange a a')).sum
      = if a'.isTrue v = a.isTrue v then 0 else c.shift v (!a.isTrue v) := by
  have hOwn : ∀ l ∈ c.literalsOf v, l.proposition = v := by
    intro l hl
    simpa using (List.mem_filter.mp hl).2
  split
  · rename_i hSame
    have hNothing : ∀ l ∈ c.literalsOf v, exchange a a' l = 0 := by
      intro l hl
      rw [exchange, hOwn l hl, hSame, Int.sub_self]
    rw [List.map_congr_left hNothing]
    simp
  · rename_i hOther
    have hTurned : a'.isTrue v = !a.isTrue v := Bool.eq_not_of_ne hOther
    rw [shift_eq]
    congr 1
    refine List.map_congr_left fun l hl => ?_
    rw [exchange, step, hOwn l hl, hTurned, isTrueUnder_not]
    cases l.isTrueUnder (a.isTrue v) <;> rfl

/-- The numbers of true positions under two assignments differ by the shifts of
the propositions where the assignments differ. -/
theorem truePositions_sub (c : Clause) (a a' : Assignment) :
    (c.truePositions a' : Int) - c.truePositions a
      = ∑ v ∈ c.propositions.toFinset,
          if a'.isTrue v = a.isTrue v then 0 else c.shift v (!a.isTrue v) := by
  have hIn : ∀ l ∈ c.literals, l.proposition ∈ c.propositions.toFinset := by
    intro l hl
    exact List.mem_toFinset.mpr (mem_propositions.mpr ⟨l, hl, rfl⟩)
  rw [truePositions_exchange, sum_by_proposition _ _ hIn]
  exact Finset.sum_congr rfl fun v _ => sum_exchange_eq c a a' v

/-- A clause that an assignment violates, and another one satisfies, wants one of
its propositions turned over. -/
theorem exists_wanted (hViolated : ¬ c.Holds a) (hPossible : c.Holds a') :
    ∃ v ∈ c.propositions, c.wants (c.truePositions a) v (!a.isTrue v) = true := by
  have hSum := truePositions_sub c a a'
  by_contra hNone
  push Not at hNone
  have hUnwanted : ∀ v ∈ c.propositions, c.wants (c.truePositions a) v (!a.isTrue v) = false :=
    fun v hv => Bool.not_eq_true _ ▸ hNone v hv
  rcases Nat.lt_or_ge (c.truePositions a) c.min with hFew | hEnough
  · -- Too few are true, so some proposition adds to the sum.
    have hFalling : ∀ v ∈ c.propositions.toFinset,
        (if a'.isTrue v = a.isTrue v then 0 else c.shift v (!a.isTrue v)) ≤ 0 := by
      intro v hv
      have hShift := hUnwanted v (List.mem_toFinset.mp hv)
      simp only [wants, hFew, decide_true, Bool.true_and, Bool.or_eq_false_iff,
        decide_eq_false_iff_not, Int.not_lt] at hShift
      split
      · exact Int.le_refl 0
      · exact hShift.1
    have hTotal := Finset.sum_nonpos hFalling
    have hEnough := hPossible.1
    omega
  · -- Too many are true, so some proposition takes from the sum.
    have hMany : c.max < c.truePositions a :=
      Nat.lt_of_not_le fun hMost => hViolated ⟨hEnough, hMost⟩
    have hRising : ∀ v ∈ c.propositions.toFinset,
        0 ≤ (if a'.isTrue v = a.isTrue v then 0 else c.shift v (!a.isTrue v)) := by
      intro v hv
      have hShift := hUnwanted v (List.mem_toFinset.mp hv)
      simp only [wants, hMany, decide_true, Bool.true_and, Bool.or_eq_false_iff,
        decide_eq_false_iff_not, Int.not_lt] at hShift
      split
      · exact Int.le_refl 0
      · exact hShift.2
    have hTotal := Finset.sum_nonneg hRising
    have hMost := hPossible.2
    omega

end Clause

/-! ## Leaving a class -/

namespace Graph.Joined

variable {g : Graph} {present more : g.EdgeId → Prop} {u w : g.Vertex}

/-- Of the edges that join two vertices, one leaves the class of the first, unless
the present edges join them as well. -/
theorem exists_leaving (h : g.Joined more u w) (hApart : ¬ g.Joined present u w) :
    ∃ e x y, g.Leads e x y ∧ g.Joined present u x ∧ ¬ g.Joined present u y := by
  induction h with
  | here => exact absurd .here hApart
  | @along x y e _ _ hLeads ih =>
      by_cases hReached : g.Joined present u x
      · exact ⟨e, x, y, hLeads, hReached, hApart⟩
      · exact ih hReached

end Graph.Joined

namespace Connectivity

variable {g : Graph} {f : Forest g} {present more : g.EdgeId → Prop} {e : g.EdgeId}
  {u x y : g.Vertex}

/-- An edge that leaves a class is absent, and its ends are in different classes.
-/
theorem apart_of_leaving (h : f.Spans present) (hLeads : g.Leads e x y)
    (hIn : g.Joined present u x) (hOut : ¬ g.Joined present u y) :
    ¬ present e ∧ same f (g.edge e).a (g.edge e).b = false := by
  refine ⟨fun hPresent => hOut (hIn.along hPresent hLeads), ?_⟩
  rw [same, beq_eq_false_iff_ne, Ne, h.root_eq_iff]
  intro hJoined
  rcases hLeads with ⟨rfl, rfl⟩ | ⟨rfl, rfl⟩
  · exact hOut (hIn.trans hJoined)
  · exact hOut (hIn.trans hJoined.symm)

/-- A demand for connection that is not met, and is met by some set of edges, has
an absent edge that is estimated to help. -/
theorem exists_helping (h : f.Spans present) {demand : Connectivity g.Vertex}
    (hNotPieces : ∀ n, demand ≠ pieces n) (hUnmet : ¬ demand.Holds g present)
    (hPossible : demand.Holds g more) : ∃ e, ¬ present e ∧ adding f e demand < 0 := by
  cases demand with
  | pieces count => exact absurd rfl (hNotPieces count)
  | whole =>
      simp only [Holds, not_forall] at hUnmet
      obtain ⟨u, w, hApart⟩ := hUnmet
      obtain ⟨e, x, y, hLeads, hIn, hOut⟩ := (hPossible u w).exists_leaving hApart
      obtain ⟨hAbsent, hEnds⟩ := apart_of_leaving h hLeads hIn hOut
      refine ⟨e, hAbsent, ?_⟩
      simp [adding, hEnds]
  | pair source target =>
      obtain ⟨e, x, y, hLeads, hIn, hOut⟩ := Graph.Joined.exists_leaving hPossible hUnmet
      obtain ⟨hAbsent, hEnds⟩ := apart_of_leaving h hLeads hIn hOut
      have hPair : same f source target = false := by
        rw [same, beq_eq_false_iff_ne, Ne, h.root_eq_iff]
        exact hUnmet
      have hRoot : f.root x = f.root source := (h.root_eq_iff _ _).mpr hIn.symm
      have hTouches : touches f e source target = true := by
        rcases hLeads with ⟨rfl, rfl⟩ | ⟨rfl, rfl⟩
        · simp [touches, hRoot]
        · simp [touches, hRoot]
      have hEstimate : adding f e (pair source target)
          = if f.bridges source target e then -2 else -1 := by
        simp [adding, hPair, hEnds, hTouches]
      refine ⟨e, hAbsent, ?_⟩
      rw [hEstimate]
      split <;> decide
  | sides left right =>
      obtain ⟨u, hu, w, hw, hJoined⟩ := hPossible
      have hApart : ¬ g.Joined present u w := fun hNow => hUnmet ⟨u, hu, w, hw, hNow⟩
      obtain ⟨e, x, y, hLeads, hIn, hOut⟩ := hJoined.exists_leaving hApart
      obtain ⟨hAbsent, hEnds⟩ := apart_of_leaving h hLeads hIn hOut
      have hMeet : meet f left right = false := by
        rw [← Bool.not_eq_true, meet_iff h]
        exact hUnmet
      have hRoot : (left.map f.root).contains (f.root x) = true := by
        rw [List.contains_iff_mem, (h.root_eq_iff _ _).mpr hIn.symm]
        exact List.mem_map_of_mem hu
      have hGrows : grows f e left right = true := by
        rw [grows, List.any_eq_true]
        refine ⟨f.root x, ?_, by rw [hRoot, Bool.true_or]⟩
        rcases hLeads with ⟨rfl, rfl⟩ | ⟨rfl, rfl⟩ <;> simp
      have hEstimate : adding f e (sides left right)
          = if links f e left right then -2 else -1 := by
        simp [adding, hMeet, hEnds, hGrows]
      refine ⟨e, hAbsent, ?_⟩
      rw [hEstimate]
      split <;> decide

end Connectivity
end LocalRepair
