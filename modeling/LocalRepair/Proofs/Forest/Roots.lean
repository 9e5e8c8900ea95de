import Mathlib.Data.Fintype.Card
import LocalRepair.Forest

/-!
# Roots of a union-find structure

Parents lead to vertices of higher rank, and that alone makes the structure
sound: a chain of parents meets no vertex twice, so as many steps as there are
vertices reach its end. The number of vertices that rank *above* a vertex
measures how long its chain can be.

A root is then characterised without any fuel. It is the only function that
fixes the vertices that are their own parents and agrees on a vertex and its
parent (`Ranked.root_eq`), and every statement about the roots after a change of
parents is proved by exhibiting such a function. There are two changes: a vertex
is pointed at its own root, which moves no root, and one root is hung below
another, which moves exactly the roots of one class.

## Main results

* `Ranked.induction`: induction along the chain of parents.
* `Ranked.root_eq`: the two equations that determine the roots.
* `Ranked.shortcut`: pointing a vertex at its root moves no root.
* `Ranked.hang`, `Ranked.root_hang`: hanging one root below another.
-/

namespace LocalRepair.Forest

variable {g : Graph} {f : Forest g} {v : g.Vertex}

/-- The parent of a vertex. -/
def up (f : Forest g) (v : g.Vertex) : g.Vertex := f.parent.get v

/-- The rank of a vertex. -/
def level (f : Forest g) (v : g.Vertex) : Nat := f.rank.get v

/-- A vertex that is not its own parent ranks below its parent. -/
def Ranked (f : Forest g) : Prop :=
  ∀ v : g.Vertex, f.up v ≠ v → f.level v < f.level (f.up v)

/-! ## Chains of parents end -/

/-- How many vertices rank above a vertex. -/
def above (f : Forest g) (v : g.Vertex) : Nat :=
  (Finset.univ.filter fun u : g.Vertex => f.level v < f.level u).card

theorem above_lt (f : Forest g) (v : g.Vertex) : f.above v < g.vertexCount := by
  have hSub : (Finset.univ.filter fun u : g.Vertex => f.level v < f.level u) ⊂ Finset.univ :=
    Finset.filter_ssubset.mpr ⟨v, Finset.mem_univ v, Nat.lt_irrefl _⟩
  simpa [above] using Finset.card_lt_card hSub

theorem climb_succ (f : Forest g) (steps : Nat) (v : g.Vertex) :
    climb f.parent (steps + 1) v = if f.up v = v then v else climb f.parent steps (f.up v) :=
  rfl

namespace Ranked

/-- Fewer vertices rank above the parent. -/
theorem above_up_lt (h : f.Ranked) (hv : f.up v ≠ v) : f.above (f.up v) < f.above v := by
  have hRank := h v hv
  refine Finset.card_lt_card ((Finset.ssubset_iff_of_subset ?_).mpr ⟨f.up v, ?_, ?_⟩)
  · intro u hu
    simp only [Finset.mem_filter, Finset.mem_univ, true_and] at hu ⊢
    exact Nat.lt_trans hRank hu
  · simpa using hRank
  · simp

/-- What holds of the vertices that are their own parents, and of a vertex
whenever it holds of its parent, holds of all vertices. -/
theorem induction (h : f.Ranked) {P : g.Vertex → Prop} (own : ∀ v, f.up v = v → P v)
    (child : ∀ v, f.up v ≠ v → P (f.up v) → P v) (v : g.Vertex) : P v := by
  generalize hn : f.above v = n
  induction n using Nat.strongRecOn generalizing v with
  | ind n ih =>
      by_cases hv : f.up v = v
      · exact own v hv
      · exact child v hv (ih _ (hn ▸ h.above_up_lt hv) _ rfl)

/-- More steps than there are vertices above reach the end of the chain, and how
many more does not matter. -/
theorem climb_stable (h : f.Ranked) :
    ∀ (steps more : Nat) (v : g.Vertex), f.above v < steps → steps ≤ more →
      climb f.parent more v = climb f.parent steps v := by
  intro steps
  induction steps with
  | zero => intro more v hAbove; omega
  | succ steps ih =>
      intro more v hAbove hMore
      obtain ⟨more, rfl⟩ : ∃ k, more = k + 1 := ⟨more - 1, by omega⟩
      rw [climb_succ, climb_succ]
      split
      · rfl
      · rename_i hv
        have := h.above_up_lt hv
        exact ih more (f.up v) (by omega) (by omega)

/-! ## The equations of roots -/

/-- A vertex has the root of its parent. -/
theorem root_up (h : f.Ranked) (v : g.Vertex) : f.root (f.up v) = f.root v := by
  by_cases hv : f.up v = v
  · rw [hv]
  · have hAbove := above_lt f v
    have hLess := h.above_up_lt hv
    calc f.root (f.up v)
        = climb f.parent (f.above v) (f.up v) := h.climb_stable _ _ _ hLess (by omega)
      _ = climb f.parent (f.above v + 1) v := by rw [climb_succ, if_neg hv]
      _ = f.root v := (h.climb_stable _ _ _ (by omega) (by omega)).symm

/-- A vertex that is its own parent is its own root. -/
theorem root_of_own (h : f.Ranked) (hv : f.up v = v) : f.root v = v := by
  have hAbove := above_lt f v
  calc f.root v
      = climb f.parent (f.above v + 1) v := h.climb_stable _ _ _ (by omega) (by omega)
    _ = v := by rw [climb_succ, if_pos hv]

/-- The two equations determine the roots. -/
theorem root_eq (h : f.Ranked) (r : g.Vertex → g.Vertex) (own : ∀ v, f.up v = v → r v = v)
    (child : ∀ v, f.up v ≠ v → r v = r (f.up v)) (v : g.Vertex) : f.root v = r v := by
  refine h.induction (P := fun v => f.root v = r v) ?_ ?_ v
  · intro v hv
    rw [h.root_of_own hv, own v hv]
  · intro v hv ih
    rw [← h.root_up v, ih, child v hv]

/-- A root is its own parent. -/
theorem up_root (h : f.Ranked) (v : g.Vertex) : f.up (f.root v) = f.root v := by
  refine h.induction (P := fun v => f.up (f.root v) = f.root v) ?_ ?_ v
  · intro v hv
    rw [h.root_of_own hv, hv]
  · intro v _ ih
    rwa [h.root_up v] at ih

/-- A root is its own root. -/
theorem root_root (h : f.Ranked) (v : g.Vertex) : f.root (f.root v) = f.root v :=
  h.root_of_own (h.up_root v)

/-- No vertex ranks above its root. -/
theorem level_le_root (h : f.Ranked) (v : g.Vertex) : f.level v ≤ f.level (f.root v) := by
  refine h.induction (P := fun v => f.level v ≤ f.level (f.root v)) ?_ ?_ v
  · intro v hv
    rw [h.root_of_own hv]
  · intro v hv ih
    rw [h.root_up v] at ih
    exact Nat.le_trans (Nat.le_of_lt (h v hv)) ih

/-- A vertex that is not its own parent ranks below its root. -/
theorem level_lt_root (h : f.Ranked) (hv : f.up v ≠ v) : f.level v < f.level (f.root v) := by
  have hUp := h.level_le_root (f.up v)
  rw [h.root_up v] at hUp
  exact Nat.lt_of_lt_of_le (h v hv) hUp

end Ranked

/-! ## Changing one parent -/

/-- The structure with another parent for one vertex. -/
def point (f : Forest g) (v w : g.Vertex) : Forest g :=
  { f with parent := withEntry f.parent v w }

/-- The structure with one vertex hung below another and with other ranks. -/
def hung (f : Forest g) (low high : g.Vertex) (ranks : Vector Nat g.vertexCount) : Forest g :=
  { f.point low high with rank := ranks }

theorem up_point (f : Forest g) (v w u : g.Vertex) :
    (f.point v w).up u = if u = v then w else f.up u :=
  get_withEntry f.parent v u w

@[simp] theorem level_point (f : Forest g) (v w u : g.Vertex) :
    (f.point v w).level u = f.level u := rfl

theorem up_hung (f : Forest g) (low high u : g.Vertex) (ranks : Vector Nat g.vertexCount) :
    (f.hung low high ranks).up u = if u = low then high else f.up u :=
  up_point f low high u

namespace Ranked

/-- A vertex that is not its own parent can be pointed at its root: ranks grow
still, and no root moves. -/
theorem shortcut (h : f.Ranked) (hv : f.up v ≠ v) :
    (f.point v (f.root v)).Ranked ∧ ∀ u, (f.point v (f.root v)).root u = f.root u := by
  have hRanked : (f.point v (f.root v)).Ranked := by
    intro u hu
    rw [up_point] at hu ⊢
    simp only [level_point]
    split at hu
    · rename_i hEq
      subst hEq
      rw [if_pos rfl]
      exact h.level_lt_root hv
    · rename_i hNe
      rw [if_neg hNe]
      exact h u hu
  refine ⟨hRanked, hRanked.root_eq f.root ?_ ?_⟩
  · intro u hu
    rw [up_point] at hu
    split at hu
    · rename_i hEq
      rw [hEq, hu, hEq]
    · exact h.root_of_own hu
  · intro u _
    rw [up_point]
    split
    · rename_i hEq
      rw [hEq, h.root_root]
    · exact (h.root_up u).symm

section Hanging

variable {low high : g.Vertex} {ranks : Vector Nat g.vertexCount}

/-- One root can be hung below another, provided that the ranks are raised, if
at all, at the new root only, and enough for it to rank above the old one. -/
theorem hang (h : f.Ranked) (hHigh : f.up high = high)
    (hOther : ∀ u, u ≠ high → (f.hung low high ranks).level u = f.level u)
    (hRaised : f.level high ≤ (f.hung low high ranks).level high)
    (hOver : (f.hung low high ranks).level low < (f.hung low high ranks).level high) :
    (f.hung low high ranks).Ranked := by
  intro u hu
  rw [up_hung] at hu ⊢
  by_cases hLow : u = low
  · rw [if_pos hLow, hLow]
    exact hOver
  · rw [if_neg hLow] at hu ⊢
    have hNe : u ≠ high := by
      rintro rfl
      exact hu hHigh
    have hRank := h u hu
    rw [hOther u hNe]
    by_cases hTop : f.up u = high
    · rw [hTop] at hRank ⊢
      exact Nat.lt_of_lt_of_le hRank hRaised
    · rwa [hOther _ hTop]

/-- Hanging one root below another gives its class the other root and leaves all
other roots in place. -/
theorem root_hang (h : f.Ranked) (hLow : f.up low = low) (hHigh : f.up high = high)
    (hNe : low ≠ high) (hRanked : (f.hung low high ranks).Ranked) (u : g.Vertex) :
    (f.hung low high ranks).root u = if f.root u = low then high else f.root u := by
  refine hRanked.root_eq (fun u => if f.root u = low then high else f.root u) ?_ ?_ u
  · intro u hu
    rw [up_hung] at hu
    split at hu
    · rename_i hEq
      exact absurd (hEq.symm.trans hu.symm) hNe
    · rename_i hOther
      simp only [h.root_of_own hu]
      rw [if_neg hOther]
  · intro u _
    rw [up_hung]
    by_cases hEq : u = low
    · simp only [hEq, if_true, h.root_of_own hLow, h.root_of_own hHigh]
      rw [if_neg hNe.symm]
    · simp only [if_neg hEq, h.root_up]

end Hanging

end Ranked

/-! ## One root for every class -/

/-- The vertices that are their own roots. -/
def roots (f : Forest g) : List g.Vertex := g.vertices.filter fun v => f.root v == v

@[simp] theorem mem_roots : v ∈ f.roots ↔ f.root v = v := by
  simp [roots, Graph.vertices]

theorem roots_nodup (f : Forest g) : f.roots.Nodup :=
  (List.nodup_finRange _).filter _

end LocalRepair.Forest
