import Mathlib.Logic.Function.Iterate
import LocalRepair.Proofs.Forest.Balance

/-!
# How far it is to the root

The root of a vertex is found by following parents until a vertex is its own parent, and
the way is then gone once more to point everything on it at the root. Neither loop counts
its steps. `Climbs` and `Compresses` are the two loops without a bound, with the number of
steps that they take, and what ends them is that ranks grow on the way: there are no more
steps than the rank of the root, and in a balanced forest that is at most the logarithm of
the number of vertices.

The second loop changes the parents that it is about to follow, but never one that it still
has to come by, since it does not come by a vertex twice.

## Main results

* `Ranked.exists_climbs`, `Ranked.exists_compresses`: how many steps the loops take.
* `Ranked.up_find_iterate`: everything on the way points to the root.
* `stays_shallow`.
-/

namespace LocalRepair.Forest

variable {g : Graph}

/-! ## The two loops -/

/-- Following parents from a vertex, until one is its own parent, takes so many steps and
ends at that one. -/
inductive Climbs (f : Forest g) : g.Vertex → Nat → g.Vertex → Prop
  | stay {v : g.Vertex} (hOwn : f.up v = v) : f.Climbs v 0 v
  | step {v top : g.Vertex} {steps : Nat} (hMove : f.up v ≠ v)
      (hRest : f.Climbs (f.up v) steps top) : f.Climbs v (steps + 1) top

/-- Pointing vertices at a root, from a vertex upwards until one points there already, takes
so many steps and leaves that forest. -/
inductive Compresses (root : g.Vertex) : Forest g → g.Vertex → Nat → Forest g → Prop
  | stay {f : Forest g} {v : g.Vertex} (hDone : f.up v = root) : Compresses root f v 0 f
  | step {f f' : Forest g} {v : g.Vertex} {steps : Nat} (hMove : f.up v ≠ root)
      (hRest : Compresses root (f.point v root) (f.up v) steps f') :
      Compresses root f v (steps + 1) f'

variable {f f' : Forest g} {u v w root : g.Vertex} {steps : Nat}

namespace Ranked

/-- The first loop reaches the root, and each of its steps leads to a higher rank. -/
theorem exists_climbs (h : f.Ranked) (v : g.Vertex) :
    ∃ steps, f.Climbs v steps (f.root v) ∧ steps + f.level v ≤ f.level (f.root v) := by
  refine h.induction (P := fun v => ∃ steps, f.Climbs v steps (f.root v)
    ∧ steps + f.level v ≤ f.level (f.root v)) ?_ ?_ v
  · intro v hOwn
    refine ⟨0, ?_, ?_⟩
    · rw [h.root_of_own hOwn]
      exact .stay hOwn
    · rw [h.root_of_own hOwn]
      omega
  · rintro v hMove ⟨steps, hClimbs, hSteps⟩
    have hRank := h v hMove
    rw [h.root_up] at hClimbs hSteps
    exact ⟨steps + 1, .step hMove hClimbs, by omega⟩

/-- The second loop is what a bound on its steps allows, if that exceeds the number of
vertices above. -/
theorem compresses_pointTo :
    ∀ (bound : Nat) (f : Forest g) (v : g.Vertex), f.Ranked → f.above v < bound →
      ∃ steps, Compresses (f.root v) f v steps
          { f with parent := pointTo (f.root v) bound v f.parent }
        ∧ steps + f.level v ≤ f.level (f.root v) := by
  intro bound
  induction bound with
  | zero => intro f v _ hAbove; omega
  | succ bound ih =>
      intro f v h hAbove
      by_cases hDone : f.up v = f.root v
      · have hKeep : pointTo (f.root v) (bound + 1) v f.parent = f.parent := if_pos hDone
        refine ⟨0, ?_, ?_⟩
        · rw [hKeep]
          exact .stay hDone
        · have hRank := h.level_le_root v
          omega
      · have hMove : f.up v ≠ v := by
          intro hOwn
          exact hDone (hOwn.trans (h.root_of_own hOwn).symm)
        obtain ⟨hRanked, hRoot⟩ := h.shortcut hMove
        have hNext : (f.point v (f.root v)).root (f.up v) = f.root v := by
          rw [hRoot, h.root_up]
        have hLess : (f.point v (f.root v)).above (f.up v) < bound := by
          have hUp := h.above_up_lt hMove
          have hSame : (f.point v (f.root v)).above (f.up v) = f.above (f.up v) := rfl
          omega
        obtain ⟨steps, hRest, hSteps⟩ := ih (f.point v (f.root v)) (f.up v) hRanked hLess
        rw [hNext] at hRest hSteps
        have hStep : pointTo (f.root v) (bound + 1) v f.parent
            = pointTo (f.root v) bound (f.up v) (f.point v (f.root v)).parent := if_neg hDone
        refine ⟨steps + 1, ?_, ?_⟩
        · rw [hStep]
          exact .step hDone hRest
        · have hRank := h v hMove
          simp only [level_point] at hSteps
          omega

/-- Finding a root goes the way to it at most twice. -/
theorem exists_compresses (h : f.Ranked) (v : g.Vertex) :
    ∃ steps, Compresses (f.root v) f v steps (find v f).2
      ∧ steps + f.level v ≤ f.level (f.root v) :=
  compresses_pointTo g.vertexCount f v h (above_lt f v)

/-! ## The way to the root -/

/-- Pointing a vertex elsewhere leaves the way alone from any vertex of higher rank. -/
theorem iterate_point (h : f.Ranked) (count : Nat) :
    ∀ u, f.level v < f.level u → (f.point v w).up^[count] u = f.up^[count] u := by
  induction count with
  | zero => exact fun _ _ => rfl
  | succ count ih =>
      intro u hRank
      have hOther : (f.point v w).up u = f.up u := by
        rw [up_point, if_neg]
        rintro rfl
        omega
      have hHigher : f.level v < f.level (f.up u) := by
        by_cases hOwn : f.up u = u
        · rw [hOwn]
          exact hRank
        · have hUp := h u hOwn
          omega
      rw [Function.iterate_succ_apply, Function.iterate_succ_apply, hOther]
      exact ih _ hHigher

end Ranked

namespace Compresses

/-- A vertex that points to the root goes on pointing there. -/
theorem keeps (h : Compresses root f v steps f') (hPoints : f.up u = root) : f'.up u = root := by
  induction h with
  | stay _ => exact hPoints
  | step _ _ ih =>
      apply ih
      rw [up_point]
      split
      · rfl
      · exact hPoints

/-- Everything on the way points to the root. -/
theorem up_iterate (h : Compresses root f v steps f') (hRanked : f.Ranked)
    (hRoot : f.root v = root) (count : Nat) : f'.up (f.up^[count] v) = root := by
  induction h generalizing count with
  | @stay f v hDone =>
      have hTop : f.up root = root := hRoot ▸ hRanked.up_root v
      cases count with
      | zero => exact hDone
      | succ count => rw [Function.iterate_succ_apply, hDone, Function.iterate_fixed hTop, hTop]
  | @step f f' v steps hMove hRest ih =>
      have hUp : f.up v ≠ v := by
        intro hOwn
        exact hMove (hOwn.trans ((hRanked.root_of_own hOwn).symm.trans hRoot))
      subst hRoot
      obtain ⟨hStill, hRoots⟩ := hRanked.shortcut hUp
      cases count with
      | zero =>
          apply hRest.keeps
          rw [Function.iterate_zero_apply, up_point, if_pos rfl]
      | succ count =>
          rw [Function.iterate_succ_apply, ← hRanked.iterate_point count _ (hRanked v hUp)]
          exact ih hStill ((hRoots _).trans (hRanked.root_up v)) count

end Compresses

/-- Finding a root makes everything on the way to it point there directly. -/
theorem Ranked.up_find_iterate (h : f.Ranked) (v : g.Vertex) (count : Nat) :
    (find v f).2.up (f.up^[count] v) = f.root v := by
  obtain ⟨_, hCompresses, _⟩ := h.exists_compresses v
  exact hCompresses.up_iterate h rfl count

/-! ## Shallow forests -/

/-- After any operations on a graph with fewer than `2 ^ 64` vertices ranks grow towards the
root, and the class of a root is large enough for its rank, so that no rank exceeds 63 and
none will with the next union. Both loops take at most as many steps as the rank of the
root, and the second leaves roots and ranks alone and makes the whole way point to the root.
The components that are counted are the vertices that are their own parents, and where a
union takes one off there are two. -/
theorem stays_shallow (hVertices : g.vertexCount < 2 ^ 64) (operations : List (Operation g))
    (hCovered : ∀ operation ∈ operations, operation.Covered) :
    ∃ f, Operation.run operations (singletons g) = .ok f
      ∧ (∀ v, f.up v ≠ v → f.level v < f.level (f.up v))
      ∧ (∀ r, f.up r = r → 2 ^ f.level r ≤ f.classSize r)
      ∧ (∀ v, f.level v ≤ 63 ∧ ∀ a b e, (union a b e f).2.level v ≤ 63)
      ∧ (∀ v, (∃ steps ≤ f.level (f.root v), f.Climbs v steps (f.root v))
        ∧ ∃ steps ≤ f.level (f.root v), Compresses (f.root v) f v steps (find v f).2)
      ∧ (∀ v u, (find v f).2.root u = f.root u ∧ (find v f).2.level u = f.level u)
      ∧ (∀ v count, (find v f).2.up (f.up^[count] v) = f.root v)
      ∧ f.components = (g.vertices.filter fun v => f.up v = v).length
      ∧ ∀ a b, f.root a ≠ f.root b → 1 < f.components := by
  obtain ⟨f, hRun, h⟩ :=
    Operation.run_balanced operations (singletons g) (balanced_clear (singletons g)) hCovered
  have hRanks : ∀ {f : Forest g}, f.Balanced → ∀ v, f.level v ≤ 63 := by
    intro f h v
    have hLevel := h.level_lt hVertices v
    omega
  have hLoops : ∀ v, (∃ steps ≤ f.level (f.root v), f.Climbs v steps (f.root v))
      ∧ ∃ steps ≤ f.level (f.root v), Compresses (f.root v) f v steps (find v f).2 := by
    intro v
    obtain ⟨up, hClimbs, hUp⟩ := h.ranked.exists_climbs v
    obtain ⟨again, hCompresses, hAgain⟩ := h.ranked.exists_compresses v
    exact ⟨⟨up, by omega, hClimbs⟩, again, by omega, hCompresses⟩
  have hFind : ∀ v u, (find v f).2.root u = f.root u ∧ (find v f).2.level u = f.level u :=
    fun v u => ⟨(find_redirected h.ranked v).root u, rfl⟩
  have hRoots : f.components = (g.vertices.filter fun v => f.up v = v).length := by
    rw [h.components, roots]
    congr 1
    apply List.filter_congr
    intro v _
    rw [Bool.eq_iff_iff, beq_iff_eq, decide_eq_true_iff, h.ranked.root_eq_self_iff]
  exact ⟨f, hRun, h.ranked, fun r hr => h.weight r (h.ranked.root_of_own hr),
    fun v => ⟨hRanks h v, fun a b e => hRanks (h.union a b e) v⟩, hLoops, hFind,
    h.ranked.up_find_iterate, hRoots, fun a b => h.components_of_apart⟩

/-- Where two vertices of the triangle have been joined, one of them ranks above the other,
its class has room for that, and the way to it is one step. -/
theorem stays_shallow_triangle :
    triangle.vertexCount < 2 ^ 64
      ∧ (∀ operation ∈ Operation.triangleCourse, operation.Covered)
      ∧ ∃ f : Forest triangle, Operation.run Operation.triangleCourse (singletons triangle) = .ok f
        ∧ f.up ⟨0, by decide⟩ = ⟨1, by decide⟩
        ∧ f.level ⟨0, by decide⟩ < f.level ⟨1, by decide⟩
        ∧ 2 ≤ f.classSize ⟨1, by decide⟩
        ∧ (∃ steps ≤ 1, f.Climbs ⟨0, by decide⟩ steps ⟨1, by decide⟩)
        ∧ (find ⟨0, by decide⟩ f).2.root ⟨2, by decide⟩ = f.root ⟨2, by decide⟩
        ∧ 1 < f.components := by
  have hVertices : triangle.vertexCount < 2 ^ 64 := by decide
  have hCovered := Operation.triangleCourse_covered
  obtain ⟨f, hRun, hRanks, hWeight, _, hLoops, hFind, _, _, hApart⟩ :=
    stays_shallow hVertices _ hCovered
  have hMade : (Operation.run Operation.triangleCourse (singletons triangle)).map
      (fun f => ((f.up ⟨0, by decide⟩, f.up ⟨1, by decide⟩, f.level ⟨1, by decide⟩),
        f.root ⟨0, by decide⟩, f.root ⟨2, by decide⟩))
      = .ok ((⟨1, by decide⟩, ⟨1, by decide⟩, 1), ⟨1, by decide⟩, ⟨2, by decide⟩) := rfl
  rw [hRun] at hMade
  simp only [Except.map, Except.ok.injEq, Prod.mk.injEq] at hMade
  obtain ⟨⟨hUp, hTop, hLevel⟩, hRoot, hOther⟩ := hMade
  have hRank := hRanks ⟨0, by decide⟩ (by rw [hUp]; decide)
  rw [hUp] at hRank
  have hClass := hWeight _ hTop
  rw [hLevel] at hClass
  obtain ⟨steps, hSteps, hClimbs⟩ := (hLoops ⟨0, by decide⟩).1
  rw [hRoot] at hSteps hClimbs
  have hComponents := hApart ⟨0, by decide⟩ ⟨2, by decide⟩ (by rw [hRoot, hOther]; decide)
  exact ⟨hVertices, hCovered, f, hRun, hUp, hRank, hClass,
    ⟨steps, hLevel ▸ hSteps, hClimbs⟩, (hFind _ _).1, hComponents⟩

end LocalRepair.Forest
