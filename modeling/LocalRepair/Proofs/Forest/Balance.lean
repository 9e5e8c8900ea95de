import Mathlib.Algebra.Ring.Nat
import LocalRepair.Proofs.Forest.Course
import LocalRepair.Proofs.Outcome

/-!
# Balanced forests

A forest does not know why classes are joined: any two vertices may be joined, as the doing
of any edge, in any order, and what it records is then no forest of its graph. But ranks and
counters do not depend on the reason. `Balanced` says what holds of them after any course of
operations: ranks grow towards the root, a root of rank `k` has a class of at least `2 ^ k`
vertices, and the components that are counted are the roots.

Ranks rise in one place only. Where two roots of one rank are linked, the new root gets the
next rank, and its class is as large as both were together. So the bound on a class is twice
what it was, and this is why ranks are small: there are not enough vertices for large ones.

## Main results

* `classSize_hung_top`, `classSize_hung_other`: the classes after hanging one root below
  another.
* `Balanced.union`: linking keeps the balance.
* `Balanced.after`, `Operation.run_balanced`: so does any operation, and any course of them.
* `Balanced.pow_level_le`: ranks are bounded by the number of vertices.
-/

namespace LocalRepair.Forest

variable {g : Graph} {f f' : Forest g} {v : g.Vertex}

/-! ## Classes -/

/-- The number of vertices that have a root. -/
def classSize (f : Forest g) (r : g.Vertex) : Nat :=
  (Finset.univ.filter fun u : g.Vertex => f.root u = r).card

theorem classSize_le (f : Forest g) (r : g.Vertex) : f.classSize r ≤ g.vertexCount := by
  have hAll := Finset.card_filter_le Finset.univ fun u : g.Vertex => f.root u = r
  simpa [classSize] using hAll

/-- Classes with the same roots are as large. -/
theorem classSize_congr (h : ∀ v, f'.root v = f.root v) (r : g.Vertex) :
    f'.classSize r = f.classSize r := by
  simp only [classSize, h]

/-- The roots are the vertices that are their own parents. -/
theorem Ranked.root_eq_self_iff (h : f.Ranked) : f.root v = v ↔ f.up v = v := by
  constructor
  · intro hRoot
    rw [← hRoot]
    exact h.up_root v
  · exact h.root_of_own

section Hanging

variable {low high : g.Vertex} {ranks : Vector Nat g.vertexCount}

/-- The new root gets the vertices of both classes. -/
theorem classSize_hung_top (h : f.Ranked) (hLow : f.up low = low) (hHigh : f.up high = high)
    (hNe : low ≠ high) (hRanked : (f.hung low high ranks).Ranked) :
    (f.hung low high ranks).classSize high = f.classSize low + f.classSize high := by
  have hEither : ∀ u, (f.hung low high ranks).root u = high ↔ f.root u = low ∨ f.root u = high := by
    intro u
    rw [h.root_hang hLow hHigh hNe hRanked]
    by_cases hu : f.root u = low
    · simp [hu]
    · simp [hu]
  have hApart : Disjoint (Finset.univ.filter fun u => f.root u = low)
      (Finset.univ.filter fun u => f.root u = high) := by
    apply Finset.disjoint_filter.mpr
    intro u _ hu hu'
    exact hNe (hu.symm.trans hu')
  simp only [classSize, hEither]
  rw [Finset.filter_or, Finset.card_union_of_disjoint hApart]

/-- The classes of the other roots stay as they are. -/
theorem classSize_hung_other (h : f.Ranked) (hLow : f.up low = low) (hHigh : f.up high = high)
    (hNe : low ≠ high) (hRanked : (f.hung low high ranks).Ranked) {r : g.Vertex}
    (hrLow : r ≠ low) (hrHigh : r ≠ high) :
    (f.hung low high ranks).classSize r = f.classSize r := by
  have hSame : ∀ u, (f.hung low high ranks).root u = r ↔ f.root u = r := by
    intro u
    rw [h.root_hang hLow hHigh hNe hRanked]
    by_cases hu : f.root u = low
    · simp [hu, hrLow.symm, hrHigh.symm]
    · simp [hu]
  simp only [classSize, hSame]

end Hanging

/-! ## The balance -/

/-- A vertex that is not its own parent ranks below its parent, every root has a class that
is large enough for its rank, and the counters are right. -/
structure Balanced (f : Forest g) : Prop where
  ranked : f.Ranked
  weight : ∀ r, f.root r = r → 2 ^ f.level r ≤ f.classSize r
  components : f.components = f.roots.length
  total : f.size + f.components = g.vertexCount

namespace Balanced

/-- Redirected parents leave the balance alone. -/
theorem redirected (h : f.Balanced) (k : Redirected f f') : f'.Balanced := by
  have hLevel : ∀ v, f'.level v = f.level v := fun v => by
    rw [k.onlyParents]
    rfl
  refine ⟨k.ranked, fun r hr => ?_, ?_, ?_⟩
  · rw [k.root] at hr
    rw [hLevel, classSize_congr k.root]
    exact h.weight r hr
  · rw [k.components, k.roots, h.components]
  · rw [k.size, k.components, h.total]

/-- So does what a forest says about being up to date. -/
theorem of_fields (h : f.Balanced) (built : Bool) (builds : Nat) :
    Balanced { f with built, builds } :=
  ⟨h.ranked, h.weight, h.components, h.total⟩

/-- Where one root is hung below another, and only rises if both had one rank, the classes
stay large enough. -/
theorem weight_hung (h : f.Balanced) {low high : g.Vertex} {ranks : Vector Nat g.vertexCount}
    (hLow : f.up low = low) (hHigh : f.up high = high) (hNe : low ≠ high)
    (hRanked : (f.hung low high ranks).Ranked) (hRaised : f.RaisedOnTie low high ranks)
    (r : g.Vertex) (hr : (f.hung low high ranks).root r = r) :
    2 ^ (f.hung low high ranks).level r ≤ (f.hung low high ranks).classSize r := by
  by_cases hTop : r = high
  · subst hTop
    rw [classSize_hung_top h.ranked hLow hHigh hNe hRanked]
    have hLowWeight := h.weight low (h.ranked.root_of_own hLow)
    have hHighWeight := h.weight r (h.ranked.root_of_own hHigh)
    rcases hRaised r with hKept | ⟨_, hTie, hRisen⟩
    · rw [hKept]
      omega
    · -- Both classes have the size that the old rank asks for, and together twice of it.
      rw [hTie] at hLowWeight
      rw [hRisen, Nat.pow_succ]
      omega
  · have hOwn : r ≠ low ∧ f.root r = r := by
      rw [h.ranked.root_hang hLow hHigh hNe hRanked] at hr
      split at hr
      · exact absurd hr.symm hTop
      · rename_i hNot
        exact ⟨fun hEq => hNot (hr.trans hEq), hr⟩
    rw [classSize_hung_other h.ranked hLow hHigh hNe hRanked hOwn.1 hTop]
    rcases hRaised r with hKept | ⟨hEq, _⟩
    · rw [hKept]
      exact h.weight r hOwn.2
    · exact absurd hEq hTop

/-- A union of any two vertices by any edge keeps the balance. -/
theorem union (h : f.Balanced) (a b : g.Vertex) (e : g.EdgeId) :
    (Forest.union a b e f).2.Balanced := by
  by_cases hSame : f.root a = f.root b
  · exact h.redirected (union_of_same h.ranked hSame).2
  · obtain ⟨_, hLinked⟩ := union_of_apart (e := e) h.ranked hSame
    obtain ⟨_, f₁, low, high, ranks, hRedirected, hUnion, hHung, hRaised, hEnds⟩ :=
      union_hung (e := e) h.ranked hSame
    have h₁ := h.redirected hRedirected
    have hApart : f₁.root a ≠ f₁.root b := by
      rw [hRedirected.root, hRedirected.root]
      exact hSame
    have hWeight : ∀ r, (f₁.hung low high ranks).root r = r →
        2 ^ (f₁.hung low high ranks).level r ≤ (f₁.hung low high ranks).classSize r := by
      rcases hEnds with ⟨rfl, rfl⟩ | ⟨rfl, rfl⟩
      · exact h₁.weight_hung (h₁.ranked.up_root a) (h₁.ranked.up_root b) hApart hHung hRaised
      · exact h₁.weight_hung (h₁.ranked.up_root b) (h₁.ranked.up_root a) hApart.symm hHung hRaised
    have hRoots := hLinked.roots
    have hCount := h.components
    have hTotal := h.total
    refine ⟨hLinked.ranked, ?_, ?_, ?_⟩
    · rw [hUnion]
      exact hWeight
    · rw [hLinked.components]
      omega
    · rw [hLinked.size, hLinked.components]
      omega

/-- Unions along the present edges of a row keep the balance. -/
theorem unionPresent (isPresent : g.EdgeId → Bool) (row : List g.EdgeId) :
    ∀ f : Forest g, f.Balanced → (Forest.unionPresent isPresent row f).Balanced := by
  induction row with
  | nil => exact fun _ h => h
  | cons e row ih =>
      intro f h
      rw [Forest.unionPresent]
      by_cases he : isPresent e = true
      · rw [if_pos he]
        exact ih _ (h.union _ _ e)
      · rw [if_neg he]
        exact ih f h

/-! ## Bounds -/

/-- A rank needs as many vertices as the power of two. -/
theorem pow_level_le (h : f.Balanced) (v : g.Vertex) : 2 ^ f.level v ≤ g.vertexCount :=
  calc 2 ^ f.level v
      ≤ 2 ^ f.level (f.root v) := Nat.pow_le_pow_right (by decide) (h.ranked.level_le_root v)
    _ ≤ f.classSize (f.root v) := h.weight _ (h.ranked.root_root v)
    _ ≤ g.vertexCount := f.classSize_le _

/-- Ranks of a graph with fewer than `2 ^ bits` vertices are below `bits`. -/
theorem level_lt (h : f.Balanced) {bits : Nat} (hVertices : g.vertexCount < 2 ^ bits)
    (v : g.Vertex) : f.level v < bits :=
  (Nat.pow_lt_pow_iff_right (by decide)).mp (Nat.lt_of_le_of_lt (h.pow_level_le v) hVertices)

/-- Where two vertices are in different classes, two components are counted, and one can be
taken off. -/
theorem components_of_apart (h : f.Balanced) {a b : g.Vertex} (hApart : f.root a ≠ f.root b) :
    1 < f.components := by
  have hBoth : [f.root a, f.root b] ⊆ f.roots := by
    simp [h.ranked.root_root]
  have hNodup : [f.root a, f.root b].Nodup := by
    simpa using hApart
  rw [h.components]
  exact (hNodup.subperm hBoth).length_le

end Balanced

/-- Where no classes have been joined, every vertex is a class of its own and has rank
zero. -/
theorem balanced_clear (f : Forest g) : f.clear.Balanced := by
  have hSpans := clear_spans f
  refine ⟨ranked_clear f, fun r _ => ?_, hSpans.components, hSpans.total⟩
  have hLevel : f.clear.level r = 0 := Vector.getElem_replicate r.isLt
  have hAlone : f.clear.classSize r = 1 := by
    simp [classSize, Finset.filter_eq']
  simp [hLevel, hAlone]

/-! ## Courses of operations -/

/-- What can be done to a forest. Vertices are joined for any reason, and assignments may
differ each time. -/
inductive Operation (g : Graph) where
  | union (a b : g.Vertex) (e : g.EdgeId)
  | find (v : g.Vertex)
  | joined (a b : g.Vertex)
  | noteAppeared (e : g.EdgeId)
  | noteGone (e : g.EdgeId)
  | invalidate
  | clear
  | bringUpToDate (a : Assignment)
  | rebuild (a : Assignment)

namespace Operation

/-- An assignment that is given has a value for every edge. -/
def Covered : Operation g → Prop
  | bringUpToDate a | rebuild a => g.coveredBy a = true
  | _ => True

/-- The forest after an operation. -/
def after : Operation g → Forest g → Except Fault (Forest g)
  | union a b e, f => .ok (Forest.union a b e f).2
  | find v, f => .ok (Forest.find v f).2
  | joined a b, f => .ok (Forest.joined a b f).2
  | noteAppeared e, f => .ok (f.noteAppeared e)
  | noteGone e, f => .ok (f.noteGone e)
  | invalidate, f => .ok f.invalidate
  | clear, f => .ok f.clear
  | bringUpToDate a, f => f.bringUpToDate a
  | rebuild a, f => f.rebuild a

/-- The forest after a course of operations. -/
def run (operations : List (Operation g)) (f : Forest g) : Except Fault (Forest g) :=
  operations.foldlM (fun f operation => operation.after f) f

end Operation

/-- An operation succeeds and keeps the balance. -/
theorem Balanced.after (h : f.Balanced) (operation : Operation g) (hCovered : operation.Covered) :
    ∃ f', operation.after f = .ok f' ∧ f'.Balanced := by
  have hRebuild : ∀ a : Assignment, g.coveredBy a = true →
      ∃ f', f.rebuild a = .ok f' ∧ f'.Balanced := by
    intro a ha
    refine ⟨f.buildFrom (g.presentIn a), if_pos ha, ?_⟩
    exact ((balanced_clear f).unionPresent _ _).of_fields true _
  cases operation with
  | union a b e => exact ⟨_, rfl, h.union a b e⟩
  | find v => exact ⟨_, rfl, h.redirected (find_redirected h.ranked v)⟩
  | joined a b => exact ⟨_, rfl, h.redirected (asks_joined a b f (.refl h.ranked)).2⟩
  | noteAppeared e =>
      refine ⟨_, rfl, ?_⟩
      unfold noteAppeared
      split
      · exact h.union _ _ e
      · exact h
  | noteGone e =>
      refine ⟨_, rfl, ?_⟩
      unfold noteGone
      split
      · exact h.of_fields false _
      · exact h
  | invalidate => exact ⟨_, rfl, h.of_fields false _⟩
  | clear => exact ⟨_, rfl, balanced_clear f⟩
  | bringUpToDate a =>
      by_cases hBuilt : f.built = true
      · exact ⟨f, if_pos hBuilt, h⟩
      · obtain ⟨f', hStep, h'⟩ := hRebuild a hCovered
        exact ⟨f', (if_neg hBuilt).trans hStep, h'⟩
  | rebuild a => exact hRebuild a hCovered

/-- A course of operations succeeds and keeps the balance. -/
theorem Operation.run_balanced (operations : List (Operation g)) (f : Forest g) (h : f.Balanced)
    (hCovered : ∀ operation ∈ operations, operation.Covered) :
    ∃ f', run operations f = .ok f' ∧ f'.Balanced :=
  foldlM_keeps (fun _ operation hNow => hNow.after operation) operations f h hCovered

/-- A course on the triangle: the forest is built, loses an edge and is taken apart, and then
two vertices are joined by the loop at one of them. -/
def Operation.triangleCourse : List (Operation triangle) :=
  [.rebuild (.allFalse 5), .noteAppeared ⟨0, by decide⟩, .noteGone ⟨0, by decide⟩,
    .bringUpToDate (.allFalse 5), .clear, .union ⟨1, by decide⟩ ⟨0, by decide⟩ ⟨3, by decide⟩,
    .joined ⟨0, by decide⟩ ⟨2, by decide⟩, .find ⟨0, by decide⟩]

theorem Operation.triangleCourse_covered :
    ∀ operation ∈ triangleCourse, operation.Covered := by
  have hCovered : triangle.coveredBy (.allFalse 5) = true := by decide
  simp [triangleCourse, Covered, hCovered]

end LocalRepair.Forest
