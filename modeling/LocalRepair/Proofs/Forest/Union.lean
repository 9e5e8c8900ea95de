import Mathlib.Data.List.Nodup
import LocalRepair.Proofs.Forest.Query

/-!
# Joining two classes

Joining the classes of two vertices either finds them in one class already, and
then it was only a question, or hangs the root of one class below the root of
the other. `Linked` says what the second case does to everything that can be
asked: the two classes become one, one root disappears, and the edge is
recorded.

Nothing is assumed about why the classes are joined, or by which edge.

## Main results

* `union_of_same`: nothing but redirected parents.
* `union_hung`: what a union of two classes does to parents and ranks.
* `union_of_apart`: what it does to all that can be asked.
-/

namespace LocalRepair.Forest

variable {g : Graph} {f f' : Forest g} {a b : g.Vertex} {e : g.EdgeId}

/-- The second structure is the first with the classes of two vertices made one,
recorded as the doing of an edge. -/
structure Linked (f : Forest g) (a b : g.Vertex) (e : g.EdgeId) (f' : Forest g) : Prop where
  ranked : f'.Ranked
  root_eq_iff : ∀ u v, f'.root u = f'.root v ↔
    f.root u = f.root v
      ∨ (f.root u = f.root a ∧ f.root b = f.root v)
      ∨ (f.root u = f.root b ∧ f.root a = f.root v)
  roots : f'.roots.length + 1 = f.roots.length
  contains : ∀ d, f'.contains d = true ↔ f.contains d = true ∨ d = e
  size : f'.size = f.size + 1
  components : f'.components = f.components - 1
  built : f'.built = f.built
  builds : f'.builds = f.builds

/-- It does not matter which of the two vertices comes first. -/
theorem Linked.symm (h : Linked f a b e f') : Linked f b a e f' :=
  { h with root_eq_iff := fun u v => (h.root_eq_iff u v).trans (or_congr_right or_comm) }

/-- Nor does it matter which questions were asked before. -/
theorem Linked.of_redirected {f₁ : Forest g} (h : Redirected f f₁) (k : Linked f₁ a b e f') :
    Linked f a b e f' :=
  { ranked := k.ranked
    root_eq_iff := fun u v => by rw [k.root_eq_iff]; simp only [h.root]
    roots := by rw [k.roots, h.roots]
    contains := fun d => by rw [k.contains, h.contains]
    size := by rw [k.size, h.size]
    components := by rw [k.components, h.components]
    built := by rw [k.built, h.built]
    builds := by rw [k.builds, h.onlyParents] }

/-! ## Hanging one root below another -/

/-- The ranks after hanging one root below another. Only the new root may have risen, and
only above a rank that both had. -/
def RaisedOnTie (f : Forest g) (low high : g.Vertex) (ranks : Vector Nat g.vertexCount) : Prop :=
  ∀ u, (f.hung low high ranks).level u = f.level u
    ∨ (u = high ∧ f.level low = f.level high
      ∧ (f.hung low high ranks).level u = f.level high + 1)

/-- Of two different roots, linking hangs one below the other. -/
theorem linkRoots_hung (h : f.Ranked) {ra rb : g.Vertex} (ha : f.up ra = ra) (hb : f.up rb = rb)
    (hNe : ra ≠ rb) :
    ∃ low high ranks, f.linkRoots ra rb = f.hung low high ranks
      ∧ (f.hung low high ranks).Ranked
      ∧ f.RaisedOnTie low high ranks
      ∧ ((low = ra ∧ high = rb) ∨ (low = rb ∧ high = ra)) := by
  rcases Nat.lt_trichotomy (f.level ra) (f.level rb) with hLess | hEq | hMore
  · refine ⟨ra, rb, f.rank, ?_, ?_, fun _ => Or.inl rfl, Or.inl ⟨rfl, rfl⟩⟩
    · have hCompare : compare f.rank[ra] f.rank[rb] = .lt := Nat.compare_eq_lt.mpr hLess
      rw [linkRoots, hCompare]
      rfl
    · exact h.hang hb (fun _ _ => rfl) (Nat.le_refl _) hLess
  · have hLevel : ∀ u, (f.hung rb ra (withEntry f.rank ra (f.level ra + 1))).level u
        = if u = ra then f.level ra + 1 else f.level u :=
      fun u => get_withEntry f.rank ra u _
    refine ⟨rb, ra, withEntry f.rank ra (f.level ra + 1), ?_, ?_, fun u => ?_, Or.inr ⟨rfl, rfl⟩⟩
    · have hCompare : compare f.rank[ra] f.rank[rb] = .eq := Nat.compare_eq_eq.mpr hEq
      rw [linkRoots, hCompare]
      rfl
    · refine h.hang ha ?_ ?_ ?_
      · intro u hu
        rw [hLevel, if_neg hu]
      · rw [hLevel, if_pos rfl]
        exact Nat.le_succ _
      · rw [hLevel, hLevel, if_pos rfl, if_neg hNe.symm, ← hEq]
        exact Nat.lt_succ_self _
    · rw [hLevel]
      by_cases hu : u = ra
      · exact Or.inr ⟨hu, hEq.symm, if_pos hu⟩
      · exact Or.inl (if_neg hu)
  · refine ⟨rb, ra, f.rank, ?_, ?_, fun _ => Or.inl rfl, Or.inr ⟨rfl, rfl⟩⟩
    · have hCompare : compare f.rank[ra] f.rank[rb] = .gt := Nat.compare_eq_gt.mpr hMore
      rw [linkRoots, hCompare]
      rfl
    · exact h.hang ha (fun _ _ => rfl) (Nat.le_refl _) hMore

section Hanging

variable {low high : g.Vertex} {ranks : Vector Nat g.vertexCount}

/-- Hanging one root below another makes their two classes one. -/
theorem root_eq_iff_of_hung (h : f.Ranked) (hLow : f.up low = low) (hHigh : f.up high = high)
    (hNe : low ≠ high) (hRanked : (f.hung low high ranks).Ranked) (u v : g.Vertex) :
    (f.hung low high ranks).root u = (f.hung low high ranks).root v ↔
      f.root u = f.root v
        ∨ (f.root u = low ∧ f.root v = high) ∨ (f.root u = high ∧ f.root v = low) := by
  rw [h.root_hang hLow hHigh hNe hRanked, h.root_hang hLow hHigh hNe hRanked]
  by_cases hu : f.root u = low
  · by_cases hv : f.root v = low
    · simp [hu, hv]
    · simp only [hu, hv, if_true, if_false, true_and, and_false, or_false]
      constructor
      · intro hEq
        exact Or.inr hEq.symm
      · rintro (hEq | hEq)
        · exact absurd hEq.symm hv
        · exact hEq.symm
  · by_cases hv : f.root v = low
    · simp only [hu, hv, if_true, if_false, false_and, and_true, false_or]
    · simp [hu, hv]

/-- Of the roots, exactly the lower one disappears. -/
theorem roots_hung (h : f.Ranked) (hLow : f.up low = low) (hHigh : f.up high = high)
    (hNe : low ≠ high) (hRanked : (f.hung low high ranks).Ranked) :
    (f.hung low high ranks).roots = f.roots.erase low := by
  rw [(roots_nodup f).erase_eq_filter, roots, roots, List.filter_filter]
  apply List.filter_congr
  intro v _
  rw [h.root_hang hLow hHigh hNe hRanked, Bool.eq_iff_iff]
  simp only [beq_iff_eq, bne_iff_ne, Bool.and_eq_true]
  by_cases hv : f.root v = low
  · rw [if_pos hv]
    constructor
    · rintro rfl
      exact absurd (hv.symm.trans (h.root_of_own hHigh)) hNe
    · rintro ⟨hNot, hOwn⟩
      exact absurd (hOwn.symm.trans hv) hNot
  · rw [if_neg hv]
    constructor
    · intro hOwn
      exact ⟨fun hEq => hv (hOwn.trans hEq), hOwn⟩
    · exact fun hOwn => hOwn.2

/-- Hanging the root of one class below the root of another links the classes. -/
theorem hung_linked (h : f.Ranked) (hApart : f.root a ≠ f.root b)
    (hRanked : (f.hung (f.root a) (f.root b) ranks).Ranked) :
    Linked f a b e ((f.hung (f.root a) (f.root b) ranks).record e) := by
  have hLow := h.up_root a
  have hHigh := h.up_root b
  refine
    { ranked := hRanked, root_eq_iff := ?_, roots := ?_, contains := ?_
      size := rfl, components := rfl, built := rfl, builds := rfl }
  · intro u v
    show (f.hung (f.root a) (f.root b) ranks).root u
      = (f.hung (f.root a) (f.root b) ranks).root v ↔ _
    rw [root_eq_iff_of_hung h hLow hHigh hApart hRanked]
    simp only [eq_comm (a := f.root v)]
  · show (f.hung (f.root a) (f.root b) ranks).roots.length + 1 = _
    have hMem : f.root a ∈ f.roots := by
      rw [mem_roots, h.root_root]
    have hPos := List.length_pos_of_mem hMem
    rw [roots_hung h hLow hHigh hApart hRanked, List.length_erase_of_mem hMem]
    omega
  · exact fun d => marked_withEntry.trans or_comm

end Hanging

/-! ## The union of two classes -/

/-- A union looks for both roots and links them if they differ. -/
theorem union_eq (a b : g.Vertex) (e : g.EdgeId) (f : Forest g) :
    ∃ f₂, (f.Ranked → Redirected f f₂) ∧
      union a b e f
        = if f.root a = (find a f).2.root b then (false, f₂)
          else (true, (f₂.linkRoots (f.root a) ((find a f).2.root b)).record e) := by
  refine ⟨(find b (find a f).2).2, fun h => ?_, ?_⟩
  · have hFirst := find_redirected h a
    exact hFirst.trans (find_redirected hFirst.ranked b)
  · show (if f.root a = (find a f).2.root b then _ else _ : Query g Bool) _ = _
    split <;> rfl

/-- Within one class a union is only a question. -/
theorem union_of_same (h : f.Ranked) (hSame : f.root a = f.root b) :
    (union a b e f).1 = false ∧ Redirected f (union a b e f).2 := by
  obtain ⟨f₂, hRedirected, hUnion⟩ := union_eq a b e f
  rw [(find_redirected h a).root b, if_pos hSame] at hUnion
  rw [hUnion]
  exact ⟨rfl, hRedirected h⟩

/-- Between two classes a union hangs one root below the other, after questions that
redirect parents. -/
theorem union_hung (h : f.Ranked) (hApart : f.root a ≠ f.root b) :
    (union a b e f).1 = true ∧ ∃ f₁ low high ranks, Redirected f f₁
      ∧ (union a b e f).2 = (f₁.hung low high ranks).record e
      ∧ (f₁.hung low high ranks).Ranked
      ∧ f₁.RaisedOnTie low high ranks
      ∧ ((low = f₁.root a ∧ high = f₁.root b) ∨ (low = f₁.root b ∧ high = f₁.root a)) := by
  obtain ⟨f₁, hRedirected, hUnion⟩ := union_eq a b e f
  have hSame := hRedirected h
  have hRanked := hSame.ranked
  have hStillApart : f₁.root a ≠ f₁.root b := by
    rw [hSame.root, hSame.root]
    exact hApart
  rw [(find_redirected h a).root b, if_neg hApart, ← hSame.root a, ← hSame.root b] at hUnion
  obtain ⟨low, high, ranks, hLink, hHung, hRaised, hEnds⟩ :=
    linkRoots_hung hRanked (hRanked.up_root a) (hRanked.up_root b) hStillApart
  rw [hUnion, hLink]
  exact ⟨rfl, f₁, low, high, ranks, hSame, rfl, hHung, hRaised, hEnds⟩

/-- Between two classes a union makes them one. -/
theorem union_of_apart (h : f.Ranked) (hApart : f.root a ≠ f.root b) :
    (union a b e f).1 = true ∧ Linked f a b e (union a b e f).2 := by
  obtain ⟨hTrue, f₁, low, high, ranks, hSame, hUnion, hHung, _, hEnds⟩ :=
    union_hung (e := e) h hApart
  have hRanked := hSame.ranked
  have hStillApart : f₁.root a ≠ f₁.root b := by
    rw [hSame.root, hSame.root]
    exact hApart
  rw [hUnion]
  refine ⟨hTrue, .of_redirected hSame ?_⟩
  rcases hEnds with ⟨rfl, rfl⟩ | ⟨rfl, rfl⟩
  · exact hung_linked hRanked hStillApart hHung
  · exact (hung_linked hRanked hStillApart.symm hHung).symm

end LocalRepair.Forest
