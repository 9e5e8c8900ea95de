import Mathlib.Data.List.Perm.Subperm
import LocalRepair.Graph.Reach

/-!
# How one edge changes what is joined

Everything that a spanning forest claims about a graph comes down to the effect
of a single edge: which pairs of vertices become joined when it appears, and how
many pieces are left. This file says so for an arbitrary set of present edges,
without a forest.

The number of pieces is the length of a row of representatives, and that is a
number at all because any two such rows are equally long.

## Main results

* `Joined.plus_iff`: what is joined after one edge was added.
* `Joined.plus_iff_of_joined`: an edge between joined vertices joins nothing.
* `Representatives.length_eq`: the number of pieces is well defined.
* `Representatives.length_le_one_iff`: at most one piece means everything is
  joined.
-/

namespace LocalRepair.Graph

variable {g : Graph} {present : g.EdgeId → Prop} {u v w : g.Vertex} {e : g.EdgeId}

/-! ## One edge more -/

/-- The present edges together with one more. -/
def plus (present : g.EdgeId → Prop) (e : g.EdgeId) : g.EdgeId → Prop :=
  fun d => present d ∨ d = e

/-- The present edges without one of them. -/
def minus (present : g.EdgeId → Prop) (e : g.EdgeId) : g.EdgeId → Prop :=
  fun d => present d ∧ d ≠ e

/-- An edge leads from its first end to its second. -/
theorem leads_ends (g : Graph) (e : g.EdgeId) : g.Leads e (g.edge e).a (g.edge e).b :=
  Or.inl ⟨rfl, rfl⟩

namespace Joined

/-- Only which edges are present matters. -/
theorem congr {other : g.EdgeId → Prop} (h : ∀ d, present d ↔ other d) :
    Joined g present u v ↔ Joined g other u v :=
  ⟨mono fun d => (h d).mp, mono fun d => (h d).mpr⟩

/-- With one edge more, two vertices are joined if they were joined before or if
the new edge closes the gap between them, in one of its two directions. -/
theorem plus_iff :
    Joined g (plus present e) u v ↔
      Joined g present u v
        ∨ (Joined g present u (g.edge e).a ∧ Joined g present (g.edge e).b v)
        ∨ (Joined g present u (g.edge e).b ∧ Joined g present (g.edge e).a v) := by
  constructor
  · intro h
    induction h with
    | here => exact Or.inl here
    | @along v w d _ hPresent hLeads ih =>
        rcases hPresent with hOld | rfl
        · -- An old edge extends whichever of the three connections is there.
          rcases ih with h | ⟨hu, hv⟩ | ⟨hu, hv⟩
          · exact Or.inl (along h hOld hLeads)
          · exact Or.inr (Or.inl ⟨hu, along hv hOld hLeads⟩)
          · exact Or.inr (Or.inr ⟨hu, along hv hOld hLeads⟩)
        · rcases hLeads with ⟨rfl, rfl⟩ | ⟨rfl, rfl⟩
          · rcases ih with h | ⟨hu, _⟩ | ⟨hu, _⟩
            · exact Or.inr (Or.inl ⟨h, here⟩)
            · exact Or.inr (Or.inl ⟨hu, here⟩)
            · exact Or.inl hu
          · rcases ih with h | ⟨hu, _⟩ | ⟨hu, _⟩
            · exact Or.inr (Or.inr ⟨h, here⟩)
            · exact Or.inl hu
            · exact Or.inr (Or.inr ⟨hu, here⟩)
  · have hOld : ∀ d, present d → plus present e d := fun _ => Or.inl
    have hNew : Joined g (plus present e) (g.edge e).a (g.edge e).b :=
      single (Or.inr rfl) (leads_ends g e)
    rintro (h | ⟨hu, hv⟩ | ⟨hu, hv⟩)
    · exact h.mono hOld
    · exact ((hu.mono hOld).trans hNew).trans (hv.mono hOld)
    · exact ((hu.mono hOld).trans hNew.symm).trans (hv.mono hOld)

/-- An edge between two vertices that are joined already joins nothing. -/
theorem plus_iff_of_joined (h : Joined g present (g.edge e).a (g.edge e).b) :
    Joined g (plus present e) u v ↔ Joined g present u v := by
  rw [plus_iff]
  constructor
  · rintro (huv | ⟨hu, hv⟩ | ⟨hu, hv⟩)
    · exact huv
    · exact (hu.trans h).trans hv
    · exact (hu.trans h.symm).trans hv
  · exact Or.inl

/-- An edge that is taken away and put back. -/
theorem plus_minus (hPresent : present e) :
    Joined g (plus (minus present e) e) u v ↔ Joined g present u v := by
  apply congr
  intro d
  by_cases h : d = e
  · simp [plus, h, hPresent]
  · simp [plus, minus, h]

/-- Taking an edge away joins nothing. -/
theorem of_minus (h : Joined g (minus present e) u v) : Joined g present u v :=
  h.mono fun _ hd => hd.1

end Joined

/-! ## The number of pieces -/

namespace Representatives

variable {row other : List g.Vertex}

/-- Every row of representatives is at most as long as any other: sending each
of its vertices to the representative of the same piece is injective. -/
theorem length_le (h : Representatives g present row) (k : Representatives g present other) :
    row.length ≤ other.length := by
  choose partner hMem hJoined using k.covers
  have hApart : (row.map partner).Nodup := by
    refine List.pairwise_map.mpr (h.apart.imp fun {r s} hApart hEq => hApart ?_)
    exact (hJoined r).symm.trans (hEq ▸ hJoined s)
  have hSub : row.map partner ⊆ other := by
    intro s hs
    obtain ⟨r, _, rfl⟩ := List.mem_map.mp hs
    exact hMem r
  simpa using (List.subperm_of_subset hApart hSub).length_le

/-- The number of pieces does not depend on the representatives. -/
theorem length_eq (h : Representatives g present row) (k : Representatives g present other) :
    row.length = other.length :=
  Nat.le_antisymm (h.length_le k) (k.length_le h)

/-- There is at most one piece exactly when everything is joined. -/
theorem length_le_one_iff (h : Representatives g present row) :
    row.length ≤ 1 ↔ ∀ u v : g.Vertex, Joined g present u v := by
  constructor
  · intro hLength u v
    obtain ⟨r, hr, hru⟩ := h.covers u
    obtain ⟨s, hs, hsv⟩ := h.covers v
    have hEq : r = s := by
      match row, hLength with
      | [], _ => simp at hr
      | [t], _ => simp_all
    exact hru.symm.trans (hEq ▸ hsv)
  · intro hAll
    match row, h.apart with
    | [], _ => simp
    | [r], _ => simp
    | r :: s :: rest, hApart =>
        have hNot := (List.pairwise_cons.mp hApart).1 s (by simp)
        exact absurd (hAll r s) hNot

end Representatives
end LocalRepair.Graph
