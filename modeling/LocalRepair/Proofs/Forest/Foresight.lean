import LocalRepair.Proofs.Forest.Balance

/-!
# What an edge would join

Whether an edge would join the classes of two vertices is answered from four roots, without
joining anything. The answer is that of the union itself: it is yes exactly if the two are in
different classes now and would be in one class after a union along the edge. Nothing is
assumed about how the classes came about. In particular a loop joins nothing, and neither
does an edge within one class.

## Main results

* `Ranked.root_union_eq_iff`: the classes after a union.
* `bridges_foresees_union`.
-/

namespace LocalRepair.Forest

variable {g : Graph} {f : Forest g}

/-- After a union two vertices are in one class if they were before, or if each was with one
of the vertices that were joined. -/
theorem Ranked.root_union_eq_iff (h : f.Ranked) (a b : g.Vertex) (e : g.EdgeId)
    (u v : g.Vertex) :
    (union a b e f).2.root u = (union a b e f).2.root v ↔
      f.root u = f.root v
        ∨ (f.root u = f.root a ∧ f.root b = f.root v)
        ∨ (f.root u = f.root b ∧ f.root a = f.root v) := by
  by_cases hSame : f.root a = f.root b
  · have hRedirected := (union_of_same (e := e) h hSame).2
    rw [hRedirected.root, hRedirected.root, hSame, or_self]
    constructor
    · exact Or.inl
    · rintro (hAlready | ⟨hu, hv⟩)
      · exact hAlready
      · exact hu.trans hv
  · exact (union_of_apart h hSame).2.root_eq_iff u v

/-- An edge bridges two classes exactly if they are different and a union along it makes
them one. -/
theorem Ranked.bridges_iff_union (h : f.Ranked) (a b : g.Vertex) (e : g.EdgeId) :
    f.bridges a b e = true ↔ f.root a ≠ f.root b
      ∧ (union (g.edge e).a (g.edge e).b e f).2.root a
        = (union (g.edge e).a (g.edge e).b e f).2.root b := by
  rw [h.root_union_eq_iff]
  by_cases hSame : f.root a = f.root b
  · simp [bridges, hSame]
  · rw [or_iff_right hSame, and_iff_right hSame]
    simp only [bridges, if_neg hSame, Bool.or_eq_true, Bool.and_eq_true, beq_iff_eq]
    constructor
    · rintro (⟨ha, hb⟩ | ⟨ha, hb⟩)
      · exact Or.inl ⟨ha.symm, hb⟩
      · exact Or.inr ⟨hb.symm, ha⟩
    · rintro (⟨ha, hb⟩ | ⟨hb, ha⟩)
      · exact Or.inl ⟨ha.symm, hb⟩
      · exact Or.inr ⟨ha, hb.symm⟩

/-- It does not matter which of the two vertices comes first. -/
theorem bridges_comm (f : Forest g) (a b : g.Vertex) (e : g.EdgeId) :
    f.bridges b a e = f.bridges a b e := by
  by_cases hSame : f.root a = f.root b
  · simp [bridges, hSame]
  · simp only [bridges, if_neg hSame, if_neg (Ne.symm hSame)]
    exact Bool.or_comm _ _

/-- After any operations an edge is said to join the classes of two vertices exactly if a
question finds the two in different classes now and would find them in one class after a
union along the edge. The order of the two does not matter. -/
theorem bridges_foresees_union (operations : List (Operation g))
    (hCovered : ∀ operation ∈ operations, operation.Covered) :
    ∃ f, Operation.run operations (singletons g) = .ok f
      ∧ ∀ (a b : g.Vertex) (e : g.EdgeId),
        (f.bridges a b e = true ↔ (joined a b f).1 = false
          ∧ (joined a b (union (g.edge e).a (g.edge e).b e f).2).1 = true)
        ∧ f.bridges b a e = f.bridges a b e := by
  obtain ⟨f, hRun, h⟩ :=
    Operation.run_balanced operations (singletons g) (balanced_clear (singletons g)) hCovered
  refine ⟨f, hRun, fun a b e => ⟨?_, bridges_comm f a b e⟩⟩
  have hJoined : ∀ {f : Forest g}, f.Ranked → (joined a b f).1 = (f.root a == f.root b) :=
    fun hRanked => (asks_joined a b _ (.refl hRanked)).1
  rw [h.ranked.bridges_iff_union, hJoined h.ranked, hJoined (h.union _ _ e).ranked]
  simp only [beq_eq_false_iff_ne, beq_iff_eq]

/-- Where two vertices of the triangle are joined and the third is apart, an edge to it would
join it to the others, whichever way round one asks. The loop would not. -/
theorem bridges_foresees_union_triangle :
    (∀ operation ∈ Operation.triangleCourse, operation.Covered)
      ∧ ∃ f : Forest triangle, Operation.run Operation.triangleCourse (singletons triangle) = .ok f
        ∧ (joined ⟨0, by decide⟩ ⟨2, by decide⟩ f).1 = false
        ∧ (joined ⟨0, by decide⟩ ⟨2, by decide⟩
            (union ⟨1, by decide⟩ ⟨2, by decide⟩ ⟨1, by decide⟩ f).2).1 = true
        ∧ f.bridges ⟨2, by decide⟩ ⟨0, by decide⟩ ⟨1, by decide⟩ = true
        ∧ f.bridges ⟨0, by decide⟩ ⟨2, by decide⟩ ⟨3, by decide⟩ = false := by
  have hCovered := Operation.triangleCourse_covered
  obtain ⟨f, hRun, hForesees⟩ := bridges_foresees_union _ hCovered
  have hMade : (Operation.run Operation.triangleCourse (singletons triangle)).map
      (fun f => (f.bridges ⟨0, by decide⟩ ⟨2, by decide⟩ ⟨1, by decide⟩,
        f.bridges ⟨0, by decide⟩ ⟨2, by decide⟩ ⟨3, by decide⟩)) = .ok (true, false) := rfl
  rw [hRun] at hMade
  obtain ⟨hBridges, hLoop⟩ := Prod.mk.inj (Except.ok.inj hMade)
  obtain ⟨hJoins, hEitherWay⟩ := hForesees _ _ _
  have hJoined := hJoins.mp hBridges
  exact ⟨hCovered, f, hRun, hJoined.1, hJoined.2, hEitherWay.trans hBridges, hLoop⟩

end LocalRepair.Forest
