import LocalRepair.Proofs.Forest.Roots

/-!
# Questions do not change a forest

A question to a forest redirects parents, so it is a step with a state, and the
next question meets another structure. What it meets is the same in everything
that an answer can depend on: only parents differ, ranks still grow along them,
and no vertex has another root. A parent that differs is the root. `Redirected`
collects this.

A question is then described by its answer to the structure at hand:
`Asks q f x` says that `q` answers `x` to `f`, and also to whatever earlier
questions may have made of `f`, and that it does no more than redirect parents
itself. Answers of composed questions are computed from the parts, as if nothing
had been redirected at all.

## Main results

* `asks_find`: a vertex is answered with its root.
* `asks_joined`, `asks_findAll`, `asks_anyRootIn`: the questions made of it.
* `Asks.bind`: one question after the other.
-/

namespace LocalRepair.Forest

variable {g : Graph} {f f' f'' : Forest g} {α β : Type}

/-! ## Redirected parents -/

/-- The second structure differs from the first in its parents only, and neither
ranks nor roots notice. A vertex has the parent that it had, or its root. -/
structure Redirected (f f' : Forest g) : Prop where
  onlyParents : f' = { f with parent := f'.parent }
  ranked : f'.Ranked
  root : ∀ v, f'.root v = f.root v
  parent : ∀ v, f'.up v = f.up v ∨ f'.up v = f.root v

namespace Redirected

theorem refl (h : f.Ranked) : Redirected f f := ⟨rfl, h, fun _ => rfl, fun _ => Or.inl rfl⟩

theorem trans (h : Redirected f f') (k : Redirected f' f'') : Redirected f f'' := by
  refine ⟨by rw [k.onlyParents, h.onlyParents], k.ranked,
    fun v => (k.root v).trans (h.root v), fun v => ?_⟩
  rcases k.parent v with hKept | hRoot
  · rw [hKept]
    exact h.parent v
  · exact Or.inr (hRoot.trans (h.root v))

theorem components (h : Redirected f f') : f'.components = f.components := by
  rw [h.onlyParents]

theorem size (h : Redirected f f') : f'.size = f.size := by
  rw [h.onlyParents]

theorem built (h : Redirected f f') : f'.built = f.built := by
  rw [h.onlyParents]

theorem contains (h : Redirected f f') (e : g.EdgeId) : f'.contains e = f.contains e := by
  rw [h.onlyParents]
  rfl

theorem roots (h : Redirected f f') : f'.roots = f.roots := by
  simp only [Forest.roots, h.root]

/-- The answer that needs no compression is the same as well. -/
theorem bridges (h : Redirected f f') (a b : g.Vertex) (e : g.EdgeId) :
    f'.bridges a b e = f.bridges a b e := by
  simp only [Forest.bridges, h.root]

end Redirected

/-- Pointing the vertices of a chain at its root redirects parents. -/
theorem pointTo_redirected :
    ∀ (steps : Nat) (v : g.Vertex) (f' : Forest g), Redirected f f' →
      Redirected f { f' with parent := pointTo (f.root v) steps v f'.parent } := by
  intro steps
  induction steps with
  | zero => intro v f' h; exact h
  | succ steps ih =>
      intro v f' h
      by_cases hStop : f'.up v = f.root v
      · have hKeep : pointTo (f.root v) (steps + 1) v f'.parent = f'.parent := if_pos hStop
        rw [hKeep]
        exact h
      · have hMove : f'.up v ≠ v := by
          intro hOwn
          apply hStop
          rw [hOwn, ← h.root v, h.ranked.root_of_own hOwn]
        obtain ⟨hRanked, hRoot⟩ := h.ranked.shortcut hMove
        have hParent : ∀ u, (f'.point v (f'.root v)).up u = f'.up u
            ∨ (f'.point v (f'.root v)).up u = f'.root u := by
          intro u
          rw [up_point]
          split
          · rename_i hEq
            exact Or.inr (by rw [hEq])
          · exact Or.inl rfl
        have hNext : Redirected f (f'.point v (f.root v)) := by
          rw [← h.root v]
          exact h.trans ⟨rfl, hRanked, hRoot, hParent⟩
        have hUp : f.root (f'.up v) = f.root v := by
          rw [← h.root, h.ranked.root_up, h.root]
        have hStep : pointTo (f.root v) (steps + 1) v f'.parent
            = pointTo (f.root (f'.up v)) steps (f'.up v) (f'.point v (f.root v)).parent := by
          rw [hUp]
          exact if_neg hStop
        rw [hStep]
        exact ih (f'.up v) (f'.point v (f.root v)) hNext

/-- Finding a root redirects parents. -/
theorem find_redirected (h : f.Ranked) (v : g.Vertex) : Redirected f (find v f).2 :=
  pointTo_redirected g.vertexCount v f (.refl h)

/-! ## Questions and answers -/

/-- The question is answered in this way, whatever questions came before, and
redirects parents at most. -/
def Asks (q : Query g α) (f : Forest g) (answer : α) : Prop :=
  ∀ f', Redirected f f' → (q f').1 = answer ∧ Redirected f' (q f').2

namespace Asks

theorem pure (f : Forest g) (x : α) : Asks (Pure.pure x : Query g α) f x :=
  fun _ h => ⟨rfl, .refl h.ranked⟩

/-- The second question is answered as if the first had not been asked. -/
theorem bind {q : Query g α} {next : α → Query g β} {x : α} {y : β} (hq : Asks q f x)
    (hNext : Asks (next x) f y) : Asks (q >>= next) f y := by
  intro f' h
  obtain ⟨hAnswer, hRedirected⟩ := hq f' h
  obtain ⟨hAnswer', hRedirected'⟩ := hNext _ (h.trans hRedirected)
  show ((next (q f').1) (q f').2).1 = y ∧ Redirected f' ((next (q f').1) (q f').2).2
  rw [hAnswer]
  exact ⟨hAnswer', hRedirected.trans hRedirected'⟩

/-- A question that looks at the structure may see redirected parents. -/
theorem get {next : Forest g → Query g β} {y : β}
    (h : ∀ f', Redirected f f' → Asks (next f') f y) :
    Asks (MonadState.get >>= next) f y :=
  fun f' hf' => h f' hf' f' hf'

theorem ite {c : Prop} [Decidable c] {q r : Query g α} {x y : α} (hq : c → Asks q f x)
    (hr : ¬ c → Asks r f y) : Asks (if c then q else r) f (if c then x else y) := by
  split
  · rename_i hc
    exact hq hc
  · rename_i hc
    exact hr hc

end Asks

theorem asks_find (v : g.Vertex) : Asks (find v) f (f.root v) := by
  intro f' h
  exact ⟨h.root v, find_redirected h.ranked v⟩

theorem asks_joined (a b : g.Vertex) : Asks (joined a b) f (f.root a == f.root b) :=
  (asks_find a).bind ((asks_find b).bind (.pure f _))

theorem asks_findAll (vs : List g.Vertex) : Asks (findAll vs) f (vs.map f.root) := by
  induction vs with
  | nil => exact .pure f []
  | cons v vs ih => exact (asks_find v).bind (ih.bind (.pure f _))

theorem asks_anyRootIn (rs vs : List g.Vertex) :
    Asks (anyRootIn rs vs) f (vs.any fun v => rs.contains (f.root v)) := by
  induction vs with
  | nil => exact .pure f false
  | cons v vs ih =>
      apply (asks_find v).bind
      rw [List.any_cons]
      cases hFound : rs.contains (f.root v) with
      | true => exact .pure f true
      | false => exact ih

end LocalRepair.Forest
