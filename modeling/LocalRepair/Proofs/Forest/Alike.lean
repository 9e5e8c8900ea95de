import LocalRepair.Connectivity

/-!
# What a forest does not depend on

A forest counts how often it was built, and nothing it does depends on that count.
A stale forest depends on nothing of what it holds: it is built from scratch before
it is asked, and until then it takes no note of anything.

So two forests of a graph are alike if both are stale, or if they are the same but
for the count. Alike forests give the same answers and stay alike. This is all that
is left of an earlier search once its forests were marked as stale.

## Main results

* `Connectivity.blind_isMet`, `Connectivity.blind_risk`: questions do not depend on
  the count.
* `Alike.bringUpToDate`, `Alike.note`: alike forests stay alike.
-/

namespace LocalRepair

namespace Forest

variable {g : Graph} {f f' : Forest g} {α β : Type}

/-- The same forest, with another count of how often it was built. -/
def withBuilds (f : Forest g) (n : Nat) : Forest g := { f with builds := n }

/-- A question that does not depend on how often the forest was built. -/
def Blind (q : Query g α) : Prop :=
  ∀ (f : Forest g) (n : Nat), q (f.withBuilds n) = ((q f).1, (q f).2.withBuilds n)

namespace Blind

variable {q r : Query g α}

theorem pure (x : α) : Blind (Pure.pure x : Query g α) :=
  fun _ _ => rfl

theorem bind {next : α → Query g β} (hq : Blind q) (hNext : ∀ x, Blind (next x)) :
    Blind (q >>= next) := by
  intro f n
  show next (q (f.withBuilds n)).1 (q (f.withBuilds n)).2 = _
  rw [hq f n]
  exact hNext (q f).1 (q f).2 n

theorem ite {c : Prop} [Decidable c] (hq : Blind q) (hr : Blind r) :
    Blind (if c then q else r) := by
  split
  · exact hq
  · exact hr

/-- A question that looks at the forest, but not at the count. -/
theorem get {next : Forest g → Query g β} (hSame : ∀ f n, next (f.withBuilds n) = next f)
    (hNext : ∀ f, Blind (next f)) : Blind (MonadState.get >>= next) := by
  intro f n
  show next (f.withBuilds n) (f.withBuilds n) = _
  rw [hSame f n]
  exact hNext f f n

end Blind

theorem blind_find (v : g.Vertex) : Blind (find v) :=
  fun _ _ => rfl

theorem blind_joined (a b : g.Vertex) : Blind (joined a b) :=
  (blind_find a).bind fun _ => (blind_find b).bind fun _ => .pure _

theorem blind_findAll (vs : List g.Vertex) : Blind (findAll vs) := by
  induction vs with
  | nil => exact .pure _
  | cons v vs ih => exact (blind_find v).bind fun _ => ih.bind fun _ => .pure _

theorem blind_anyRootIn (roots vs : List g.Vertex) : Blind (anyRootIn roots vs) := by
  induction vs with
  | nil => exact .pure _
  | cons v vs ih => exact (blind_find v).bind fun _ => Blind.ite (.pure _) ih

theorem withBuilds_linkRoots (f : Forest g) (ra rb : g.Vertex) (e : g.EdgeId) (n : Nat) :
    ((f.withBuilds n).linkRoots ra rb).record e
      = ((f.linkRoots ra rb).record e).withBuilds n := by
  have hRank : (f.withBuilds n).rank = f.rank := rfl
  unfold linkRoots
  rw [hRank]
  cases compare f.rank[ra] f.rank[rb] <;> rfl

theorem blind_union (a b : g.Vertex) (e : g.EdgeId) : Blind (union a b e) := by
  apply (blind_find a).bind
  intro ra
  apply (blind_find b).bind
  intro rb
  apply Blind.ite (.pure _)
  intro f n
  show (true, ((f.withBuilds n).linkRoots ra rb).record e) = _
  rw [withBuilds_linkRoots]
  rfl

theorem unionPresent_withBuilds (present : g.EdgeId → Bool) (n : Nat) (es : List g.EdgeId) :
    ∀ f : Forest g, unionPresent present es (f.withBuilds n)
      = (unionPresent present es f).withBuilds n := by
  induction es with
  | nil => exact fun _ => rfl
  | cons e es ih =>
      intro f
      unfold unionPresent
      rw [← ih]
      split
      · rw [blind_union]
      · rfl

end Forest

namespace Connectivity

open Forest (Blind)

variable {g : Graph}

theorem blind_sidesMeet (left right : List g.Vertex) : Blind (sidesMeet left right) :=
  (Forest.blind_findAll left).bind fun roots => Forest.blind_anyRootIn roots right

theorem blind_isMet (demand : Connectivity g.Vertex) : Blind demand.isMet := by
  cases demand with
  | whole => exact Blind.get (fun _ _ => rfl) fun _ => .pure _
  | pieces count => exact Blind.get (fun _ _ => rfl) fun _ => .pure _
  | pair source target => exact Forest.blind_joined source target
  | sides left right => exact blind_sidesMeet left right

theorem blind_touchesClass (source target : g.Vertex) (vs : List g.Vertex) :
    Blind (touchesClass source target vs) := by
  induction vs with
  | nil => exact .pure _
  | cons v vs ih =>
      apply (Forest.blind_joined v source).bind
      intro _
      apply Blind.ite (.pure _)
      exact (Forest.blind_joined v target).bind fun _ => Blind.ite (.pure _) ih

theorem blind_riskOfAdding (e : g.EdgeId) (demand : Connectivity g.Vertex) :
    Blind (demand.riskOfAdding e) := by
  have hEnds := Forest.blind_joined (g.edge e).a (g.edge e).b
  cases demand with
  | whole => exact hEnds.bind fun _ => Blind.ite (.pure _) (.pure _)
  | pieces wanted =>
      exact Blind.get (fun _ _ => rfl) fun _ => hEnds.bind fun _ => Blind.ite (.pure _) (.pure _)
  | pair source target =>
      apply (Forest.blind_joined source target).bind
      intro _
      apply Blind.ite (.pure _)
      apply hEnds.bind
      intro _
      apply Blind.ite (.pure _)
      apply Blind.get (fun _ _ => rfl)
      intro _
      apply Blind.ite (.pure _)
      exact (blind_touchesClass source target _).bind fun _ => Blind.ite (.pure _) (.pure _)
  | sides left right =>
      apply (blind_sidesMeet left right).bind
      intro _
      apply Blind.ite (.pure _)
      apply hEnds.bind
      intro _
      apply Blind.ite (.pure _)
      apply (Forest.blind_findAll left).bind
      intro _
      apply (Forest.blind_findAll right).bind
      intro _
      apply (Forest.blind_find _).bind
      intro _
      apply (Forest.blind_find _).bind
      intro _
      exact Blind.ite (.pure _) (Blind.ite (.pure _) (.pure _))

theorem blind_riskOfRemoving (e : g.EdgeId) (onPath : Bool) (demand : Connectivity g.Vertex) :
    Blind (demand.riskOfRemoving e onPath) := by
  have hContains : ∀ yes no : Int,
      Blind (do if (← get).contains e then return yes else return no : Forest.Query g Int) :=
    fun _ _ => Blind.get (fun _ _ => rfl) fun _ => Blind.ite (.pure _) (.pure _)
  cases demand with
  | whole => exact hContains 1 0
  | pieces wanted => exact Blind.get (fun _ _ => rfl) fun _ => hContains _ 0
  | pair source target =>
      apply (Forest.blind_joined source target).bind
      intro _
      apply Blind.ite
      · exact Blind.ite (.pure _) (hContains 1 0)
      · exact .pure _
  | sides left right =>
      exact (blind_sidesMeet left right).bind fun _ => Blind.ite (hContains 1 0) (.pure _)

theorem blind_risk (demand : Connectivity g.Vertex) (e : g.EdgeId) (appears onPath : Bool) :
    Blind (demand.risk e appears onPath) :=
  Blind.ite (blind_riskOfAdding e demand) (blind_riskOfRemoving e onPath demand)

end Connectivity

namespace Forest

variable {g : Graph} {f f' : Forest g} {α : Type}

/-! ## Alike forests -/

/-- Two forests of a graph that no search can tell apart: both are stale, or they
are the same but for the count of how often they were built. -/
def Alike (f f' : Forest g) : Prop :=
  (f.built = false ∧ f'.built = false) ∨ f' = f.withBuilds f'.builds

theorem alike_withBuilds (f : Forest g) (n : Nat) : Alike f (f.withBuilds n) := Or.inr rfl

namespace Alike

theorem invalidate (f f' : Forest g) : Alike f.invalidate f'.invalidate := Or.inl ⟨rfl, rfl⟩

/-- Either both forests are stale, or both are built and the same but for the count.
-/
theorem cases (h : Alike f f') :
    (f.built = false ∧ f'.built = false)
      ∨ (f.built = true ∧ f'.built = true ∧ ∃ n, f' = f.withBuilds n) := by
  rcases h with hStale | hSame
  · exact Or.inl hStale
  · cases hBuilt : f.built with
    | true =>
        refine Or.inr ⟨rfl, ?_, _, hSame⟩
        rw [hSame]
        exact hBuilt
    | false =>
        refine Or.inl ⟨rfl, ?_⟩
        rw [hSame]
        exact hBuilt

/-- Alike forests are alike after they took note of a flip. -/
theorem note (h : Alike f f') (e : g.EdgeId) (present : Bool) :
    Alike (f.note e present) (f'.note e present) := by
  rcases h.cases with ⟨hf, hf'⟩ | ⟨hf, hf', n, rfl⟩
  · left
    cases present with
    | true => simp [Forest.note, noteAppeared, hf, hf']
    | false => simp [Forest.note, noteGone, hf, hf']
  · cases present with
    | true =>
        simp only [Forest.note, noteAppeared, hf, hf', if_true]
        rw [blind_union]
        exact alike_withBuilds _ n
    | false =>
        simp only [Forest.note, Bool.false_eq_true, if_false]
        unfold noteGone
        rw [hf, hf']
        show Alike (if f.contains e then _ else _) (if f.contains e then _ else _)
        split
        · exact invalidate _ _
        · exact alike_withBuilds f n

/-- A forest that is built from scratch does not depend on what it was. -/
theorem buildFrom (present : g.EdgeId → Bool) (hf : f.built = false) (hf' : f'.built = false) :
    Alike (f.buildFrom present) (f'.buildFrom present) := by
  have hClear : f'.clear = f.clear.withBuilds f'.builds := by
    unfold clear withBuilds
    rw [hf, hf']
  unfold Forest.buildFrom
  rw [hClear, unionPresent_withBuilds]
  exact Or.inr rfl

/-- Alike forests are brought up to date alike. -/
theorem bringUpToDate (h : Alike f f') (a : Assignment) :
    (∃ u u', f.bringUpToDate a = .ok u ∧ f'.bringUpToDate a = .ok u' ∧ ∃ n, u' = u.withBuilds n)
      ∨ ∃ e, f.bringUpToDate a = .error e ∧ f'.bringUpToDate a = .error e := by
  unfold Forest.bringUpToDate
  rcases h.cases with ⟨hf, hf'⟩ | ⟨hf, hf', n, rfl⟩
  · rw [hf, hf']
    unfold rebuild
    cases hCovered : g.coveredBy a with
    | true =>
        left
        refine ⟨_, _, rfl, rfl, ?_⟩
        rcases (buildFrom (g.presentIn a) hf hf').cases with ⟨hStale, _⟩ | ⟨_, _, hSame⟩
        · cases hStale
        · exact hSame
    | false => exact Or.inr ⟨_, rfl, rfl⟩
  · rw [hf, hf']
    exact Or.inl ⟨_, _, rfl, rfl, n, rfl⟩

end Alike
end Forest

end LocalRepair
