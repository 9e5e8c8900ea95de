/-!
# What a step can come to

Steps of building and of searching are computations with a state that may fail,
and the state survives a failure. `Ends` describes such a step from one state:
what is true if it returns, and what is true if it fails. Both have to be said,
since a caller may look at the state in either case.

Three uses are made of it. A step `Ends` with an impossible failure if it has to
succeed. A step `Keeps` a property of states if it has the property afterwards
whatever happens, which is the form in which invariants pass through steps that
may fail. And a step that may fail in any way at all promises something only if
it returns.

## Main results

* `ends_bind` and the other equations, which compute `Ends` along a step.
* `Ends.mono`: weaker promises.
* `Keeps.bind`, `Keeps.mapM`: keeping a property along a sequence of steps.
* `foldlM_follows`, `foldlM_keeps`: what a fold over steps that succeed comes to.
-/

namespace LocalRepair

variable {ε σ α β : Type} {x : EStateM ε σ α} {s : σ} {returns returns' : α → σ → Prop}
  {fails fails' : ε → σ → Prop}

/-- From a state, the step returns in one way or fails in another. -/
def Ends (x : EStateM ε σ α) (s : σ) (returns : α → σ → Prop) (fails : ε → σ → Prop) : Prop :=
  match x s with
  | .ok a s' => returns a s'
  | .error e s' => fails e s'

/-- Nothing is promised of a failure, except that it does not happen. -/
abbrev Never : ε → σ → Prop := fun _ _ => False

/-- The state that a step leaves behind, whether it returned or failed. -/
def leftBy (x : EStateM ε σ α) (s : σ) : σ :=
  match x s with
  | .ok _ s' => s'
  | .error _ s' => s'

/-! ## Computing along a step -/

theorem bind_of_ok {next : α → EStateM ε σ β} {a : α} {s' : σ} (h : x s = .ok a s') :
    (x >>= next) s = next a s' := by
  show EStateM.bind x next s = _
  simp only [EStateM.bind, h]

theorem bind_of_error {next : α → EStateM ε σ β} {e : ε} {s' : σ} (h : x s = .error e s') :
    (x >>= next) s = .error e s' := by
  show EStateM.bind x next s = _
  simp only [EStateM.bind, h]

/-- Dropping or changing the answer of a step leaves the same behind. -/
theorem leftBy_answer (x : EStateM ε σ α) (answer : α → β) (s : σ) :
    leftBy (x >>= fun a => pure (answer a)) s = leftBy x s := by
  cases hStep : x s with
  | ok a s' =>
      rw [leftBy, leftBy, bind_of_ok hStep, hStep]
      rfl
  | error e s' => rw [leftBy, leftBy, bind_of_error hStep, hStep]

@[simp] theorem ends_pure (a : α) : Ends (pure a) s returns fails ↔ returns a s := Iff.rfl

@[simp] theorem ends_throw (e : ε) :
    Ends (throw e : EStateM ε σ α) s returns fails ↔ fails e s := Iff.rfl

@[simp] theorem ends_get {returns : σ → σ → Prop} :
    Ends (get : EStateM ε σ σ) s returns fails ↔ returns s s := Iff.rfl

@[simp] theorem ends_modify (change : σ → σ) {returns : PUnit → σ → Prop} :
    Ends (modify change : EStateM ε σ PUnit) s returns fails ↔ returns ⟨⟩ (change s) := Iff.rfl

@[simp] theorem ends_modifyGet (change : σ → α × σ) :
    Ends (modifyGet change : EStateM ε σ α) s returns fails
      ↔ returns (change s).1 (change s).2 := Iff.rfl

@[simp] theorem ends_bind (next : α → EStateM ε σ β) {returns : β → σ → Prop} :
    Ends (x >>= next) s returns fails ↔
      Ends x s (fun a s' => Ends (next a) s' returns fails) fails := by
  unfold Ends
  show (match EStateM.bind x next s with | .ok a s' => _ | .error e s' => _) ↔ _
  unfold EStateM.bind
  cases x s <;> rfl

/-- A case distinction ends as the case at hand does. -/
theorem ends_ite {c : Prop} [Decidable c] {y : EStateM ε σ α}
    (hx : c → Ends x s returns fails) (hy : ¬ c → Ends y s returns fails) :
    Ends (if c then x else y) s returns fails := by
  split
  · rename_i h
    exact hx h
  · rename_i h
    exact hy h

namespace Ends

theorem mono (h : Ends x s returns fails) (hReturns : ∀ a s', returns a s' → returns' a s')
    (hFails : ∀ e s', fails e s' → fails' e s') : Ends x s returns' fails' := by
  unfold Ends at h ⊢
  split at h
  · exact hReturns _ _ h
  · exact hFails _ _ h

/-- Two promises at once. -/
theorem and (h : Ends x s returns fails) (h' : Ends x s returns' fails') :
    Ends x s (fun a s' => returns a s' ∧ returns' a s') fun e s' => fails e s' ∧ fails' e s' := by
  unfold Ends at h h' ⊢
  split at h
  · rename_i hStep
    rw [hStep] at h'
    exact ⟨h, h'⟩
  · rename_i hStep
    rw [hStep] at h'
    exact ⟨h, h'⟩

/-- Another step after one that may fail. -/
theorem andThen {next : α → EStateM ε σ β} {after : β → σ → Prop} (h : Ends x s returns fails)
    (hNext : ∀ a s', returns a s' → Ends (next a) s' after fails) :
    Ends (x >>= next) s after fails := by
  rw [ends_bind]
  exact h.mono hNext fun _ _ hFail => hFail

/-- A step that succeeds may promise less, and may be followed by steps that
fail. -/
theorem weaken (h : Ends x s returns Never) (hReturns : ∀ a s', returns a s' → returns' a s') :
    Ends x s returns' fails' :=
  h.mono hReturns fun _ _ => False.elim

/-- One step after another that succeeds. -/
theorem bind {next : α → EStateM ε σ β} {after : β → σ → Prop} (h : Ends x s returns Never)
    (hNext : ∀ a s', returns a s' → Ends (next a) s' after fails) :
    Ends (x >>= next) s after fails :=
  (h.weaken fun _ _ => id).andThen hNext

/-- A step that cannot fail returns. -/
theorem exists_ok (h : Ends x s returns Never) : ∃ a s', x s = .ok a s' ∧ returns a s' := by
  unfold Ends at h
  split at h
  · rename_i a s' hStep
    exact ⟨a, s', hStep, h⟩
  · exact h.elim

/-- What is promised of a step that returned. -/
theorem of_ok (h : Ends x s returns fails) {a : α} {s' : σ} (hStep : x s = .ok a s') :
    returns a s' := by
  rw [Ends, hStep] at h
  exact h

theorem leftBy {p : σ → Prop} (h : Ends x s (fun _ => p) fun _ => p) : p (leftBy x s) := by
  unfold Ends at h
  unfold LocalRepair.leftBy
  split at h
  · exact h
  · exact h

end Ends

/-! ## Keeping a property -/

/-- The step keeps a property of states, whether it returns or fails. -/
def Keeps (x : EStateM ε σ α) (p : σ → Prop) : Prop :=
  ∀ s, p s → Ends x s (fun _ => p) fun _ => p

namespace Keeps

variable {p : σ → Prop}

theorem pure (a : α) : Keeps (Pure.pure a : EStateM ε σ α) p := fun _ h => h

theorem get : Keeps (MonadState.get : EStateM ε σ σ) p := fun _ h => h

theorem bind {next : α → EStateM ε σ β} (hx : Keeps x p) (hNext : ∀ a, Keeps (next a) p) :
    Keeps (x >>= next) p := by
  intro s h
  exact (hx s h).andThen fun a s' h' => hNext a s' h'

theorem ite {c : Prop} [Decidable c] {y : EStateM ε σ α} (hx : Keeps x p) (hy : Keeps y p) :
    Keeps (if c then x else y) p :=
  fun s h => ends_ite (fun _ => hx s h) fun _ => hy s h

theorem mapM {xs : List α} {step : α → EStateM ε σ β} (h : ∀ a, Keeps (step a) p) :
    Keeps (xs.mapM step) p := by
  induction xs with
  | nil => exact fun _ h => h
  | cons a xs ih =>
      rw [List.mapM_cons]
      exact (h a).bind fun _ => ih.bind fun _ => .pure _

end Keeps

/-! ## Sequences of steps -/

/-- A sequence of steps ends as its steps do, given what the steps before have
established about the items that are done and still to do. -/
theorem ends_each (step : α → EStateM ε σ PUnit) (p : List α → List α → σ → Prop)
    (hStep : ∀ done a rest s, p done (a :: rest) s →
      Ends (step a) s (fun _ => p (a :: done) rest) fails) :
    ∀ (xs done : List α) (s : σ), p done xs s →
      Ends (xs.forM step) s (fun _ => p (xs.reverse ++ done) []) fails := by
  intro xs
  induction xs with
  | nil => intro done s h; exact h
  | cons a xs ih =>
      intro done s h
      have hRest : ∀ s', p (a :: done) xs s' →
          Ends (xs.forM step) s' (fun _ => p ((a :: xs).reverse ++ done) []) fails := by
        intro s' h'
        simpa using ih (a :: done) s' h'
      show Ends (step a >>= fun _ => xs.forM step) s _ _
      exact (hStep done a xs s h).andThen fun _ => hRest

/-- A sequence of steps succeeds if each one does. -/
theorem ends_forM (step : α → EStateM ε σ PUnit) (p : List α → List α → σ → Prop)
    (hStep : ∀ done a rest s, p done (a :: rest) s →
      Ends (step a) s (fun _ => p (a :: done) rest) Never) (xs done : List α) (s : σ)
    (h : p done xs s) : Ends (xs.forM step) s (fun _ => p (xs.reverse ++ done) []) Never :=
  ends_each step p hStep xs done s h

/-! ## Folds that succeed -/

section Folds

variable {τ : Type} {step : σ → α → Except ε σ} {p : α → Prop}

/-- If a step succeeds and goes along with another that cannot fail, then so does a fold. -/
theorem foldlM_follows {r : σ → τ → Prop} (along : τ → α → τ)
    (hStep : ∀ s t a, r s t → p a → ∃ s', step s a = .ok s' ∧ r s' (along t a)) :
    ∀ (xs : List α) (s : σ) (t : τ), r s t → (∀ a ∈ xs, p a) →
      ∃ s', xs.foldlM step s = .ok s' ∧ r s' (xs.foldl along t) := by
  intro xs
  induction xs with
  | nil => exact fun s _ h _ => ⟨s, rfl, h⟩
  | cons a xs ih =>
      intro s t h hAll
      obtain ⟨s₁, hFirst, h₁⟩ := hStep s t a h (hAll a (by simp))
      obtain ⟨s', hRest, h'⟩ := ih s₁ (along t a) h₁ fun b hb => hAll b (List.mem_cons_of_mem _ hb)
      refine ⟨s', ?_, h'⟩
      rw [List.foldlM_cons, hFirst]
      exact hRest

/-- If a step succeeds and keeps a property of states, then so does a fold. -/
theorem foldlM_keeps {q : σ → Prop}
    (hStep : ∀ s a, q s → p a → ∃ s', step s a = .ok s' ∧ q s') (xs : List α) (s : σ) (h : q s)
    (hAll : ∀ a ∈ xs, p a) : ∃ s', xs.foldlM step s = .ok s' ∧ q s' :=
  foldlM_follows (r := fun s (_ : Unit) => q s) (fun t _ => t) (fun s _ => hStep s) xs s () h hAll

end Folds

end LocalRepair
