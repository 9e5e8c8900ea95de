import LocalRepair.Proofs.Outcome

/-!
# Two runs side by side

Whether something in a state matters to a step is a question about two runs: from
two states that differ in that thing only, the step comes to the same answer, or
fails in the same way, and the states that are left again differ in that thing
only. `Agree` says this of two steps and two states, and `Respects` of a step and a
relation between states.

A property of states is a relation as well, between a state and itself. A step that
respects that relation keeps the property. So a walk through the definitions of a
step by step serves both purposes, and it is made for relations.

## Main results

* `Agree.andThen`: two runs, one step after the other.
* `Respects.bind`, `Respects.forM`: respecting a relation along a sequence of steps.
* `Respects.keeps`, `Keeps.respects`: properties as relations.
-/

namespace LocalRepair

variable {ε σ α β : Type} {x y : EStateM ε σ α} {s t : σ} {returns returns' : α → σ → σ → Prop}
  {fails fails' : ε → σ → σ → Prop} {R : σ → σ → Prop} {P : σ → Prop}

/-- Two steps from two states return the same or fail with the same, and the states
that they leave fit together. -/
def Agree (x y : EStateM ε σ α) (s t : σ) (returns : α → σ → σ → Prop)
    (fails : ε → σ → σ → Prop) : Prop :=
  match x s, y t with
  | .ok a s', .ok b t' => a = b ∧ returns a s' t'
  | .error e s', .error d t' => e = d ∧ fails e s' t'
  | _, _ => False

/-! ## Computing along two steps -/

theorem agree_pure (a : α) (h : returns a s t) :
    Agree (pure a : EStateM ε σ α) (pure a) s t returns fails :=
  ⟨rfl, h⟩

theorem agree_throw (e : ε) (h : fails e s t) :
    Agree (throw e : EStateM ε σ α) (throw e) s t returns fails :=
  ⟨rfl, h⟩

/-- A step that looks at the state first. -/
theorem agree_get {f g : σ → EStateM ε σ α} (h : Agree (f s) (g t) s t returns fails) :
    Agree (get >>= f) (get >>= g) s t returns fails :=
  h

theorem agree_modify {f g : σ → σ} {returns : PUnit → σ → σ → Prop}
    (h : returns ⟨⟩ (f s) (g t)) :
    Agree (modify f : EStateM ε σ PUnit) (modify g) s t returns fails :=
  ⟨rfl, h⟩

namespace Agree

/-- Either both runs returned, or both failed. -/
theorem cases (h : Agree x y s t returns fails) :
    (∃ a s' t', x s = .ok a s' ∧ y t = .ok a t' ∧ returns a s' t')
      ∨ ∃ e s' t', x s = .error e s' ∧ y t = .error e t' ∧ fails e s' t' := by
  unfold Agree at h
  split at h
  · rename_i a s' b t' hx hy
    obtain ⟨rfl, hReturns⟩ := h
    exact Or.inl ⟨a, s', t', hx, hy, hReturns⟩
  · rename_i e s' d t' hx hy
    obtain ⟨rfl, hFails⟩ := h
    exact Or.inr ⟨e, s', t', hx, hy, hFails⟩
  · exact h.elim

theorem of_ok {a : α} {s' t' : σ} (hx : x s = .ok a s') (hy : y t = .ok a t')
    (h : returns a s' t') : Agree x y s t returns fails := by
  unfold Agree
  rw [hx, hy]
  exact ⟨rfl, h⟩

theorem of_error {e : ε} {s' t' : σ} (hx : x s = .error e s') (hy : y t = .error e t')
    (h : fails e s' t') : Agree x y s t returns fails := by
  unfold Agree
  rw [hx, hy]
  exact ⟨rfl, h⟩

theorem mono (h : Agree x y s t returns fails)
    (hReturns : ∀ a s' t', returns a s' t' → returns' a s' t')
    (hFails : ∀ e s' t', fails e s' t' → fails' e s' t') : Agree x y s t returns' fails' := by
  rcases h.cases with ⟨a, s', t', hx, hy, h⟩ | ⟨e, s', t', hx, hy, h⟩
  · exact .of_ok hx hy (hReturns a s' t' h)
  · exact .of_error hx hy (hFails e s' t' h)

/-- Two runs go on side by side. -/
theorem andThen {f g : α → EStateM ε σ β} {after : β → σ → σ → Prop}
    (h : Agree x y s t returns fails)
    (hNext : ∀ a s' t', returns a s' t' → Agree (f a) (g a) s' t' after fails) :
    Agree (x >>= f) (y >>= g) s t after fails := by
  rcases h.cases with ⟨a, s', t', hx, hy, h⟩ | ⟨e, s', t', hx, hy, h⟩
  · unfold Agree
    rw [bind_of_ok hx, bind_of_ok hy]
    exact hNext a s' t' h
  · exact .of_error (bind_of_error hx) (bind_of_error hy) h

/-- Both runs take the same way at a case distinction. -/
theorem ite {c : Prop} [Decidable c] {x' y' : EStateM ε σ α}
    (hx : c → Agree x y s t returns fails) (hy : ¬ c → Agree x' y' s t returns fails) :
    Agree (if c then x else x') (if c then y else y') s t returns fails := by
  by_cases h : c
  · rw [if_pos h, if_pos h]
    exact hx h
  · rw [if_neg h, if_neg h]
    exact hy h

end Agree

/-! ## Respecting a relation -/

/-- From related states the step comes to the same, and leaves related states. -/
def Respects (x : EStateM ε σ α) (R : σ → σ → Prop) : Prop :=
  ∀ s t, R s t → Agree x x s t (fun _ => R) fun _ => R

namespace Respects

theorem pure (a : α) : Respects (Pure.pure a : EStateM ε σ α) R :=
  fun _ _ h => agree_pure a h

theorem throw (e : ε) : Respects (MonadExcept.throw e : EStateM ε σ α) R :=
  fun _ _ h => agree_throw e h

theorem bind {next : α → EStateM ε σ β} (hx : Respects x R) (hNext : ∀ a, Respects (next a) R) :
    Respects (x >>= next) R := by
  intro s t h
  exact (hx s t h).andThen fun a s' t' h' => hNext a s' t' h'

theorem ite {c : Prop} [Decidable c] (hx : Respects x R) (hy : Respects y R) :
    Respects (if c then x else y) R :=
  fun s t h => Agree.ite (fun _ => hx s t h) fun _ => hy s t h

theorem forM {xs : List α} {step : α → EStateM ε σ PUnit} (h : ∀ a ∈ xs, Respects (step a) R) :
    Respects (xs.forM step) R := by
  induction xs with
  | nil => exact fun _ _ hR => ⟨rfl, hR⟩
  | cons a xs ih =>
      have hRest : Respects (xs.forM step) R := ih fun b hb => h b (List.mem_cons_of_mem _ hb)
      show Respects (step a >>= fun _ => xs.forM step) R
      exact (h a (by simp)).bind fun _ => hRest

end Respects

/-! ## Respecting a relation, with a promise -/

/-- From related states the step comes to the same, leaves related states, and
returns only what has a property. -/
def Yields (x : EStateM ε σ α) (R : σ → σ → Prop) (Q : α → Prop) : Prop :=
  ∀ s t, R s t → Agree x x s t (fun a s' t' => R s' t' ∧ Q a) fun _ => R

namespace Yields

variable {Q : α → Prop} {Q' : β → Prop}

theorem respects (h : Yields x R Q) : Respects x R :=
  fun s t hR => (h s t hR).mono (fun _ _ _ hEnd => hEnd.1) fun _ _ _ hFail => hFail

theorem pure {a : α} (ha : Q a) : Yields (Pure.pure a : EStateM ε σ α) R Q :=
  fun _ _ h => agree_pure a ⟨h, ha⟩

theorem throw (e : ε) : Yields (MonadExcept.throw e : EStateM ε σ α) R Q :=
  fun _ _ h => agree_throw e h

theorem bind {next : α → EStateM ε σ β} (hx : Yields x R Q)
    (hNext : ∀ a, Q a → Yields (next a) R Q') : Yields (x >>= next) R Q' := by
  intro s t h
  exact (hx s t h).andThen fun a s' t' h' => hNext a h'.2 s' t' h'.1

theorem ite {c : Prop} [Decidable c] (hx : Yields x R Q) (hy : Yields y R Q) :
    Yields (if c then x else y) R Q :=
  fun s t h => Agree.ite (fun _ => hx s t h) fun _ => hy s t h

end Yields

/-- After a step that promises nothing. -/
theorem Respects.andYields {next : α → EStateM ε σ β} {Q : β → Prop} (hx : Respects x R)
    (hNext : ∀ a, Yields (next a) R Q) : Yields (x >>= next) R Q := by
  intro s t h
  exact (hx s t h).andThen fun a s' t' h' => hNext a s' t' h'

/-! ## Properties as relations -/

/-- A state with a property is related to itself. -/
def Diagonal (P : σ → Prop) (s t : σ) : Prop := t = s ∧ P s

/-- What a step keeps from a state, the two runs from there keep side by side. -/
theorem Ends.agree (h : Ends x s (fun _ => P) fun _ => P) :
    Agree x x s s (fun _ => Diagonal P) fun _ => Diagonal P := by
  unfold Ends at h
  cases hx : x s with
  | ok a s' =>
      rw [hx] at h
      exact .of_ok hx hx ⟨rfl, h⟩
  | error e s' =>
      rw [hx] at h
      exact .of_error hx hx ⟨rfl, h⟩

/-- What two runs from one state keep side by side, the step keeps. -/
theorem Agree.ends (h : Agree x x s s (fun _ => Diagonal P) fun _ => Diagonal P) :
    Ends x s (fun _ => P) fun _ => P := by
  unfold Ends
  rcases h.cases with ⟨a, s', t', hx, _, hEnd⟩ | ⟨e, s', t', hx, _, hEnd⟩
  · rw [hx]
    exact hEnd.2
  · rw [hx]
    exact hEnd.2

/-- A step that respects the relation of a property keeps the property. -/
theorem Respects.keeps (h : Respects x (Diagonal P)) : Keeps x P :=
  fun s hs => (h s s ⟨rfl, hs⟩).ends

/-- A step that keeps a property respects its relation. -/
theorem Keeps.respects (h : Keeps x P) : Respects x (Diagonal P) := by
  rintro s t ⟨rfl, hs⟩
  exact (h t hs).agree

/-- What the first of two runs promises by itself may be added. -/
theorem Agree.withEnds {P : α → σ → Prop} {Q : ε → σ → Prop} (h : Agree x y s t returns fails)
    (hEnds : Ends x s P Q) :
    Agree x y s t (fun a s' t' => returns a s' t' ∧ P a s') fails := by
  rcases h.cases with ⟨a, s', t', hx, hy, hEnd⟩ | ⟨e, s', t', hx, hy, hEnd⟩
  · exact .of_ok hx hy ⟨hEnd, hEnds.of_ok hx⟩
  · exact .of_error hx hy hEnd

end LocalRepair
