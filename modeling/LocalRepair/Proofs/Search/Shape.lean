import LocalRepair.Proofs.Search.Carried
import LocalRepair.Proofs.Search.Record

/-!
# Nothing breaks the shape of a state

Before its constraints were evaluated, and after a step that failed, the record
of a search may be wrong in any way. What no step ever breaks is its shape: the
tables keep their sizes, the set of violated constraints stays a set, and every
forest stays with its graph. That is all that an evaluation needs to start from.

A property of states that survives every single change is kept by all steps,
whether they return or fail. `Stable` lists the changes, and `Stable.carried` puts
the property among the relations that steps respect. The shape is one such property.

## Main results

* `Stable.carried`: stable properties are kept by every step.
* `stable_shaped`: the shape of a state is stable.
-/

namespace LocalRepair

open Search State

variable {α : Type} {p : Problem} {turns : Nat → Prop} {P : State → Prop} {s : State}

/-- A property of states that survives the single changes that a search makes,
turning a proposition over only where `turns` allows it. -/
structure Stable (p : Problem) (turns : Nat → Prop) (P : State → Prop) : Prop where
  setMarks : ∀ {s} (id : Nat) (m : Marks), P s → P (s.setMarks id m)
  setViolated : ∀ {s} {id : Nat} {satisfied : Bool} {w : IndexSet}, P s →
    s.violated.update id satisfied = .ok w → P (s.setViolated w)
  setForest : ∀ {s} {g : Nat} {t t' : TrackedGraph}, P s → s.forests[g]? = some t →
    t'.graph = t.graph → P (s.setForest g t')
  setAssignment : ∀ {s} {v : Nat} {b : Bool} {a : Assignment}, P s →
    s.assignment.set v b = .ok a → P { s with assignment := a }
  setGenerator : ∀ {s} (generator : ChaCha), P s → P { s with generator }
  countRandom : ∀ {s}, P s → P { s with randomPicks := s.randomPicks + 1 }
  touch : ∀ {s} (id : Nat) (change : Activity → Activity), P s →
    P { s with tally := s.tally.touch id change }
  clear : ∀ {s} {w : IndexSet}, P s → s.violated.clear = .ok w →
    P { s with
      violated := w
      marks := s.marks.map fun _ => {}
      forests := s.forests.map TrackedGraph.invalidate }
  turnOver : ∀ {s} {v : Nat} {b : Bool} {a : Assignment}, turns v → P s →
    s.assignment.flip v = .ok (b, a) →
    P { s with
      assignment := a
      flips := s.flips + 1
      tally := { s.tally with flips := s.tally.flips + 1 } }

/-- A question to a forest hands back a forest of the same graph. -/
theorem Search.ask_graph {t t' : TrackedGraph} {a : Assignment} {answer : α}
    {query : Except Fault (Forest.Query t.graph α)} (h : t.ask a query = .ok (answer, t')) :
    t'.graph = t.graph := by
  unfold TrackedGraph.ask at h
  cases hUpdate : t.forest.bringUpToDate a with
  | error e =>
      rw [hUpdate] at h
      cases h
  | ok f =>
      rw [hUpdate] at h
      cases query with
      | error e => cases h
      | ok q =>
          cases h
          rfl

namespace Stable

/-! ## Forests -/

/-- Looking up a forest, and going on with it. -/
theorem ends_tracked {g : Nat} {next : TrackedGraph → Search α} (hs : P s)
    (hNext : ∀ t, s.forests[g]? = some t → Ends (next t) s (fun _ => P) fun _ => P) :
    Ends (tracked g >>= next) s (fun _ => P) fun _ => P := by
  unfold tracked
  rw [ends_bind, ends_bind, ends_get]
  exact ends_of_any (fun t ht => hNext t (entryAt_eq_ok_iff.mp ht)) fun _ _ => hs

variable (h : Stable p turns P)
include h

theorem keeps_askForest (g : Nat) (query : (g : Graph) → Except Fault (Forest.Query g α)) :
    Keeps (askForest g query) P := by
  intro s hs
  apply ends_tracked hs
  intro t hForest
  rw [ends_bind, ends_get, ends_bind]
  exact ends_of_any (fun _ hAsk => h.setForest hs hForest (ask_graph hAsk)) fun _ _ => hs

theorem keeps_askEdge (g v : Nat)
    (query : (g : Graph) → g.EdgeId → Except Fault (Forest.Query g α)) :
    Keeps (askEdge g v query) P := by
  intro s hs
  apply ends_tracked hs
  intro t hForest
  cases t.graph.edgeBackedBy? v with
  | none => exact hs
  | some e =>
      show Ends (get >>= _) s _ _
      rw [ends_bind, ends_get, ends_bind]
      exact ends_of_any (fun _ hAsk => h.setForest hs hForest (ask_graph hAsk)) fun _ _ => hs

theorem keeps_invalidate (g : Nat) : Keeps (invalidate g) P := by
  intro s hs
  exact ends_tracked hs fun t hForest => h.setForest hs hForest rfl

theorem keeps_noteFlip (g v : Nat) (present : Bool) : Keeps (noteFlip g v present) P := by
  intro s hs
  apply ends_tracked hs
  intro t hForest
  cases t.graph.edgeBackedBy? v with
  | none => exact hs
  | some e => exact h.setForest hs hForest rfl

/-! ## Walks -/

theorem keeps_clear : Keeps Walk.clear P := by
  intro s hs
  unfold Walk.clear
  rw [ends_bind, ends_get, ends_bind]
  exact ends_of_any (fun _ hClear => h.clear hs hClear) fun _ _ => hs

theorem keeps_turnOver {v : Nat} (hv : turns v) : Keeps (Walk.turnOver v) P := by
  intro s hs
  unfold Walk.turnOver
  rw [ends_bind, ends_get, ends_bind]
  exact ends_of_any (fun _ hFlip => h.turnOver hv hs hFlip) fun _ _ => hs

/-- Every step keeps a stable property. -/
theorem carried : Carried p turns (Diagonal P) :=
  { assignment := fun hR => by rw [hR.1]
    violated := fun hR => by rw [hR.1]
    marks := fun hR => by rw [hR.1]
    generator := fun hR => by rw [hR.1]
    graphs := fun hR => by rw [hR.1]
    setGenerator := fun generator hR => ⟨by rw [hR.1], h.setGenerator generator hR.2⟩
    setMarks := fun id m hR => ⟨by rw [hR.1], h.setMarks id m hR.2⟩
    setViolated := fun hR hUpdate => ⟨by rw [hR.1], h.setViolated hR.2 hUpdate⟩
    setAssignment := fun hR hSet => ⟨by rw [hR.1], h.setAssignment hR.2 hSet⟩
    countRandom := fun hR => ⟨by rw [hR.1], h.countRandom hR.2⟩
    touch := fun id change hR => ⟨by rw [hR.1], h.touch id change hR.2⟩
    invalidate := fun g => (h.keeps_invalidate g).respects
    noteFlip := fun g v present => (h.keeps_noteFlip g v present).respects
    askMet := fun g _ _ => (h.keeps_askForest g _).respects
    askRisk := fun g v _ _ _ => (h.keeps_askEdge g v _).respects
    clear := h.keeps_clear.respects
    turnOver := fun _ hv => (h.keeps_turnOver hv).respects }

end Stable

/-! ## The shape -/

/-- Setting and flipping keep the size of an assignment. -/
theorem Assignment.size_set {a a' : Assignment} {v : Nat} {b : Bool} (h : a.set v b = .ok a') :
    a'.values.size = a.values.size := by
  unfold Assignment.set at h
  split at h
  · rw [← Except.ok.inj h]
    simp
  · cases h

theorem Assignment.size_flip {a a' : Assignment} {v : Nat} {b : Bool}
    (h : a.flip v = .ok (b, a')) : a'.values.size = a.values.size := by
  unfold Assignment.flip at h
  split at h
  · cases h
    simp
  · cases h

/-- A set that was changed is a set still. A number outside the universe is refused
before anything changes. -/
theorem IndexSet.Fits.of_update {w w' : IndexSet} {n id : Nat} {satisfied : Bool} (h : w.Fits n)
    (hUpdate : w.update id satisfied = .ok w') : w'.Fits n := by
  by_cases hId : id < n
  · obtain ⟨u, hOther, hFits, _⟩ := h.update hId satisfied
    rw [hOther] at hUpdate
    rw [← Except.ok.inj hUpdate]
    exact hFits
  · have hNone : w.place[id]? = none := by
      rw [Array.getElem?_eq_none_iff, h.size]
      exact Nat.le_of_not_lt hId
    have hRefused : w.update id satisfied = .error .outOfRange := by
      cases satisfied <;>
        simp [IndexSet.update, IndexSet.insert, IndexSet.remove, entryAt, hNone, bind, Except.bind]
    rw [hRefused] at hUpdate
    cases hUpdate

/-- The shape of a state survives every change. -/
theorem stable_shaped (p : Problem) : Stable p (fun _ => True) (·.Shaped p) :=
  { setMarks := fun _ _ hs => hs.setMarks
    setViolated := fun hs hUpdate => hs.setViolated (hs.violated.of_update hUpdate)
    setForest := fun hs hForest hGraph => hs.setForest hForest hGraph
    setAssignment := fun hs hSet =>
      ⟨(Assignment.size_set hSet).trans hs.assignment, hs.violated, hs.marks, hs.graphs⟩
    setGenerator := fun _ hs => hs.of_tables rfl rfl rfl rfl
    countRandom := fun hs => hs.of_tables rfl rfl rfl rfl
    touch := fun _ _ hs => hs.of_tables rfl rfl rfl rfl
    clear := by
      intro s w hs hClear
      rw [hs.violated.clear] at hClear
      have hGraphs : (s.forests.map TrackedGraph.invalidate).map TrackedGraph.graph = p.graphs := by
        rw [← hs.graphs, Array.map_map]
        rfl
      rw [← Except.ok.inj hClear]
      exact ⟨hs.assignment, IndexSet.fits_empty _, by simpa using hs.marks, hGraphs⟩
    turnOver := fun _ hs hFlip =>
      ⟨(Assignment.size_flip hFlip).trans hs.assignment, hs.violated, hs.marks, hs.graphs⟩ }

end LocalRepair
