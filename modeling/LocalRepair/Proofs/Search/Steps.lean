import LocalRepair.Bookkeeping
import LocalRepair.Proofs.IndexSet
import LocalRepair.Proofs.Outcome

/-!
# The steps that searches are made of

A search changes one thing at a time: the entry of a constraint, its membership
among the violated ones, or the forest of a graph. Each of these steps is
described once, by the condition under which it returns and by the state it then
leaves behind. Everything that is proved about larger steps goes through these
lemmas.

## Main results

* `Search.ends_of`, `Search.ends_changeMarks`, `Search.ends_record` and the other
  lemmas `ends_…`, one for every step.
* `Search.ends_askForest`, `Search.ends_askEdge`: questions to a forest.
-/

namespace LocalRepair

namespace State

/-- The state with another entry for a constraint. -/
def setMarks (s : State) (id : Nat) (m : Marks) : State :=
  { s with marks := s.marks.setIfInBounds id m }

/-- The state with other violated constraints. -/
def setViolated (s : State) (violated : IndexSet) : State := { s with violated }

/-- The state with another forest for a graph. -/
def setForest (s : State) (g : Nat) (t : TrackedGraph) : State :=
  { s with forests := s.forests.setIfInBounds g t }

variable {s : State} {id g : Nat} {m : Marks} {t : TrackedGraph}

/-- The entry that was set is found. -/
theorem getElem?_setMarks_self {old : Marks} (h : s.marks[id]? = some old) :
    (s.setMarks id m).marks[id]? = some m := by
  have hRange := (Array.getElem?_eq_some_iff.mp h).1
  simp [setMarks, hRange]

/-- Other entries stay. -/
theorem getElem?_setMarks_other {j : Nat} (h : j ≠ id) :
    (s.setMarks id m).marks[j]? = s.marks[j]? := by
  simp [setMarks, h.symm]

/-- The forest that was set is found. -/
theorem getElem?_setForest_self {old : TrackedGraph} (h : s.forests[g]? = some old) :
    (s.setForest g t).forests[g]? = some t := by
  have hRange := (Array.getElem?_eq_some_iff.mp h).1
  simp [setForest, hRange]

/-- Other forests stay. -/
theorem getElem?_setForest_other {j : Nat} (h : j ≠ g) :
    (s.setForest g t).forests[j]? = s.forests[j]? := by
  simp [setForest, h.symm]

end State

namespace Search

variable {α : Type} {s : State} {id g v : Nat} {m : Marks} {t : TrackedGraph}
  {fails : Fault → State → Prop}

/-! ## Outcomes and entries -/

theorem ends_of {outcome : Except Fault α} {a : α} {returns : α → State → Prop}
    (h : outcome = .ok a) (hReturns : returns a s) : Ends (of outcome) s returns fails := by
  rw [h]
  exact hReturns

/-- An outcome as a step leaves the state alone, whatever it is. -/
theorem ends_of_any {outcome : Except Fault α} {returns : α → State → Prop}
    (hReturns : ∀ a, outcome = .ok a → returns a s)
    (hFails : ∀ e, outcome = .error e → fails e s) : Ends (of outcome) s returns fails := by
  cases outcome with
  | ok a => exact hReturns a rfl
  | error e => exact hFails e rfl

/-- A draw changes the generator, and nothing else. -/
theorem ends_draw (f : ChaCha → α × ChaCha) {returns : α → State → Prop} :
    Ends (draw f) s returns fails
      ↔ returns (f s.generator).1 { s with generator := (f s.generator).2 } := Iff.rfl

theorem ends_constraint {p : Problem} {c : Constraint} {returns : Constraint → State → Prop}
    (h : p.constraints[id]? = some c) (hReturns : returns c s) :
    Ends (of (p.constraint id)) s returns fails :=
  ends_of (entryAt_eq_ok_iff.mpr h) hReturns

theorem ends_marksOf {returns : Marks → State → Prop} (h : s.marks[id]? = some m)
    (hReturns : returns m s) : Ends (marksOf id) s returns fails := by
  rw [marksOf, ends_bind, ends_get]
  exact ends_of (entryAt_eq_ok_iff.mpr h) hReturns

theorem ends_changeMarks {change : Marks → Marks} {returns : Unit → State → Prop}
    (h : s.marks[id]? = some m) (hReturns : returns () (s.setMarks id (change m))) :
    Ends (changeMarks id change) s returns fails := by
  rw [changeMarks, ends_bind]
  exact ends_marksOf h hReturns

/-! ## The violated constraints -/

theorem ends_isViolated {n : Nat} {returns : Bool → State → Prop} (hFits : s.violated.Fits n)
    (hId : id < n) (hReturns : returns (decide (id ∈ s.violated.toList)) s) :
    Ends (isViolated id) s returns fails := by
  rw [isViolated, ends_bind, ends_get]
  exact ends_of (hFits.contains_eq hId) hReturns

theorem ends_record {n : Nat} {satisfied : Bool} {returns : Unit → State → Prop}
    (hFits : s.violated.Fits n) (hId : id < n)
    (hReturns : ∀ w : IndexSet, w.Fits n → (id ∈ w.toList ↔ satisfied = false) →
      (∀ j, j ≠ id → (j ∈ w.toList ↔ j ∈ s.violated.toList)) → returns () (s.setViolated w)) :
    Ends (record id satisfied) s returns fails := by
  obtain ⟨w, hUpdate, hFits', hSelf, hOther⟩ := hFits.update hId satisfied
  rw [record, ends_bind, ends_get, ends_bind]
  exact ends_of hUpdate (hReturns w hFits' hSelf hOther)

/-! ## The forests -/

theorem ends_tracked {returns : TrackedGraph → State → Prop} (h : s.forests[g]? = some t)
    (hReturns : returns t s) : Ends (tracked g) s returns fails := by
  rw [tracked, ends_bind, ends_get]
  exact ends_of (entryAt_eq_ok_iff.mpr h) hReturns

theorem ends_invalidate {returns : Unit → State → Prop} (h : s.forests[g]? = some t)
    (hReturns : returns () (s.setForest g t.invalidate)) :
    Ends (invalidate g) s returns fails := by
  rw [invalidate, ends_bind]
  exact ends_tracked h hReturns

/-- A flip is told to the edge that the proposition backs. -/
theorem ends_noteFlip {e : t.graph.EdgeId} {present : Bool} {returns : Option Nat → State → Prop}
    (h : s.forests[g]? = some t) (hEdge : t.graph.edgeBackedBy? v = some e)
    (hReturns : returns (some e.val) (s.setForest g ⟨t.graph, t.forest.note e present⟩)) :
    Ends (noteFlip g v present) s returns fails := by
  rw [noteFlip, ends_bind]
  apply ends_tracked h
  rw [hEdge]
  exact hReturns

/-- A question is put to the forest after it was brought up to date. -/
theorem ask_eq {a : Assignment} {f : Forest t.graph} {query : Forest.Query t.graph α}
    (hUpdate : t.forest.bringUpToDate a = .ok f) :
    t.ask a (.ok query) = .ok ((query f).1, ⟨t.graph, (query f).2⟩) := by
  rw [TrackedGraph.ask, hUpdate]
  rfl

theorem ends_askForest {query : (g : Graph) → Except Fault (Forest.Query g α)}
    {f : Forest t.graph} {q : Forest.Query t.graph α} {returns : α → State → Prop}
    (h : s.forests[g]? = some t) (hUpdate : t.forest.bringUpToDate s.assignment = .ok f)
    (hQuery : query t.graph = .ok q)
    (hReturns : returns (q f).1 (s.setForest g ⟨t.graph, (q f).2⟩)) :
    Ends (askForest g query) s returns fails := by
  rw [askForest, ends_bind]
  apply ends_tracked h
  rw [ends_bind, ends_get, ends_bind, hQuery]
  exact ends_of (ask_eq hUpdate) hReturns

theorem ends_askEdge_some {query : (g : Graph) → g.EdgeId → Except Fault (Forest.Query g α)}
    {e : t.graph.EdgeId} {f : Forest t.graph} {q : Forest.Query t.graph α}
    {returns : Option α → State → Prop} (h : s.forests[g]? = some t)
    (hEdge : t.graph.edgeBackedBy? v = some e)
    (hUpdate : t.forest.bringUpToDate s.assignment = .ok f) (hQuery : query t.graph e = .ok q)
    (hReturns : returns (some (q f).1) (s.setForest g ⟨t.graph, (q f).2⟩)) :
    Ends (askEdge g v query) s returns fails := by
  rw [askEdge, ends_bind]
  apply ends_tracked h
  rw [hEdge, ends_bind, ends_get, ends_bind, hQuery]
  exact ends_of (ask_eq hUpdate) hReturns

theorem ends_askEdge_none {query : (g : Graph) → g.EdgeId → Except Fault (Forest.Query g α)}
    {returns : Option α → State → Prop} (h : s.forests[g]? = some t)
    (hEdge : t.graph.edgeBackedBy? v = none) (hReturns : returns none s) :
    Ends (askEdge g v query) s returns fails := by
  rw [askEdge, ends_bind]
  apply ends_tracked h
  rw [hEdge]
  exact hReturns

end Search
end LocalRepair
