import LocalRepair.Assignment

/-!
# Reading and flipping assignments

Within its table an assignment behaves as the function `isTrue`: values are read
from it, setting changes it at one place, and flipping negates it there. The size
of the table never changes.

## Main results

* `value_eq`: a value that exists is what `isTrue` says.
* `flip_eq`: a flip that is in range negates one value and keeps all others.
-/

namespace LocalRepair

/-- An entry that exists is found. -/
theorem entryAt_eq_ok_iff {α : Type} {xs : Array α} {i : Nat} {x : α} :
    entryAt xs i = .ok x ↔ xs[i]? = some x := by
  unfold entryAt
  split <;> simp_all

/-- An entry in range exists. -/
theorem entryAt_of_lt {α : Type} {xs : Array α} {i : Nat} (h : i < xs.size) :
    entryAt xs i = .ok xs[i] :=
  entryAt_eq_ok_iff.mpr (Array.getElem?_eq_getElem h)

namespace Assignment

variable {a a' : Assignment} {v : Nat}

/-- The second assignment is the first with one proposition turned over. -/
structure Flipped (a : Assignment) (v : Nat) (a' : Assignment) : Prop where
  size : a'.values.size = a.values.size
  self : a'.isTrue v = !a.isTrue v
  other : ∀ w, w ≠ v → a'.isTrue w = a.isTrue w

/-- A value that exists is what `isTrue` says. -/
theorem value_eq (h : v < a.values.size) : a.value v = .ok (a.isTrue v) := by
  rw [value, entryAt_of_lt h, isTrue, Array.getD_eq_getD_getElem?,
    Array.getElem?_eq_getElem h, Option.getD_some]

/-- A flip in range tells the new value and turns over nothing else. -/
theorem flip_eq (h : v < a.values.size) :
    ∃ a', a.flip v = .ok (!a.isTrue v, a') ∧ a.Flipped v a' := by
  have hValue : a.isTrue v = a.values[v] := by
    rw [isTrue, Array.getD_eq_getD_getElem?, Array.getElem?_eq_getElem h, Option.getD_some]
  refine ⟨⟨a.values.setIfInBounds v (!a.isTrue v)⟩, ?_, ?_, ?_, ?_⟩
  · rw [flip, Array.getElem?_eq_getElem h, hValue]
  · simp
  · simp [isTrue, h]
  · intro w hw
    simp [isTrue, hw.symm]

/-- A flip out of range is refused. -/
theorem flip_refused (h : a.values.size ≤ v) : a.flip v = .error .outOfRange := by
  rw [flip, Array.getElem?_eq_none h]

@[simp] theorem size_allFalse (count : Nat) : (allFalse count).values.size = count + 1 := by
  simp [allFalse]

end Assignment
end LocalRepair
