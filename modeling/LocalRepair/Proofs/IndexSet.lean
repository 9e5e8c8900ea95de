import Mathlib.Data.List.Nodup
import LocalRepair.Proofs.Assignment
import LocalRepair.IndexSet

/-!
# Index sets are sets

The two tables of an index set are inverse to each other: an index has a place
exactly when the row has it there. `Fits` is this statement together with the
size of the universe. Every operation on an index of the universe succeeds and
keeps it, and does to the row what its name says; the order of the row is left
out here.

## Main results

* `Fits.insert`, `Fits.remove`, `Fits.update`, `Fits.clear`.
* `Fits.contains_eq`: membership is decided by the table of places.
* `Fits.nodup`: the row lists no index twice.
* `isEmpty_of_choose_none`, `mem_of_choose`: random members.
-/

namespace LocalRepair.IndexSet

variable {s s' : IndexSet} {n i j k : Nat}

/-- The universe has the given size, and the two tables are inverse. -/
structure Fits (s : IndexSet) (n : Nat) : Prop where
  size : s.place.size = n
  place_iff : ∀ i k : Nat, s.place[i]? = some (some k) ↔ s.members[k]? = some i

theorem fits_empty (n : Nat) : (empty n).Fits n := by
  refine ⟨by simp [empty], fun i k => ?_⟩
  simp only [empty, Array.getElem?_replicate, Array.getElem?_empty, reduceCtorEq, iff_false]
  split <;> simp

theorem mem_toList : i ∈ s.toList ↔ ∃ k : Nat, s.members[k]? = some i := by
  rw [toList, Array.mem_toList_iff, Array.mem_iff_getElem?]

namespace Fits

/-- Members lie in the universe. -/
theorem lt_of_mem (h : s.Fits n) (hMem : i ∈ s.toList) : i < n := by
  obtain ⟨k, hk⟩ := mem_toList.mp hMem
  obtain ⟨hi, _⟩ := Array.getElem?_eq_some_iff.mp ((h.place_iff i k).mpr hk)
  exact h.size ▸ hi

/-- An index is a member exactly when it has a place. -/
theorem mem_iff (h : s.Fits n) : i ∈ s.toList ↔ ∃ k : Nat, s.place[i]? = some (some k) := by
  rw [mem_toList]
  exact exists_congr fun k => (h.place_iff i k).symm

/-- Whether an index of the universe is a member. -/
theorem contains_eq (h : s.Fits n) (hi : i < n) : s.contains i = .ok (decide (i ∈ s.toList)) := by
  have hPlace : i < s.place.size := h.size.symm ▸ hi
  have hIff : (s.place[i]).isSome = decide (i ∈ s.toList) := by
    rw [Bool.eq_iff_iff, decide_eq_true_iff, h.mem_iff, Option.isSome_iff_exists]
    simp [hPlace]
  rw [contains, entryAt_of_lt hPlace, ← hIff]
  rfl

/-- No index stands twice in the row of a set. -/
theorem nodup (h : s.Fits n) : s.toList.Nodup := by
  rw [List.nodup_iff_getElem?_ne_getElem?]
  intro i j hLess hj hSame
  have hEntry : s.members[j]? = some s.toList[j] := by
    simp [toList]
  have hOther : s.members[i]? = some s.toList[j] := by
    rw [← hEntry]
    simpa [toList] using hSame
  have hPlaces := ((h.place_iff _ _).mpr hOther).symm.trans ((h.place_iff _ _).mpr hEntry)
  have hEq := Option.some.inj (Option.some.inj hPlaces)
  omega

/-- An index that is a member is not added again. -/
theorem insert_of_mem (h : s.Fits n) (hMem : i ∈ s.toList) : s.insert i = .ok s := by
  obtain ⟨slot, hSlot⟩ := h.mem_iff.mp hMem
  rw [IndexSet.insert, entryAt_eq_ok_iff.mpr hSlot]
  rfl

/-- An index that is no member need not be removed. -/
theorem remove_of_not_mem (h : s.Fits n) (hi : i < n) (hOut : i ∉ s.toList) :
    s.remove i = .ok s := by
  have hPlace : i < s.place.size := h.size.symm ▸ hi
  have hEntry : s.place[i] = none := by
    rw [h.mem_iff, not_exists] at hOut
    cases hSlot : s.place[i] with
    | none => rfl
    | some slot => exact absurd (by simp [hPlace, hSlot]) (hOut slot)
  rw [IndexSet.remove, entryAt_of_lt hPlace, hEntry]
  rfl

/-- An index that is added becomes a member. -/
theorem insert (h : s.Fits n) (hi : i < n) :
    ∃ s', s.insert i = .ok s' ∧ s'.Fits n ∧ ∀ j, j ∈ s'.toList ↔ j = i ∨ j ∈ s.toList := by
  have hPlace : i < s.place.size := h.size.symm ▸ hi
  cases hEntry : s.place[i] with
  | some slot =>
      have hMem : i ∈ s.toList := h.mem_iff.mpr ⟨slot, by simp [hPlace, hEntry]⟩
      refine ⟨s, h.insert_of_mem hMem, h, fun j => ⟨Or.inr, ?_⟩⟩
      rintro (rfl | hj)
      · exact hMem
      · exact hj
  | none =>
      refine ⟨⟨s.members.push i, s.place.setIfInBounds i (some s.members.size)⟩, ?_, ⟨?_, ?_⟩, ?_⟩
      · rw [IndexSet.insert, entryAt_of_lt hPlace, hEntry, putAt, if_pos hPlace]
        rfl
      · simpa using h.size
      · intro j k
        have hOld := h.place_iff j k
        simp only [Array.getElem?_setIfInBounds, Array.getElem?_push]
        grind
      · intro j
        simp only [mem_toList, Array.getElem?_push]
        constructor
        · rintro ⟨k, hk⟩
          grind
        · rintro (rfl | ⟨k, hk⟩)
          · exact ⟨s.members.size, by simp⟩
          · refine ⟨k, ?_⟩
            grind

/-- The second row is the first without the entry in a slot, which the last entry
fills. -/
def TakenOut (row : Array Nat) (slot : Nat) (row' : Array Nat) : Prop :=
  ∀ k : Nat, row'[k]? =
    if k + 1 < row.size then if k = slot then row[row.size - 1]? else row[k]? else none

theorem takeOut_eq {row : Array Nat} {slot : Nat} (hSlot : slot < row.size) :
    ∃ row', takeOut row slot = .ok row' ∧ TakenOut row slot row' := by
  have hLast : row.size - 1 < row.size := by omega
  refine ⟨(row.setIfInBounds slot row[row.size - 1]).pop, ?_, fun k => ?_⟩
  · rw [takeOut, entryAt_of_lt hLast]
    show (do return (← putAt row slot row[row.size - 1]).pop) = _
    rw [putAt, if_pos hSlot]
    rfl
  · rw [Array.getElem?_pop, Array.size_setIfInBounds]
    grind

section Removal

variable {members : Array Nat} {slot moved : Nat}

/-- Without the last member, whose place is forgotten, the tables stay inverse. -/
theorem fits_cut (h : s.Fits n) (hAt : s.members[slot]? = some i)
    (hMembers : TakenOut s.members slot members)
    (hGap : members[slot]? = none) : Fits ⟨members, s.place.setIfInBounds i none⟩ n := by
  refine ⟨by simpa using h.size, fun j k => ?_⟩
  have hOld := h.place_iff j k
  have hMoved := h.place_iff i slot
  have hMembersAt := hMembers slot
  simp only [Array.getElem?_setIfInBounds, hMembers k]
  grind

/-- The member that fills a gap stood last, so it is not the removed one. -/
theorem last_eq (h : s.Fits n) (hAt : s.members[slot]? = some i)
    (hMembers : TakenOut s.members slot members)
    (hGap : members[slot]? = some moved) :
    s.members[s.members.size - 1]? = some moved ∧ moved ≠ i := by
  have hMembersAt := hMembers slot
  rw [if_pos rfl] at hMembersAt
  have hLast : s.members[s.members.size - 1]? = some moved := by grind
  have hMoved := (h.place_iff _ _).mpr hLast
  have hPlace := (h.place_iff _ _).mpr hAt
  refine ⟨hLast, ?_⟩
  rintro rfl
  grind

/-- With the last member in the place of the removed one, the tables stay
inverse. -/
theorem fits_filled (h : s.Fits n) (hAt : s.members[slot]? = some i)
    (hMembers : TakenOut s.members slot members)
    (hGap : members[slot]? = some moved) :
    Fits ⟨members, (s.place.setIfInBounds i none).setIfInBounds moved (some slot)⟩ n := by
  obtain ⟨hLast, hNe⟩ := h.last_eq hAt hMembers hGap
  have hMoved := (h.place_iff _ _).mpr hLast
  have hPlace := (h.place_iff _ _).mpr hAt
  refine ⟨by simpa using h.size, fun j k => ?_⟩
  have hOld := h.place_iff j k
  simp only [Array.getElem?_setIfInBounds, hMembers k]
  grind

end Removal

/-- An index that is removed is no member any more. -/
theorem remove (h : s.Fits n) (hi : i < n) :
    ∃ s', s.remove i = .ok s' ∧ s'.Fits n ∧ ∀ j, j ∈ s'.toList ↔ j ≠ i ∧ j ∈ s.toList := by
  have hPlace : i < s.place.size := h.size.symm ▸ hi
  cases hEntry : s.place[i] with
  | none =>
      have hOut : i ∉ s.toList := by
        rw [h.mem_iff]
        simp [hPlace, hEntry]
      refine ⟨s, h.remove_of_not_mem hi hOut, h, fun j => ⟨fun hj => ⟨?_, hj⟩, And.right⟩⟩
      rintro rfl
      exact hOut hj
  | some slot =>
      have hAt : s.members[slot]? = some i :=
        (h.place_iff i slot).mp (by simp [hPlace, hEntry])
      have hSlot : slot < s.members.size := (Array.getElem?_eq_some_iff.mp hAt).1
      obtain ⟨members, hTake, hMembers⟩ := takeOut_eq hSlot
      have hPut : putAt s.place i none = .ok (s.place.setIfInBounds i none) := if_pos hPlace
      cases hGap : members[slot]? with
      | none =>
          have hFits := h.fits_cut hAt hMembers hGap
          refine ⟨_, ?_, hFits, fun j => ?_⟩
          · rw [IndexSet.remove, entryAt_of_lt hPlace, hEntry]
            simp only [bind, Except.bind, hPut, hTake, hGap]
            rfl
          · rw [hFits.mem_iff, h.mem_iff]
            simp only [Array.getElem?_setIfInBounds]
            grind
      | some moved =>
          have hFits := h.fits_filled hAt hMembers hGap
          obtain ⟨hLast, hNe⟩ := h.last_eq hAt hMembers hGap
          have hMoved := (h.place_iff _ _).mpr hLast
          have hInPlace : moved < (s.place.setIfInBounds i none).size := by
            rw [Array.size_setIfInBounds]
            exact (Array.getElem?_eq_some_iff.mp hMoved).1
          have hFill : putAt (s.place.setIfInBounds i none) moved (some slot)
              = .ok ((s.place.setIfInBounds i none).setIfInBounds moved (some slot)) :=
            if_pos hInPlace
          refine ⟨_, ?_, hFits, fun j => ?_⟩
          · rw [IndexSet.remove, entryAt_of_lt hPlace, hEntry]
            simp only [bind, Except.bind, hPut, hTake, hGap, hFill]
            rfl
          · rw [hFits.mem_iff, h.mem_iff]
            simp only [Array.getElem?_setIfInBounds]
            grind

/-- An index becomes a member exactly when it is told not to be satisfied. -/
theorem update (h : s.Fits n) (hi : i < n) (satisfied : Bool) :
    ∃ s', s.update i satisfied = .ok s' ∧ s'.Fits n
      ∧ (i ∈ s'.toList ↔ satisfied = false) ∧ ∀ j, j ≠ i → (j ∈ s'.toList ↔ j ∈ s.toList) := by
  cases satisfied with
  | true =>
      obtain ⟨s', hStep, hFits, hMem⟩ := h.remove hi
      refine ⟨s', hStep, hFits, by simp [hMem], fun j hj => ?_⟩
      simp [hMem, hj]
  | false =>
      obtain ⟨s', hStep, hFits, hMem⟩ := h.insert hi
      refine ⟨s', hStep, hFits, by simp [hMem], fun j hj => ?_⟩
      simp [hMem, hj]

/-- Forgetting the places of a row of indices. -/
theorem forget_eq :
    ∀ (row : List Nat) (place : Array (Option Nat)), (∀ i ∈ row, i < place.size) →
      ∃ place', row.foldlM (fun place i => putAt place i none) place = Except.ok place'
        ∧ place'.size = place.size
        ∧ ∀ j : Nat, j < place.size → place'[j]? = if j ∈ row then some none else place[j]? := by
  intro row
  induction row with
  | nil =>
      intro place _
      exact ⟨place, rfl, rfl, by simp⟩
  | cons i row ih =>
      intro place hRange
      have hPut : putAt place i none = .ok (place.setIfInBounds i none) :=
        if_pos (hRange i (by simp))
      obtain ⟨place', hRest, hSize, hEntries⟩ := ih (place.setIfInBounds i none) (by
        intro j hj
        simpa using hRange j (List.mem_cons_of_mem _ hj))
      refine ⟨place', ?_, by simpa using hSize, fun j hj => ?_⟩
      · rw [List.foldlM_cons, hPut]
        exact hRest
      · rw [hEntries j (by simpa using hj), Array.getElem?_setIfInBounds]
        grind

/-- A set that is cleared is the empty set, whatever happened to it before. -/
theorem clear (h : s.Fits n) : s.clear = .ok (empty n) := by
  obtain ⟨place, hForget, hSize, hEntries⟩ := forget_eq s.members.toList s.place (by
    intro i hi
    rw [h.size]
    exact h.lt_of_mem hi)
  have hNone : place = Array.replicate n none := by
    apply Array.ext (by simp [hSize, h.size])
    intro j hj _
    have hOld : j < s.place.size := hSize ▸ hj
    have hEntry := hEntries j hOld
    rw [Array.getElem?_eq_getElem hj] at hEntry
    rw [Array.getElem_replicate]
    have hMem := h.mem_iff (i := j)
    rw [toList] at hMem
    by_cases hj : j ∈ s.members.toList
    · rw [if_pos hj] at hEntry
      exact Option.some.inj hEntry
    · rw [if_neg hj] at hEntry
      rw [hMem] at hj
      cases hPlace : place[j] with
      | none => rfl
      | some k => exact absurd ⟨k, by rw [← hEntry, hPlace]⟩ hj
  rw [IndexSet.clear, hForget, hNone]
  rfl

end Fits

/-! ## Random members -/

/-- A draw from a set fails to find a member only if there is none. -/
theorem isEmpty_of_choose_none {g : ChaCha} (h : (s.choose g).1 = none) :
    s.isEmpty = true := by
  unfold choose at h
  split at h
  · -- The draw is generalized, or checking `cases` would compute it.
    generalize ChaCha.below _ _ g = drawn at h
    cases h
  · rw [Array.getElem?_eq_none_iff] at h
    rw [isEmpty, Array.isEmpty_iff_size_eq_zero]
    omega

/-- What is drawn from a set is a member. -/
theorem mem_of_choose {g : ChaCha} {id : Nat} (h : (s.choose g).1 = some id) :
    id ∈ s.toList := by
  rw [toList, Array.mem_toList_iff]
  unfold choose at h
  split at h
  · generalize ChaCha.below _ _ g = drawn at h
    rw [← Option.some.inj h]
    exact Array.getElem_mem drawn.1.isLt
  · exact Array.mem_of_getElem? h

/-- A set without a least member is empty. -/
theorem isEmpty_of_least?_none (h : s.least? = none) : s.isEmpty = true := by
  rw [least?, List.min?_eq_none_iff] at h
  simpa [isEmpty] using h

end LocalRepair.IndexSet
